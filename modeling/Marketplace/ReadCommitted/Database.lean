import Mathlib.Logic.Function.Basic
import Mathlib.Data.Nat.Notation
import Mathlib.Tactic.SplitIfs

/-!
A database under READ COMMITTED: every row has its last committed version, and at most one
transaction holds its lock together with the version that transaction will commit. Rows are
inserted and updated, never deleted.
-/

namespace ReadCommitted

inductive Status
  | idle | inProgress | committed | aborted
  deriving DecidableEq, Repr

structure Txn where
  status : Status
  -- the statements started in the transaction
  command : ℕ
  deriving DecidableEq, Repr

structure Database (T Q K : Type) (R : K → Type) where
  committed : (k : K) → Option (R k)
  held : (k : K) → Option (T × R k)
  seq : Q → ℕ
  txn : T → Txn

structure Snapshot (Q K : Type) (R : K → Type) where
  row : (k : K) → Option (R k)
  seq : Q → ℕ

structure Change (R : Type) where
  old : Option R
  new : R

variable {T Q K : Type} {R : K → Type}

namespace Database

variable [DecidableEq T]

def visible (db : Database T Q K R) (t : T) (k : K) : Option (R k) :=
  match db.held k with
  | some (t', r) => if t' = t then some r else db.committed k
  | none => db.committed k

def snapshot (db : Database T Q K R) (t : T) : Snapshot Q K R := ⟨db.visible t, db.seq⟩

def workspace (db : Database T Q K R) (t : T) (k : K) : Option (Change (R k)) :=
  match db.held k with
  | some (t', r) => if t' = t then some ⟨db.committed k, r⟩ else none
  | none => none

def release (db : Database T Q K R) (t : T) (k : K) : Option (T × R k) :=
  match db.held k with
  | some (t', r) => if t' = t then none else some (t', r)
  | none => none

def setTxn (db : Database T Q K R) (t : T) (x : Txn) : Database T Q K R :=
  { db with txn := Function.update db.txn t x }

-- outside a transaction COMMIT and ROLLBACK do nothing
def commit (db : Database T Q K R) (t : T) : Database T Q K R :=
  if (db.txn t).status = .inProgress then
    { db with committed := db.visible t, held := db.release t,
              txn := Function.update db.txn t ⟨.committed, (db.txn t).command⟩ }
  else db

def rollback (db : Database T Q K R) (t : T) : Database T Q K R :=
  if (db.txn t).status = .inProgress then
    { db with held := db.release t,
              txn := Function.update db.txn t ⟨.aborted, (db.txn t).command⟩ }
  else db

omit [DecidableEq T] in
structure Quiescent (db : Database T Q K R) : Prop where
  held : ∀ k, db.held k = none
  txn : ∀ t, db.txn t = ⟨.idle, 0⟩

section Rows

variable {db : Database T Q K R} {t t' : T} {k : K}

theorem committed_of_workspace {ch : Change (R k)} (h : db.workspace t k = some ch) :
    db.committed k = ch.old := by
  unfold workspace at h
  split at h
  · split at h
    · cases h; rfl
    · cases h
  · cases h

theorem held_of_workspace {ch : Change (R k)} (h : db.workspace t k = some ch) :
    db.held k = some (t, ch.new) := by
  unfold workspace at h
  split at h
  · rename_i t' r heq
    split at h
    · rename_i ht
      cases h
      rw [heq, ht]
    · cases h
  · cases h

theorem workspace_of_held {r : R k} (h : db.held k = some (t, r)) :
    db.workspace t k = some ⟨db.committed k, r⟩ := by
  simp [workspace, h]

theorem workspace_none_of_free (h : db.held k = none) : db.workspace t k = none := by
  simp [workspace, h]

theorem workspace_none_of_other {r : R k} (h : db.held k = some (t', r)) (hne : t' ≠ t) :
    db.workspace t k = none := by
  simp [workspace, h, hne]

theorem workspace_exclusive {ch ch' : Change (R k)} (h : db.workspace t k = some ch)
    (h' : db.workspace t' k = some ch') : t = t' := by
  have hh := held_of_workspace h
  rw [held_of_workspace h'] at hh
  exact (Prod.mk.inj (Option.some.inj hh)).1.symm

theorem visible_of_workspace {ch : Change (R k)} (h : db.workspace t k = some ch) :
    db.visible t k = some ch.new := by
  simp [visible, held_of_workspace h]

theorem visible_of_none (h : db.workspace t k = none) : db.visible t k = db.committed k := by
  unfold visible
  split
  · rename_i t' r heq
    split
    · rename_i ht
      subst ht
      rw [workspace_of_held heq] at h
      cases h
    · rfl
  · rfl

theorem visible_of_held_other {r : R k} (h : db.held k = some (t', r)) (hne : t' ≠ t) :
    db.visible t k = db.committed k :=
  visible_of_none (workspace_none_of_other h hne)

theorem release_eq_some {r : R k} :
    db.release t k = some (t', r) ↔ db.held k = some (t', r) ∧ t' ≠ t := by
  unfold release
  cases hh : db.held k with
  | none => simp
  | some p =>
    obtain ⟨u, x⟩ := p
    by_cases hu : u = t
    · simp only [hu, if_true, reduceCtorEq, Option.some.injEq, Prod.mk.injEq, false_iff, not_and,
        not_not, and_imp]
      exact fun h _ => h.symm
    · simp only [hu, if_false, Option.some.injEq, Prod.mk.injEq]
      constructor
      · rintro ⟨rfl, rfl⟩
        exact ⟨⟨rfl, rfl⟩, hu⟩
      · rintro ⟨⟨rfl, rfl⟩, -⟩
        exact ⟨rfl, rfl⟩

@[simp] theorem visible_setTxn {x : Txn} : (db.setTxn t' x).visible t = db.visible t := rfl

@[simp] theorem workspace_setTxn {x : Txn} : (db.setTxn t' x).workspace t = db.workspace t := rfl

@[simp] theorem committed_setTxn {x : Txn} : (db.setTxn t x).committed = db.committed := rfl

@[simp] theorem seq_setTxn {x : Txn} : (db.setTxn t x).seq = db.seq := rfl

@[simp] theorem txn_setTxn {x : Txn} : (db.setTxn t x).txn t = x := by simp [setTxn]

theorem txn_setTxn_of_ne {x : Txn} (hne : t ≠ t') : (db.setTxn t x).txn t' = db.txn t' := by
  simp [setTxn, Ne.symm hne]

end Rows

section Ends

variable {db : Database T Q K R} {t t' : T}

theorem workspace_release_self {c : (k : K) → Option (R k)} {q : Q → ℕ} {x : T → Txn} :
    (Database.mk c (db.release t) q x).workspace t = fun _ => none := by
  funext k
  cases hr : db.release t k with
  | none => exact workspace_none_of_free hr
  | some p => exact workspace_none_of_other hr (release_eq_some.mp hr).2

theorem workspace_release_other {c : (k : K) → Option (R k)} {q : Q → ℕ} {x : T → Txn} (hne : t ≠ t')
    (hc : ∀ k r, db.held k = some (t', r) → c k = db.committed k) :
    (Database.mk c (db.release t) q x).workspace t' = db.workspace t' := by
  funext k
  cases hh : db.held k with
  | none =>
    rw [workspace_none_of_free hh]
    exact workspace_none_of_free (by simp [release, hh])
  | some p =>
    obtain ⟨u, r⟩ := p
    by_cases hu : u = t'
    · subst hu
      rw [workspace_of_held hh, ← hc k r hh]
      exact workspace_of_held (release_eq_some.mpr ⟨hh, Ne.symm hne⟩)
    · rw [workspace_none_of_other hh hu]
      by_cases hut : u = t
      · exact workspace_none_of_free (by simp [release, hh, hut])
      · exact workspace_none_of_other (release_eq_some.mpr ⟨hh, hut⟩) hu

theorem workspace_commit (hs : (db.txn t).status = .inProgress) :
    (db.commit t).workspace t = fun _ => none := by
  rw [commit, if_pos hs]
  exact workspace_release_self

theorem workspace_rollback (hs : (db.txn t).status = .inProgress) :
    (db.rollback t).workspace t = fun _ => none := by
  rw [rollback, if_pos hs]
  exact workspace_release_self

theorem workspace_commit_other (hne : t ≠ t') : (db.commit t).workspace t' = db.workspace t' := by
  unfold commit
  split
  · exact workspace_release_other hne fun k r hh => visible_of_held_other hh (Ne.symm hne)
  · rfl

theorem workspace_rollback_other (hne : t ≠ t') : (db.rollback t).workspace t' = db.workspace t' := by
  unfold rollback
  split
  · exact workspace_release_other hne fun _ _ _ => rfl
  · rfl

theorem committed_commit (hs : (db.txn t).status = .inProgress) :
    (db.commit t).committed = db.visible t := by
  rw [commit, if_pos hs]

@[simp] theorem committed_rollback : (db.rollback t).committed = db.committed := by
  unfold rollback
  split <;> rfl

@[simp] theorem seq_commit : (db.commit t).seq = db.seq := by
  unfold commit
  split <;> rfl

@[simp] theorem seq_rollback : (db.rollback t).seq = db.seq := by
  unfold rollback
  split <;> rfl

theorem txn_commit (hs : (db.txn t).status = .inProgress) :
    (db.commit t).txn t = ⟨.committed, (db.txn t).command⟩ := by
  simp [commit, hs]

theorem txn_rollback (hs : (db.txn t).status = .inProgress) :
    (db.rollback t).txn t = ⟨.aborted, (db.txn t).command⟩ := by
  simp [rollback, hs]

theorem txn_commit_of_ne (hne : t ≠ t') : (db.commit t).txn t' = db.txn t' := by
  unfold commit
  split
  · simp [Ne.symm hne]
  · rfl

theorem txn_rollback_of_ne (hne : t ≠ t') : (db.rollback t).txn t' = db.txn t' := by
  unfold rollback
  split
  · simp [Ne.symm hne]
  · rfl

theorem status_rollback :
    ((db.rollback t).txn t').status = .committed ↔ (db.txn t').status = .committed := by
  by_cases ht : t = t'
  · subst ht
    by_cases hs : (db.txn t).status = .inProgress
    · simp [txn_rollback hs, hs]
    · simp [rollback, hs]
  · rw [txn_rollback_of_ne ht]

end Ends

structure Frame (t : T) (db db' : Database T Q K R) : Prop where
  workspace : db'.workspace t = db.workspace t
  txn : db'.txn t = db.txn t
  seq : ∀ q, db.seq q ≤ db'.seq q
  rows : ∀ k r, db.committed k = some r → ∃ r', db'.committed k = some r'

section Frames

variable {db db' db'' : Database T Q K R} {t t' : T} {k : K}

theorem Frame.refl (t : T) (db : Database T Q K R) : Frame t db db :=
  ⟨rfl, rfl, fun _ => Nat.le_refl _, fun _ r h => ⟨r, h⟩⟩

theorem Frame.trans (h : Frame t db db') (h' : Frame t db' db'') : Frame t db db'' := by
  refine ⟨h'.workspace.trans h.workspace, h'.txn.trans h.txn,
    fun q => Nat.le_trans (h.seq q) (h'.seq q), fun k r hr => ?_⟩
  obtain ⟨r', hr'⟩ := h.rows k r hr
  exact h'.rows k r' hr'

theorem frame_setTxn {x : Txn} (hne : t ≠ t') : Frame t' db (db.setTxn t x) :=
  ⟨rfl, txn_setTxn_of_ne hne, fun _ => Nat.le_refl _, fun _ r h => ⟨r, h⟩⟩

theorem visible_of_committed {r : R k} (h : db.committed k = some r) : ∃ r', db.visible t k = some r' := by
  cases hw : db.workspace t k with
  | none => exact ⟨r, (visible_of_none hw).trans h⟩
  | some ch => exact ⟨ch.new, visible_of_workspace hw⟩

theorem frame_commit (hne : t ≠ t') : Frame t' db (db.commit t) := by
  refine ⟨workspace_commit_other hne, txn_commit_of_ne hne, fun q => Nat.le_of_eq (by rw [seq_commit]), ?_⟩
  intro k r hr
  unfold commit
  split
  · exact visible_of_committed hr
  · exact ⟨r, hr⟩

theorem frame_rollback (hne : t ≠ t') : Frame t' db (db.rollback t) :=
  ⟨workspace_rollback_other hne, txn_rollback_of_ne hne, fun q => Nat.le_of_eq (by rw [seq_rollback]),
    fun _ r h => ⟨r, by rw [committed_rollback]; exact h⟩⟩

end Frames

section Hold

variable [DecidableEq K] {db : Database T Q K R} {t t' : T} {k : K}

def hold (db : Database T Q K R) (t : T) (k : K) (r : R k) : Database T Q K R :=
  { db with held := Function.update db.held k (some (t, r)) }

omit [DecidableEq T] in
@[simp] theorem committed_hold (r : R k) : (db.hold t k r).committed = db.committed := rfl

omit [DecidableEq T] in
@[simp] theorem seq_hold (r : R k) : (db.hold t k r).seq = db.seq := rfl

omit [DecidableEq T] in
@[simp] theorem txn_hold (r : R k) : (db.hold t k r).txn = db.txn := rfl

theorem workspace_hold (r : R k) : (db.hold t k r).workspace t =
    Function.update (db.workspace t) k (some ⟨db.committed k, r⟩) := by
  funext j
  by_cases hj : j = k
  · subst hj
    simp [workspace, hold]
  · simp [workspace, hold, hj]

theorem workspace_hold_other {r : R k} (hne : t ≠ t') (hk : db.workspace t' k = none) :
    (db.hold t k r).workspace t' = db.workspace t' := by
  funext j
  by_cases hj : j = k
  · subst hj
    rw [hk]
    simp [workspace, hold, hne]
  · simp [workspace, hold, hj]

theorem frame_hold {r : R k} (hne : t ≠ t') (hk : db.workspace t' k = none) :
    Frame t' db (db.hold t k r) :=
  ⟨workspace_hold_other hne hk, rfl, fun _ => Nat.le_refl _, fun _ r h => ⟨r, h⟩⟩

end Hold

end Database

end ReadCommitted
