import Marketplace.ReadCommitted.Writes

/-!
What is known of a client's transaction at every point of its program: the rows it holds, those among
them that it has inserted, how far the sequences are, the ids it has drawn for rows to come, and of the
rows it sees a label that no update changes.
-/

namespace ReadCommitted

open Concurrent

variable {T Q K L X Ext : Type} {R : K → Type} {ExtRes : Ext → Type} {E α β : Type}

structure Phase (Q K L : Type) where
  held : K → Prop
  inserted : K → Prop
  drawn : Q → ℕ
  known : K → L → Prop
  seen : K → L → Prop
  -- the keys of drawn ids that no row has taken yet
  fresh : K → Prop

def Database.Holds (db : Database T Q K R) (t : T) (k : K) : Prop := ∃ r, db.held k = some (t, r)

namespace Phase

def start : Phase Q K L :=
  ⟨fun _ => False, fun _ => False, fun _ => 0, fun _ _ => False, fun _ _ => False, fun _ => False⟩

def release (z : Phase Q K L) : Phase Q K L :=
  { z with held := fun _ => False, inserted := fun _ => False, known := fun _ _ => False, seen := fun _ _ => False }

def take (z : Phase Q K L) (k : K) (l : L) : Phase Q K L :=
  { z with held := fun j => j = k ∨ z.held j, known := fun j l' => j = k ∧ l' = l ∨ z.known j l' }

def insert (z : Phase Q K L) (k : K) (l : L) : Phase Q K L :=
  { z.take k l with inserted := fun j => j = k ∨ z.inserted j, fresh := fun j => j ≠ k ∧ z.fresh j }

-- `ids` are the keys of the rows whose ids come from a sequence
def draw [DecidableEq Q] (ids : Q → ℕ → Option K) (z : Phase Q K L) (q : Q) (n : ℕ) : Phase Q K L :=
  { z with drawn := Function.update z.drawn q (n + 1), fresh := fun k => ids q n = some k ∨ z.fresh k }

variable (label : (k : K) → R k → L)

def Shown (view : Snapshot Q K R) (k : K) (l : L) : Prop := ∃ r, view.row k = some r ∧ label k r = l

def see (z : Phase Q K L) (view : Snapshot Q K R) : Phase Q K L :=
  { z with known := fun k l => Shown label view k l ∨ z.known k l, seen := Shown label view }

/-- An update writes a row that is held and keeps its label. -/
def Keeps (z : Phase Q K L) : Action Q K R Ext → Prop
  | .sql (.put k r) => z.held k ∧ z.known k (label k r)
  | _ => True

structure Tracks (z : Phase Q K L) [DecidableEq T] (t : T) (db : Database T Q K R) : Prop where
  held : ∀ k, z.held k ↔ db.Holds t k
  inserted : ∀ k, z.held k → db.committed k = none → z.inserted k
  drawn : ∀ q, z.drawn q ≤ db.seq q
  known : ∀ k l, z.known k l → ∃ r, db.visible t k = some r ∧ label k r = l

end Phase

/-- What is asked of a client, depending on the phase it is in and on the rows that its statement has
still to lock, and what is known of the views that the client gets. -/
structure Policy (Q K : Type) (R : K → Type) (Ext L : Type) where
  label : (k : K) → R k → L
  ids : Q → ℕ → Option K
  views : Phase Q K L → Snapshot Q K R → Prop
  allows : Phase Q K L → Action Q K R Ext → (K → Prop) → Prop
  mono : ∀ {z a A B}, (∀ k, A k → B k) → allows z a A → allows z a B

namespace Policy

abbrev of (label : (k : K) → R k → L) (asks : Phase Q K L → Action Q K R Ext → Prop) : Policy Q K R Ext L where
  label := label
  ids _ _ := none
  views _ _ := True
  allows z a _ := asks z a
  mono _ h := h

variable (S : Policy Q K R Ext L)

def Permits (z : Phase Q K L) (a : Action Q K R Ext) : Prop := S.allows z a fun _ => False

def After [DecidableEq Q] (z : Phase Q K L) : (a : Action Q K R Ext) → Except E (a.Res ExtRes) → Phase Q K L → Prop
  | .sql .statement, .ok view, z' =>
    z' = z.see S.label view ∧ (∀ k l, z.known k l → Phase.Shown S.label view k l) ∧ S.views z view
  | .sql (.lock k), .ok (some r), z' => z' = z.take k (S.label k r)
  | .sql (.lock k), .ok none, z' => z' = z ∧ ∀ l, ¬z.known k l
  | .sql (.tryLock k), .ok (some r), z' => z' = z.take k (S.label k r)
  | .sql (.reserve k r), .ok true, z' => z' = z.insert k (S.label k r)
  | .sql (.nextval q), .ok n, z' => z.drawn q ≤ n ∧ z' = z.draw S.ids q n
  | .sql .commit, _, z' => z' = z ∨ z' = z.release
  | .sql .rollback, _, z' => z' = z ∨ z' = z.release
  | _, _, z' => z' = z

end Policy

/-- The rows that a statement has still to lock, one after the other, where none of them is gone. -/
def locksAhead : Client Q K R ExtRes E α → List K
  | .call (.sql (.lock k)) next => k :: locksAhead (next (.ok none))
  | _ => []

theorem locksAhead_bind {p : Client Q K R ExtRes E α} {f : α → Client Q K R ExtRes E β} {k : K}
    (hk : k ∈ locksAhead p) : k ∈ locksAhead (p.bind f) := by
  induction p with
  | done r => cases hk
  | call a next ih =>
    cases a with
    | ext o => cases hk
    | sql o =>
      cases o with
      | lock j => exact List.mem_cons.mpr ((List.mem_cons.mp hk).imp_right (ih _))
      | _ => cases hk

theorem locksAhead_handle {p : Client Q K R ExtRes E α} {h : E → Client Q K R ExtRes E α} {k : K}
    (hk : k ∈ locksAhead p) : k ∈ locksAhead (p.handle h) := by
  induction p with
  | done r => cases hk
  | call a next ih =>
    cases a with
    | ext o => cases hk
    | sql o =>
      cases o with
      | lock j => exact List.mem_cons.mpr ((List.mem_cons.mp hk).imp_right (ih _))
      | _ => cases hk

/-- From the phase `z` on the program does, whatever the operations answer, only what the policy allows, and
it ends with `G`. -/
def Follows [DecidableEq Q] (S : Policy Q K R Ext L) (G : Except E α → Phase Q K L → Prop) :
    Phase Q K L → Client Q K R ExtRes E α → Prop
  | z, .done r => G r z
  | z, .call a next => S.allows z a (· ∈ locksAhead (Prog.call a next)) ∧ z.Keeps S.label a ∧
      ∀ r z', S.After z a r z' → Follows S G z' (next r)

section Rows

variable [DecidableEq T] {label : (k : K) → R k → L} {db db' : Database T Q K R} {t t' : T} {z : Phase Q K L}

def LabelsKept (label : (k : K) → R k → L) (db : Database T Q K R) : Prop :=
  ∀ k t r old, db.held k = some (t, r) → db.committed k = some old → label k r = label k old

def SameLabels (label : (k : K) → R k → L) (db db' : Database T Q K R) : Prop :=
  ∀ k r, db.committed k = some r → ∃ r', db'.committed k = some r' ∧ label k r' = label k r

omit [DecidableEq T] in
theorem SameLabels.of_eq (h : db'.committed = db.committed) : SameLabels label db db' :=
  fun k r hk => ⟨r, by rw [h]; exact hk, rfl⟩

theorem LabelsKept.commit (h : LabelsKept label db) (t : T) :
    LabelsKept label (db.commit t) ∧ SameLabels label db (db.commit t) := by
  unfold Database.commit
  split
  · refine ⟨fun k u r old hh hc => ?_, fun k r hc => ?_⟩
    · obtain ⟨hh, hne⟩ := Database.release_eq_some.mp hh
      exact h k u r old hh ((Database.visible_of_held_other hh hne).symm.trans hc)
    · cases hw : db.workspace t k with
      | none => exact ⟨r, (Database.visible_of_none hw).trans hc, rfl⟩
      | some ch => exact ⟨ch.new, Database.visible_of_workspace hw, h k t _ r (Database.held_of_workspace hw) hc⟩
  · exact ⟨h, .of_eq rfl⟩

theorem LabelsKept.rollback (h : LabelsKept label db) (t : T) : LabelsKept label (db.rollback t) := by
  unfold Database.rollback
  split
  · exact fun k u r old hh hc => h k u r old (Database.release_eq_some.mp hh).1 hc
  · exact h

omit [DecidableEq T] in
theorem LabelsKept.hold [DecidableEq K] (h : LabelsKept label db) {k : K} {r : R k}
    (hr : ∀ old, db.committed k = some old → label k r = label k old) : LabelsKept label (db.hold t k r) := by
  intro j u x old hh hc
  by_cases hj : j = k
  · subst hj
    simp only [Database.hold, Function.update_self, Option.some.injEq, Prod.mk.injEq] at hh
    obtain ⟨-, rfl⟩ := hh
    exact hr old hc
  · simp only [Database.hold, Function.update_of_ne hj] at hh
    exact h j u x old hh hc

theorem Database.Holds.workspace {k : K} (h : db.Holds t k) : ∃ r, db.workspace t k = some ⟨db.committed k, r⟩ := by
  obtain ⟨r, hr⟩ := h
  exact ⟨r, workspace_of_held hr⟩

theorem Database.holds_iff {k : K} : db.Holds t k ↔ ∃ ch, db.workspace t k = some ch := by
  constructor
  · intro h
    obtain ⟨r, hr⟩ := h.workspace
    exact ⟨_, hr⟩
  · rintro ⟨ch, hch⟩
    exact ⟨_, held_of_workspace hch⟩

namespace Phase.Tracks

theorem frame (h : z.Tracks label t db) (hframe : db.Frame t db') (hsame : SameLabels label db db') :
    z.Tracks label t db' := by
  have hholds (k : K) : db'.Holds t k ↔ db.Holds t k := by
    rw [Database.holds_iff, Database.holds_iff, hframe.workspace]
  refine ⟨fun k => (h.held k).trans (hholds k).symm, fun k hk hnone => ?_, fun q => (h.drawn q).trans (hframe.seq q),
    fun k l hk => ?_⟩
  · obtain ⟨r, hr⟩ := ((h.held k).mp hk).workspace
    rw [← hframe.workspace] at hr
    exact h.inserted k hk ((Database.committed_of_workspace hr).symm.trans hnone)
  · obtain ⟨r, hr, hl⟩ := h.known k l hk
    cases hw : db.workspace t k with
    | none =>
      obtain ⟨r', hr', hl'⟩ := hsame k r ((Database.visible_of_none hw).symm.trans hr)
      have hw' : db'.workspace t k = none := by rw [hframe.workspace, hw]
      exact ⟨r', (Database.visible_of_none hw').trans hr', hl'.trans hl⟩
    | some ch =>
      have hw' : db'.workspace t k = some ch := by rw [hframe.workspace, hw]
      rw [Database.visible_of_workspace hw] at hr
      exact ⟨r, by rw [Database.visible_of_workspace hw', hr], hl⟩

theorem start (h : db.Quiescent) : (Phase.start : Phase Q K L).Tracks label t db := by
  refine ⟨fun k => ⟨False.elim, ?_⟩, fun _ hk => hk.elim, fun _ => Nat.zero_le _, fun _ _ hk => hk.elim⟩
  rintro ⟨r, hr⟩
  rw [h.held k] at hr
  cases hr

theorem setTxn (h : z.Tracks label t db) {u : T} {x : Txn} : z.Tracks label t (db.setTxn u x) :=
  ⟨h.held, h.inserted, h.drawn, h.known⟩

theorem released (h : z.Tracks label t db) {committed : (k : K) → Option (R k)} {txn : T → Txn} :
    z.release.Tracks label t ⟨committed, db.release t, db.seq, txn⟩ := by
  refine ⟨fun k => ⟨False.elim, ?_⟩, fun _ hk => hk.elim, h.drawn, fun _ _ hk => hk.elim⟩
  rintro ⟨r, hr⟩
  exact (Database.release_eq_some.mp hr).2 rfl

theorem commit (h : z.Tracks label t db) : ∃ z', (z' = z ∨ z' = z.release) ∧ z'.Tracks label t (db.commit t) := by
  unfold Database.commit
  split
  · exact ⟨_, .inr rfl, h.released⟩
  · exact ⟨z, .inl rfl, h⟩

theorem rollback (h : z.Tracks label t db) : ∃ z', (z' = z ∨ z' = z.release) ∧ z'.Tracks label t (db.rollback t) := by
  unfold Database.rollback
  split
  · exact ⟨_, .inr rfl, h.released⟩
  · exact ⟨z, .inl rfl, h⟩

variable [DecidableEq K]

theorem visible_hold {k j : K} {r : R k} (hj : j ≠ k) : (db.hold t k r).visible t j = db.visible t j := by
  simp [Database.visible, Database.hold, hj]

theorem visible_hold_self {k : K} {r : R k} : (db.hold t k r).visible t k = some r := by
  simp [Database.visible, Database.hold]

omit [DecidableEq T] in
theorem holds_hold {k j : K} {r : R k} : (db.hold t k r).Holds t j ↔ j = k ∨ db.Holds t j := by
  by_cases hj : j = k
  · subst hj
    simp [Database.Holds, Database.hold]
  · simp [Database.Holds, Database.hold, hj]

theorem hold (h : z.Tracks label t db) {k : K} {r : R k} (hl : ∀ l, z.known k l → l = label k r)
    (hold : (db.committed k).isSome) : (z.take k (label k r)).Tracks label t (db.hold t k r) := by
  refine ⟨fun j => ?_, fun j hj hnone => ?_, h.drawn, fun j l hj => ?_⟩
  · rw [holds_hold, ← h.held]
    rfl
  · rcases hj with rfl | hj
    · rw [Database.committed_hold] at hnone
      rw [hnone] at hold
      cases hold
    · exact h.inserted j hj hnone
  · by_cases hjk : j = k
    · subst hjk
      refine ⟨r, visible_hold_self, ?_⟩
      rcases hj with ⟨-, rfl⟩ | hj
      · rfl
      · exact (hl l hj).symm
    · rcases hj with ⟨heq, -⟩ | hj
      · exact absurd heq hjk
      · rw [visible_hold hjk]
        exact h.known j l hj

omit [DecidableEq K] in
theorem again (h : z.Tracks label t db) {k : K} {ch : Change (R k)} (hw : db.workspace t k = some ch) :
    (z.take k (label k ch.new)).Tracks label t db := by
  have hholds : db.Holds t k := Database.holds_iff.mpr ⟨ch, hw⟩
  refine ⟨fun j => ?_, fun j hj hnone => ?_, h.drawn, fun j l hj => ?_⟩
  · rw [← h.held]
    constructor
    · rintro (rfl | hj)
      · exact (h.held j).mpr hholds
      · exact hj
    · exact .inr
  · rcases hj with rfl | hj
    · exact h.inserted j ((h.held j).mpr hholds) hnone
    · exact h.inserted j hj hnone
  · rcases hj with ⟨rfl, rfl⟩ | hj
    · exact ⟨ch.new, Database.visible_of_workspace hw, rfl⟩
    · exact h.known j l hj

theorem locks (h : z.Tracks label t db) (hl : LabelsKept label db) {k : K} {r : Option (R k)}
    (hlocks : db.Locks t k r db') :
    (match r with
      | some r => (z.take k (label k r)).Tracks label t db'
      | none => z.Tracks label t db') ∧ LabelsKept label db' ∧ db'.committed = db.committed := by
  cases hlocks with
  | again hw => exact ⟨h.again hw, hl, rfl⟩
  | missing hw => exact ⟨h, hl, rfl⟩
  | @taken r hh hc =>
    refine ⟨h.hold (fun l hk => ?_) (by rw [hc]; rfl), hl.hold fun old hold => ?_, rfl⟩
    · obtain ⟨r', hr', rfl⟩ := h.known k l hk
      rw [Database.visible_of_none (Database.workspace_none_of_free hh), hc] at hr'
      cases hr'
      rfl
    · rw [hc] at hold
      cases hold
      rfl

theorem put (h : z.Tracks label t db) (hl : LabelsKept label db) {k : K} {r : R k} (hk : z.held k)
    (hr : z.known k (label k r)) : z.Tracks label t (db.hold t k r) ∧ LabelsKept label (db.hold t k r) := by
  obtain ⟨r', hr'⟩ := ((h.held k).mp hk).workspace
  obtain ⟨x, hx, hxl⟩ := h.known k _ hr
  rw [Database.visible_of_workspace hr'] at hx
  cases hx
  refine ⟨⟨fun j => ?_, h.inserted, h.drawn, fun j l hj => ?_⟩, hl.hold fun old hold => ?_⟩
  · rw [holds_hold, h.held]
    constructor
    · exact .inr
    · rintro (rfl | hj)
      · exact (h.held j).mp hk
      · exact hj
  · obtain ⟨y, hy, hyl⟩ := h.known j l hj
    by_cases hjk : j = k
    · subst hjk
      rw [Database.visible_of_workspace hr'] at hy
      cases hy
      exact ⟨r, visible_hold_self, hxl.symm.trans hyl⟩
    · rw [visible_hold hjk]
      exact ⟨y, hy, hyl⟩
  · exact hxl.symm.trans (hl k t r' old (Database.held_of_workspace hr') hold)

theorem reserve (h : z.Tracks label t db) {k : K} {r : R k} (hh : db.held k = none) (hc : db.committed k = none) :
    (z.insert k (label k r)).Tracks label t (db.hold t k r) := by
  refine ⟨fun j => ?_, fun j hj hnone => ?_, h.drawn, fun j l hj => ?_⟩
  · rw [holds_hold, ← h.held]
    rfl
  · rcases hj with rfl | hj
    · exact .inl rfl
    · exact .inr (h.inserted j hj hnone)
  · rcases hj with ⟨rfl, rfl⟩ | hj
    · exact ⟨r, visible_hold_self, rfl⟩
    · obtain ⟨x, hx, hxl⟩ := h.known j l hj
      have hjk : j ≠ k := by
        rintro rfl
        rw [Database.visible_of_none (Database.workspace_none_of_free hh), hc] at hx
        cases hx
      rw [visible_hold hjk]
      exact ⟨x, hx, hxl⟩

variable [DecidableEq Q]

theorem exec {S : Policy Q K R Ext L} (h : z.Tracks S.label t db) (hl : LabelsKept S.label db) {o : Stmt Q K R}
    {r : o.Res} (ha : z.Keeps S.label (.sql o : Action Q K R Ext)) (hview : S.views z (db.snapshot t))
    (hx : db.exec t o = some (r, db')) :
    (∃ z', S.After z (.sql o : Action Q K R Ext) (.ok r : Except E ((.sql o : Action Q K R Ext).Res ExtRes)) z' ∧
      z'.Tracks S.label t db') ∧ LabelsKept S.label db' ∧ SameLabels S.label db db' := by
  cases o with
  | begin =>
    cases hx
    exact ⟨⟨z, rfl, h.setTxn⟩, hl, .of_eq rfl⟩
  | statement =>
    cases hx
    refine ⟨⟨z.see S.label (db.snapshot t), ⟨rfl, h.known, hview⟩, h.held, h.inserted, h.drawn, fun k l hk => ?_⟩, hl,
      .of_eq rfl⟩
    rcases hk with ⟨r, hr, hrl⟩ | hk
    · exact ⟨r, hr, hrl⟩
    · exact h.known k l hk
  | lock k =>
    obtain ⟨htracks, hl', hc⟩ := h.locks hl (Database.locks_of_lock hx)
    cases r with
    | none =>
      refine ⟨⟨z, ⟨rfl, fun l hk => ?_⟩, htracks⟩, hl', .of_eq hc⟩
      obtain ⟨r, hr, -⟩ := h.known k l hk
      cases Database.locks_of_lock hx with
      | missing hw =>
        rw [Database.visible_of_none hw, Database.committed_of_lock_none hx] at hr
        cases hr
    | some r => exact ⟨⟨_, rfl, htracks⟩, hl', .of_eq hc⟩
  | tryLock k =>
    obtain ⟨htracks, hl', hc⟩ := h.locks hl (Database.locks_of_tryLock hx)
    cases r with
    | none => exact ⟨⟨z, rfl, htracks⟩, hl', .of_eq hc⟩
    | some r => exact ⟨⟨_, rfl, htracks⟩, hl', .of_eq hc⟩
  | put k x =>
    obtain ⟨-, rfl⟩ := Database.put_eq hx
    obtain ⟨htracks, hl'⟩ := h.put hl ha.1 ha.2
    exact ⟨⟨z, rfl, htracks⟩, hl', .of_eq rfl⟩
  | reserve k x =>
    rcases Database.reserve_eq hx with ⟨rfl, rfl, -⟩ | ⟨rfl, rfl, hh, hc⟩
    · exact ⟨⟨z, rfl, h⟩, hl, .of_eq rfl⟩
    · refine ⟨⟨_, rfl, h.reserve hh hc⟩, hl.hold fun old hold => ?_, .of_eq rfl⟩
      rw [hc] at hold
      cases hold
  | nextval q =>
    cases hx
    refine ⟨⟨z.draw S.ids q (db.seq q), ⟨h.drawn q, rfl⟩, h.held, h.inserted, fun q' => ?_, h.known⟩, hl, .of_eq rfl⟩
    by_cases hq : q' = q
    · subst hq
      simp [Phase.draw]
    · simp only [Phase.draw, Function.update_of_ne hq]
      exact h.drawn q'
  | commit =>
    cases hx
    obtain ⟨z', hz, htracks⟩ := h.commit
    exact ⟨⟨z', hz, htracks⟩, hl.commit t⟩
  | rollback =>
    cases hx
    obtain ⟨z', hz, htracks⟩ := h.rollback
    exact ⟨⟨z', hz, htracks⟩, hl.rollback t, .of_eq Database.committed_rollback⟩

end Phase.Tracks

end Rows

section Runs

variable [DecidableEq T] [DecidableEq Q] [DecidableEq K] {S : Policy Q K R Ext L}
  {G : Except E α → Phase Q K L → Prop} {M : Machine T X Ext ExtRes E} {e : E}

theorem Phase.Tracks.performs {z : Phase Q K L} {t : T} {a : Action Q K R Ext} {w w' : World T Q K R X}
    {r : Except E (a.Res ExtRes)} (h : z.Tracks S.label t w.db) (hl : LabelsKept S.label w.db) (ha : z.Keeps S.label a)
    (hview : S.views z (w.db.snapshot t)) (hp : Performs M e t a w r w') :
    (∃ z', S.After z a r z' ∧ z'.Tracks S.label t w'.db) ∧ LabelsKept S.label w'.db ∧
      SameLabels S.label w.db w'.db := by
  cases hp with
  | answer hx => exact h.exec hl ha hview hx
  | @refuse w o ho =>
    refine ⟨⟨z, ?_, h⟩, hl, .of_eq rfl⟩
    cases o <;> first | rfl | exact .inl rfl
  | lostCommit =>
    obtain ⟨z', hz, htracks⟩ := h.commit
    exact ⟨⟨z', hz, htracks⟩, hl.commit t⟩
  | lostRollback =>
    obtain ⟨z', hz, htracks⟩ := h.rollback
    exact ⟨⟨z', hz, htracks⟩, hl.rollback t, .of_eq Database.committed_rollback⟩
  | ext hx => exact ⟨⟨z, rfl, h⟩, hl, .of_eq rfl⟩

namespace Phase

/-- All that `z` has seen, but for the rows inserted by itself, `z'` has seen as well. -/
def Within (z z' : Phase Q K L) : Prop := ∀ k l, z.seen k l → ¬z.inserted k → z'.seen k l

structure Older (z z' : Phase Q K L) : Prop where
  seen : ∀ k l, z'.seen k l → z.seen k l
  inserted : ∀ k l, z'.seen k l → z.inserted k → z'.inserted k
  all : (∀ k l, ¬z'.seen k l) ∨ ∀ k l, z.seen k l → z'.seen k l

omit [DecidableEq T] [DecidableEq Q] [DecidableEq K]

variable {z z' y : Phase Q K L}

theorem Older.of_eq (hseen : z'.seen = z.seen) (hinserted : ∀ k, z.inserted k → z'.inserted k) : z.Older z' := by
  refine ⟨fun k l h => ?_, fun k l _ => hinserted k, .inr fun k l h => ?_⟩
  · rw [← hseen]
    exact h
  · rw [hseen]
    exact h

theorem Older.release : z.Older z.release := ⟨fun _ _ h => h.elim, fun _ _ h => h.elim, .inl fun _ _ h => h⟩

theorem Older.within (h : z.Older z') (hy : z.Within y ∨ y.Within z) : z'.Within y ∨ y.Within z' := by
  rcases hy with hy | hy
  · exact .inl fun k l hk hnot => hy k l (h.seen k l hk) fun hi => hnot (h.inserted k l hk hi)
  · rcases h.all with hnone | hall
    · exact .inl fun k l hk => absurd hk (hnone k l)
    · exact .inr fun k l hk hnot => hall k l (hy k l hk hnot)

end Phase

omit [DecidableEq T] [DecidableEq K] in
theorem Policy.After.older {z z' : Phase Q K L} {a : Action Q K R Ext} {r : Except E (a.Res ExtRes)}
    (h : S.After z a r z') (ha : a ≠ .sql .statement) : z.Older z' := by
  have hsame : z' = z → z.Older z' := by
    rintro rfl
    exact .of_eq rfl fun _ h => h
  have hended : z' = z ∨ z' = z.release → z.Older z' := by
    rintro (rfl | rfl)
    · exact hsame rfl
    · exact .release
  cases a with
  | ext o => exact hsame h
  | sql o =>
    cases o with
    | statement => exact absurd rfl ha
    | begin => exact hsame h
    | put k x => exact hsame h
    | commit => exact hended h
    | rollback => exact hended h
    | lock k =>
      rcases r with e | _ | x
      · exact hsame h
      · exact hsame h.1
      · exact h ▸ .of_eq rfl fun _ h => h
    | tryLock k =>
      rcases r with e | _ | x
      · exact hsame h
      · exact hsame h
      · exact h ▸ .of_eq rfl fun _ h => h
    | reserve k x =>
      rcases r with e | _ | _
      · exact hsame h
      · exact hsame h
      · exact h ▸ .of_eq rfl fun _ => .inr
    | nextval q =>
      cases r with
      | error e => exact hsame h
      | ok n => exact h.2 ▸ .of_eq rfl fun _ h => h

/-- Every client is in its phase, and of two clients' views the later one shows all that the other does. -/
structure Phased (S : Policy Q K R Ext L) (db : Database T Q K R) (z : T → Phase Q K L) : Prop where
  labels : LabelsKept S.label db
  tracks : ∀ t, (z t).Tracks S.label t db
  seen : ∀ t k l, (z t).seen k l → ¬(z t).inserted k → ∃ r, db.committed k = some r ∧ S.label k r = l
  nested : ∀ t u, (z t).Within (z u) ∨ (z u).Within (z t)

namespace Phased

variable {db db' : Database T Q K R} {z : T → Phase Q K L} {t : T} {z' : Phase Q K L}

omit [DecidableEq Q] [DecidableEq K] in
theorem start (h : db.Quiescent) : Phased S db fun _ => .start where
  labels k t r old hh _ := by
    rw [h.held k] at hh
    cases hh
  tracks _ := .start h
  seen _ _ _ h := h.elim
  nested _ _ := .inl fun _ _ h => h.elim

omit [DecidableEq Q] [DecidableEq K] in
theorem update (h : Phased S db z) (htracks : z'.Tracks S.label t db') (hframe : ∀ u, t ≠ u → db.Frame u db')
    (hl : LabelsKept S.label db') (hsame : SameLabels S.label db db')
    (hseen : ∀ k l, z'.seen k l → ¬z'.inserted k → ∃ r, db.committed k = some r ∧ S.label k r = l)
    (hnested : ∀ u, z'.Within (z u) ∨ (z u).Within z') : Phased S db' (Function.update z t z') := by
  have hkept {k : K} {l : L} (hk : ∃ r, db.committed k = some r ∧ S.label k r = l) :
      ∃ r, db'.committed k = some r ∧ S.label k r = l := by
    obtain ⟨r, hr, rfl⟩ := hk
    exact hsame k r hr
  refine ⟨hl, fun u => ?_, fun u k l => ?_, fun u v => ?_⟩
  · by_cases hu : t = u
    · subst hu
      rw [Function.update_self]
      exact htracks
    · rw [Function.update_of_ne (Ne.symm hu)]
      exact (h.tracks u).frame (hframe u hu) hsame
  · by_cases hu : t = u
    · subst hu
      rw [Function.update_self]
      exact fun hk hnot => hkept (hseen k l hk hnot)
    · rw [Function.update_of_ne (Ne.symm hu)]
      exact fun hk hnot => hkept (h.seen u k l hk hnot)
  · by_cases hu : t = u
    · by_cases hv : t = v
      · subst hu hv
        exact .inl fun _ _ h _ => h
      · subst hu
        rw [Function.update_self, Function.update_of_ne (Ne.symm hv)]
        exact hnested v
    · rw [Function.update_of_ne (Ne.symm hu)]
      by_cases hv : t = v
      · subst hv
        rw [Function.update_self]
        exact (hnested u).symm
      · rw [Function.update_of_ne (Ne.symm hv)]
        exact h.nested u v

omit [DecidableEq Q] [DecidableEq K] in
theorem older (h : Phased S db z) (hz : (z t).Older z') :
    (∀ k l, z'.seen k l → ¬z'.inserted k → ∃ r, db.committed k = some r ∧ S.label k r = l) ∧
      ∀ u, z'.Within (z u) ∨ (z u).Within z' := by
  constructor
  · exact fun k l hk hnot => h.seen t k l (hz.seen k l hk) fun hi => hnot (hz.inserted k l hk hi)
  · exact fun u => hz.within (h.nested t u)

omit [DecidableEq Q] [DecidableEq K] in
theorem view (h : Phased S db z) (t : T) :
    (∀ k l, Phase.Shown S.label (db.snapshot t) k l → ¬(z t).inserted k →
      ∃ r, db.committed k = some r ∧ S.label k r = l) ∧
      ∀ u, (z u).Within ((z t).see S.label (db.snapshot t)) := by
  have hlabel {k : K} {r : R k} {old : R k} (hr : db.visible t k = some r) (hold : db.committed k = some old) :
      S.label k r = S.label k old := by
    cases hw : db.workspace t k with
    | none =>
      rw [Database.visible_of_none hw, hold] at hr
      cases hr
      rfl
    | some ch =>
      rw [Database.visible_of_workspace hw] at hr
      cases hr
      exact h.labels k t _ old (Database.held_of_workspace hw) hold
  constructor
  · rintro k l ⟨r, hr, rfl⟩ hnot
    cases hc : db.committed k with
    | some old => exact ⟨old, rfl, (hlabel hr hc).symm⟩
    | none =>
      cases hw : db.workspace t k with
      | none =>
        have hvisible : db.visible t k = some r := hr
        rw [Database.visible_of_none hw, hc] at hvisible
        cases hvisible
      | some ch =>
        have hheld := ((h.tracks t).held k).mpr (Database.holds_iff.mpr ⟨ch, hw⟩)
        exact absurd ((h.tracks t).inserted k hheld hc) hnot
  · intro u k l hk hnot
    obtain ⟨old, hold, rfl⟩ := h.seen u k l hk hnot
    obtain ⟨r, hr⟩ : ∃ r, db.visible t k = some r := by
      cases hw : db.workspace t k with
      | none => exact ⟨old, (Database.visible_of_none hw).trans hold⟩
      | some ch => exact ⟨ch.new, Database.visible_of_workspace hw⟩
    exact ⟨r, hr, hlabel hr hold⟩

theorem performs {a : Action Q K R Ext} {w w' : World T Q K R X} {r : Except E (a.Res ExtRes)} (h : Phased S w.db z)
    (ha : (z t).Keeps S.label a) (hview : S.views (z t) (w.db.snapshot t)) (hp : Performs M e t a w r w') :
    ∃ z', S.After (z t) a r z' ∧ Phased S w'.db (Function.update z t z') := by
  obtain ⟨⟨z', hafter, htracks⟩, hl, hsame⟩ := (h.tracks t).performs h.labels ha hview hp
  suffices hseen : (∀ k l, z'.seen k l → ¬z'.inserted k → ∃ r, w.db.committed k = some r ∧ S.label k r = l) ∧
      ∀ u, z'.Within (z u) ∨ (z u).Within z' from
    ⟨z', hafter, h.update htracks (fun u hu => (hp.frame hu).db) hl hsame hseen.1 hseen.2⟩
  by_cases hstatement : a = .sql .statement
  · subst hstatement
    cases hp with
    | answer hx =>
      cases hx
      obtain ⟨rfl, -, -⟩ := hafter
      obtain ⟨hcommitted, hwithin⟩ := h.view t
      exact ⟨hcommitted, fun u => .inr (hwithin u)⟩
    | refuse _ =>
      obtain rfl : z' = z t := hafter
      exact h.older (.of_eq rfl fun _ h => h)
  · exact h.older (hafter.older hstatement)

omit [DecidableEq Q] [DecidableEq K] in
theorem crash (h : Phased S db z) (t : T) : ∃ z', (z' = z t ∨ z' = (z t).release) ∧
    Phased S (db.rollback t) (Function.update z t z') := by
  obtain ⟨z', hz, htracks⟩ := (h.tracks t).rollback
  have holder : (z t).Older z' := by
    rcases hz with rfl | rfl
    · exact .of_eq rfl fun _ h => h
    · exact .release
  obtain ⟨hseen, hnested⟩ := h.older holder
  exact ⟨z', hz, h.update htracks (fun u hu => Database.frame_rollback hu) (h.labels.rollback t)
    (.of_eq Database.committed_rollback) hseen hnested⟩

end Phased

end Runs

end ReadCommitted
