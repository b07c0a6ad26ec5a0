import Marketplace.ReadCommitted.Database

namespace ReadCommitted

inductive Stmt (Q K : Type) (R : K → Type)
  | begin
  | statement
  | lock (k : K)
  | tryLock (k : K)
  | put (k : K) (r : R k)
  | reserve (k : K) (r : R k)
  | nextval (q : Q)
  | commit
  | rollback

variable {T Q K : Type} {R : K → Type}

/-- What a row operation answers: `lock` and `tryLock` the latest version of the row, `reserve`
whether the row was inserted. -/
abbrev Stmt.Res : Stmt Q K R → Type
  | .statement => Snapshot Q K R
  | .lock k => Option (R k)
  | .tryLock k => Option (R k)
  | .reserve _ _ => Bool
  | .nextval _ => ℕ
  | _ => Unit

namespace Database

variable [DecidableEq T] [DecidableEq Q] [DecidableEq K] {db db' : Database T Q K R} {t t' : T} {k : K}

/-- Run one row operation of `t`; `none` is an operation that has to wait. -/
def exec (db : Database T Q K R) (t : T) : (o : Stmt Q K R) → Option (o.Res × Database T Q K R)
  | .begin => some ((), db.setTxn t ⟨.inProgress, 0⟩)
  | .statement => some (db.snapshot t, db.setTxn t ⟨(db.txn t).status, (db.txn t).command + 1⟩)
  | .lock k =>
    match db.held k with
    | some (t', r) =>
      if t' = t then some (some r, db)
      else if (db.committed k).isSome then none else some (none, db)
    | none =>
      match db.committed k with
      | some r => some (some r, db.hold t k r)
      | none => some (none, db)
  | .tryLock k =>
    match db.held k with
    | some (t', r) => if t' = t then some (some r, db) else some (none, db)
    | none =>
      match db.committed k with
      | some r => some (some r, db.hold t k r)
      | none => some (none, db)
  | .put k r =>
    match db.held k with
    | some (t', _) => if t' = t then some ((), db.hold t k r) else none
    | none => none
  | .reserve k r =>
    match db.held k with
    | some (t', _) => if t' = t ∨ (db.committed k).isSome then some (false, db) else none
    | none =>
      match db.committed k with
      | some _ => some (false, db)
      | none => some (true, db.hold t k r)
  | .nextval q => some (db.seq q, { db with seq := Function.update db.seq q (db.seq q + 1) })
  | .commit => some ((), db.commit t)
  | .rollback => some ((), db.rollback t)

inductive Locks (db : Database T Q K R) (t : T) (k : K) : Option (R k) → Database T Q K R → Prop
  | again {ch} (hw : db.workspace t k = some ch) : Locks db t k (some ch.new) db
  | missing (hw : db.workspace t k = none) : Locks db t k none db
  | taken {r} (hh : db.held k = none) (hc : db.committed k = some r) :
      Locks db t k (some r) (db.hold t k r)

theorem locks_of_lock {r : Option (R k)} (h : db.exec t (.lock k) = some (r, db')) :
    db.Locks t k r db' := by
  simp only [exec] at h
  split at h
  · rename_i t' x heq
    split_ifs at h with ht hc
    · cases h
      subst ht
      exact .again (workspace_of_held heq)
    · cases h
      exact .missing (workspace_none_of_other heq ht)
  · rename_i heq
    split at h
    · rename_i hc
      cases h
      exact .taken heq hc
    · cases h
      exact .missing (workspace_none_of_free heq)

theorem locks_of_tryLock {r : Option (R k)} (h : db.exec t (.tryLock k) = some (r, db')) :
    db.Locks t k r db' := by
  simp only [exec] at h
  split at h
  · rename_i t' x heq
    split_ifs at h with ht
    · cases h
      subst ht
      exact .again (workspace_of_held heq)
    · cases h
      exact .missing (workspace_none_of_other heq ht)
  · rename_i heq
    split at h
    · rename_i hc
      cases h
      exact .taken heq hc
    · cases h
      exact .missing (workspace_none_of_free heq)

theorem put_eq {r : R k} {u : Unit} (h : db.exec t (.put k r) = some (u, db')) :
    (∃ ch, db.workspace t k = some ch) ∧ db' = db.hold t k r := by
  simp only [exec] at h
  split at h
  · rename_i t' x heq
    split_ifs at h with ht
    cases h
    subst ht
    exact ⟨⟨_, workspace_of_held heq⟩, rfl⟩
  · cases h

theorem reserve_eq {r : R k} {b : Bool} (h : db.exec t (.reserve k r) = some (b, db')) :
    (b = false ∧ db' = db ∧ ((∃ ch, db.workspace t k = some ch) ∨ ∃ x, db.committed k = some x)) ∨
    (b = true ∧ db' = db.hold t k r ∧ db.held k = none ∧ db.committed k = none) := by
  simp only [exec] at h
  split at h
  · rename_i t' x heq
    split_ifs at h with ht
    cases h
    refine .inl ⟨rfl, rfl, ?_⟩
    rcases ht with rfl | hc
    · exact .inl ⟨_, workspace_of_held heq⟩
    · exact .inr (Option.isSome_iff_exists.mp hc)
  · rename_i heq
    split at h
    · rename_i x hc
      cases h
      exact .inl ⟨rfl, rfl, .inr ⟨x, hc⟩⟩
    · rename_i hc
      cases h
      exact .inr ⟨rfl, rfl, heq, hc⟩

theorem committed_of_lock_none (h : db.exec t (.lock k) = some (none, db')) :
    db.committed k = none := by
  simp only [exec] at h
  split at h
  · rename_i t' x heq
    split_ifs at h with ht hc
    · cases h
    · exact Option.not_isSome_iff_eq_none.mp hc
  · split at h
    · cases h
    · assumption

omit [DecidableEq Q] in
theorem Locks.frame {r : Option (R k)} (h : db.Locks t k r db') (hne : t ≠ t') : Frame t' db db' := by
  cases h with
  | again hw => exact .refl _ _
  | missing hw => exact .refl _ _
  | taken hh hc => exact frame_hold hne (workspace_none_of_free hh)

omit [DecidableEq K] in
theorem frame_nextval (q : Q) :
    Frame t db { db with seq := Function.update db.seq q (db.seq q + 1) } := by
  refine ⟨rfl, rfl, fun q' => ?_, fun _ r h => ⟨r, h⟩⟩
  by_cases hq : q' = q
  · subst hq; simp
  · simp [hq]

theorem exec_frame {o : Stmt Q K R} {r : o.Res} (h : db.exec t o = some (r, db')) (hne : t ≠ t') :
    Frame t' db db' := by
  cases o with
  | begin => cases h; exact frame_setTxn hne
  | statement => cases h; exact frame_setTxn hne
  | lock k => exact (locks_of_lock h).frame hne
  | tryLock k => exact (locks_of_tryLock h).frame hne
  | put k x =>
    obtain ⟨⟨ch, hw⟩, rfl⟩ := put_eq h
    exact frame_hold hne (workspace_none_of_other (held_of_workspace hw) hne)
  | reserve k x =>
    rcases reserve_eq h with ⟨-, rfl, -⟩ | ⟨-, rfl, hh, -⟩
    · exact .refl _ _
    · exact frame_hold hne (workspace_none_of_free hh)
  | nextval q => cases h; exact frame_nextval q
  | commit => cases h; exact frame_commit hne
  | rollback => cases h; exact frame_rollback hne

end Database

end ReadCommitted
