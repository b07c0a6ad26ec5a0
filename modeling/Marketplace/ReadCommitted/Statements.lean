import Marketplace.ReadCommitted.Rules

namespace ReadCommitted

open Concurrent

variable {T Q K X Ext : Type} {R : K → Type} {ExtRes : Ext → Type} {E : Type}

section Code

def selectForUpdate (k : K) : Client Q K R ExtRes E (Option (R k)) := do
  let view ← statement
  match view.row k with
  | none => pure none
  | some _ => lock k

-- `valid` stands for the column types and the CHECK constraints
def insertRow (e : E) (valid : (k : K) → R k → Bool) (k : K) (r : R k) : Client Q K R ExtRes E Bool :=
  if valid k r then reserve k r else throw e

def insertOrSkip (e : E) (valid : (k : K) → R k → Bool) (k : K) (r : R k) : Client Q K R ExtRes E Bool := do
  let _ ← statement
  insertRow e valid k r

-- a row with the same key is a unique violation
def insertOrFail (e : E) (valid : (k : K) → R k → Bool) (k : K) (r : R k) : Client Q K R ExtRes E Unit := do
  let inserted ← insertRow e valid k r
  if inserted then pure () else throw e

def insertWithId (e : E) (valid : (k : K) → R k → Bool) (q : Q) (key : ℕ → K) (row : (id : ℕ) → R (key id)) :
    Client Q K R ExtRes E ℕ := do
  let _ ← statement
  let id ← nextval q
  insertOrFail e valid (key id) (row id)
  pure id

/-- `UPDATE .. SET f WHERE key = k AND p`. The row is chosen by the version in the snapshot and,
once its lock is there, checked again on the latest one. -/
def updateWhere (e : E) (valid : (k : K) → R k → Bool) (k : K) (p : R k → Bool) (f : R k → R k) :
    Client Q K R ExtRes E (Option (R k)) := do
  let view ← statement
  match view.row k with
  | none => pure none
  | some seen =>
    if p seen then
      match ← lock k with
      | none => pure none
      | some latest =>
        if p latest then
          if valid k (f latest) then
            put k (f latest)
            pure (some (f latest))
          else throw e
        else pure none
    else pure none

/-- `UPDATE .. SET f WHERE key = k` of a SERIALIZABLE transaction. It reads the snapshot `view` of the
transaction's first statement and gives up with `conflict` when another has changed the row since. -/
def updateSerializable (e conflict : E) (valid : (k : K) → R k → Bool) (view : Snapshot Q K R)
    (k : K) [DecidableEq (R k)] (f : R k → R k) : Client Q K R ExtRes E (Option (R k)) := do
  let _ ← statement
  match view.row k with
  | none => pure none
  | some seen =>
    let latest ← lock k
    if latest = some seen then
      if valid k (f seen) then
        put k (f seen)
        pure (some (f seen))
      else throw e
    else throw conflict

/-- `INSERT .. ON CONFLICT DO UPDATE SET f`: the row is inserted, or the latest version of the one in its
place is locked and changed. -/
def insertOrUpdate (e : E) (valid : (k : K) → R k → Bool) (k : K) (r : R k) (f : R k → R k) :
    Client Q K R ExtRes E Unit := do
  let _ ← statement
  let inserted ← insertRow e valid k r
  if inserted then pure ()
  else
    match ← lock k with
    | none => throw e
    | some latest => if valid k (f latest) then put k (f latest) else throw e

-- a statement outside a transaction block commits by itself
def autocommit {α : Type} (body : Client Q K R ExtRes E α) : Client Q K R ExtRes E α := do
  begin
  tryCatch (do
    let result ← body
    commit
    pure result)
    (fun error => do
      tryCatch rollback (fun _ => pure ())
      throw error)

end Code

variable [DecidableEq T] [DecidableEq Q] [DecidableEq K]

def Workspace.set (ws : Workspace K R) (k : K) (ch : Change (R k)) : Workspace K R :=
  Function.update ws k (some ch)

def Workspace.onto (ws : Workspace K R) (base : (k : K) → Option (R k)) (k : K) : Option (R k) :=
  match ws k with
  | some ch => some ch.new
  | none => base k

structure At (t : T) (ws : Workspace K R) (c : ℕ) (w : World T Q K R X) : Prop where
  workspace : w.db.workspace t = ws
  txn : w.db.txn t = ⟨.inProgress, c⟩

variable {M : Machine T X Ext ExtRes E} {e : E}
  {A : T → (a : Action Q K R Ext) → World T Q K R X → Except E (a.Res ExtRes) → World T Q K R X → Prop}
  {C : T → World T Q K R X → World T Q K R X → Prop}

/-- An assertion that neither the others nor `t`'s own work before COMMIT can make false. -/
structure Kept (D : Discipline ((withDatabase (Q := Q) (R := R) M e).restrict A C)) (t : T)
    (F : World T Q K R X → Prop) : Prop where
  stable : D.Stable t F
  works : ∀ {w db}, D.inv w → F w → w.db.Works t db → F ⟨db, w.env⟩

variable {D : Discipline ((withDatabase (Q := Q) (R := R) M e).restrict A C)} {t : T}
  {ws : Workspace K R} {c : ℕ} {F : World T Q K R X → Prop} {Y : E → World T Q K R X → Prop}

section Workspaces

omit [DecidableEq T] [DecidableEq Q]

theorem Workspace.set_eq_self {k : K} {ch : Change (R k)} (h : ws k = some ch) : ws.set k ch = ws :=
  Function.update_eq_self_iff.mpr h.symm

@[simp] theorem Workspace.set_self {k : K} {ch : Change (R k)} : ws.set k ch k = some ch := by
  simp [set]

theorem Workspace.set_of_ne {j k : K} {ch : Change (R k)} (h : j ≠ k) : ws.set k ch j = ws j := by
  simp [set, h]

theorem Workspace.set_set {k : K} {ch ch' : Change (R k)} : (ws.set k ch).set k ch' = ws.set k ch' := by
  simp [set]

theorem Workspace.onto_set {k : K} {ch : Change (R k)} {base : (k : K) → Option (R k)} :
    (ws.set k ch).onto base = Function.update (ws.onto base) k (some ch.new) := by
  funext j
  by_cases hj : j = k
  · subst hj
    simp [onto, set]
  · simp [onto, set, hj]

omit [DecidableEq K] in
theorem Workspace.onto_of_some {k : K} {ch : Change (R k)} {base : (k : K) → Option (R k)}
    (h : ws k = some ch) : ws.onto base k = some ch.new := by
  simp [onto, h]

omit [DecidableEq K] in
theorem Workspace.onto_of_none {k : K} {base : (k : K) → Option (R k)} (h : ws k = none) :
    ws.onto base k = base k := by
  simp [onto, h]

end Workspaces

section Commits

omit [DecidableEq Q] [DecidableEq K]

variable {w : World T Q K R X}

theorem At.committed_commit (h : At t ws c w) : (w.db.commit t).committed = ws.onto w.db.committed := by
  rw [Database.committed_commit (by rw [h.txn])]
  funext k
  rw [← h.workspace]
  unfold Workspace.onto
  cases hk : w.db.workspace t k with
  | none => exact Database.visible_of_none hk
  | some ch => exact Database.visible_of_workspace hk

theorem At.committed_old (h : At t ws c w) {k : K} {ch : Change (R k)} (hk : ws k = some ch) :
    w.db.committed k = ch.old :=
  Database.committed_of_workspace (by rw [h.workspace, hk])

structure Workspace.Commits (ws : Workspace K R) (old new : (k : K) → Option (R k)) : Prop where
  before : ∀ k ch, ws k = some ch → old k = ch.old
  onto : new = ws.onto old

theorem At.commits (h : At t ws c w) : ws.Commits w.db.committed (w.db.commit t).committed :=
  ⟨fun _ _ => h.committed_old, h.committed_commit⟩

section Rows

omit [DecidableEq T]

variable {old new : (k : K) → Option (R k)} {k : K}

theorem Workspace.Commits.old_eq (h : ws.Commits old new) {ch : Change (R k)} (hk : ws k = some ch) : old k = ch.old :=
  h.before k ch hk

theorem Workspace.Commits.new_eq (h : ws.Commits old new) {ch : Change (R k)} (hk : ws k = some ch) :
    new k = some ch.new := by
  rw [h.onto]
  exact Workspace.onto_of_some hk

theorem Workspace.Commits.same (h : ws.Commits old new) (hk : ws k = none) : new k = old k := by
  rw [h.onto]
  exact Workspace.onto_of_none hk

end Rows

theorem At.visible_of_none (h : At t ws c w) {k : K} (hk : ws k = none) :
    w.db.visible t k = w.db.committed k :=
  Database.visible_of_none (by rw [h.workspace, hk])

theorem At.visible_of_some (h : At t ws c w) {k : K} {ch : Change (R k)} (hk : ws k = some ch) :
    w.db.visible t k = some ch.new :=
  Database.visible_of_workspace (by rw [h.workspace, hk])

theorem At.committed_unchanged (h : At t ws c w) (hws : ∀ k ch, ws k = some ch → ch.old = some ch.new) :
    (w.db.commit t).committed = w.db.committed := by
  rw [h.committed_commit]
  funext k
  cases hk : ws k with
  | none => exact Workspace.onto_of_none hk
  | some ch => rw [Workspace.onto_of_some hk, h.committed_old hk, hws k ch hk]

omit [DecidableEq T] in
theorem Workspace.set_empty_locked [DecidableEq K] {k : K} {x : R k} : ∀ j ch,
    (Workspace.empty (R := R)).set k ⟨some x, x⟩ j = some ch → ch.old = some ch.new := by
  intro j ch hj
  by_cases hjk : j = k
  · subst hjk
    rw [Workspace.set_self] at hj
    cases hj
    rfl
  · rw [Workspace.set_of_ne hjk] at hj
    cases hj

end Commits

theorem At.stable : D.Stable t (At t ws c) := fun _ _ _ h hs =>
  ⟨hs.frame.db.workspace.trans h.workspace, hs.frame.db.txn.trans h.txn⟩

namespace Kept

theorem and {F' : World T Q K R X → Prop} (h : Kept D t F) (h' : Kept D t F') :
    Kept D t (fun w => F w ∧ F' w) :=
  ⟨h.stable.and h'.stable, fun hi hf hw => ⟨h.works hi hf.1 hw, h'.works hi hf.2 hw⟩⟩

theorem const {φ : Prop} : Kept D t (fun _ => φ) := ⟨.const, fun _ h _ => h⟩

theorem imp {φ : Prop} (h : φ → Kept D t F) : Kept D t (fun w => φ → F w) :=
  ⟨fun _ _ hi hf hs hφ => (h hφ).stable _ _ hi (hf hφ) hs, fun hi hf hw hφ => (h hφ).works hi (hf hφ) hw⟩

theorem each {ι : Sort*} {G : ι → World T Q K R X → Prop} (h : ∀ i, Kept D t (G i)) :
    Kept D t (fun w => ∀ i, G i w) :=
  ⟨fun _ _ hi hg hs i => (h i).stable _ _ hi (hg i) hs, fun hi hg hw i => (h i).works hi (hg i) hw⟩

theorem any {ι : Sort*} {G : ι → World T Q K R X → Prop} (h : ∀ i, Kept D t (G i)) :
    Kept D t (fun w => ∃ i, G i w) :=
  ⟨fun _ _ hi ⟨i, hg⟩ hs => ⟨i, (h i).stable _ _ hi hg hs⟩, fun hi ⟨i, hg⟩ hw => ⟨i, (h i).works hi hg hw⟩⟩

theorem present (k : K) : Kept D t (fun w => ∃ r, w.db.committed k = some r) :=
  ⟨fun _ _ _ ⟨r, hr⟩ hs => hs.frame.db.rows k r hr, fun _ ⟨r, hr⟩ hw => ⟨r, by rw [hw.committed]; exact hr⟩⟩

theorem seq_le (q : Q) (n : ℕ) : Kept D t (fun w => n ≤ w.db.seq q) :=
  ⟨fun _ _ _ h hs => Nat.le_trans h (hs.frame.db.seq q), fun _ h hw => Nat.le_trans h (hw.seq q)⟩

end Kept

structure Fails (D : Discipline ((withDatabase (Q := Q) (R := R) M e).restrict A C)) (t : T)
    (F : World T Q K R X → Prop) (Y : E → World T Q K R X → Prop) : Prop where
  stable : ∀ e, D.Stable t (Y e)
  intro : ∀ {ws c w}, D.inv w → At t ws c w → F w → Y e w

namespace Fails

theorem const {φ : E → Prop} (h : φ e) : Fails D t F (fun e _ => φ e) := ⟨fun _ => .const, fun _ _ _ => h⟩

theorem any : Fails D t F fun _ _ => True := const trivial

theorem weaken {F' : World T Q K R X → Prop} (h : Fails D t F Y) (hF : ∀ w, F' w → F w) : Fails D t F' Y :=
  ⟨h.stable, fun hi hat hf => h.intro hi hat (hF _ hf)⟩

theorem throw (h : Fails D t F Y) {α : Type} {Z : α → World T Q K R X → Prop} :
    D.Triple t (fun w => At t ws c w ∧ F w) (throw e) Z Y := by
  apply Discipline.Triple.throw (h.stable e)
  exact fun w hi hw => h.intro hi hw.1 hw.2

end Fails

section Specs

variable (hD : Calm D) (hF : Kept D t F) (hY : Fails D t F Y)

include hD hF hY

theorem statement_allowed_spec {G : Snapshot Q K R → World T Q K R X → Prop} (hG : ∀ v, Kept D t (G v))
    (h : ∀ w, D.inv w → At t ws c w → F w →
      A t (.sql .statement) w (.ok (w.db.snapshot t)) ⟨w.db.setTxn t ⟨.inProgress, c + 1⟩, w.env⟩ →
      G (w.db.snapshot t) ⟨w.db.setTxn t ⟨.inProgress, c + 1⟩, w.env⟩) :
    D.Triple t (fun w => At t ws c w ∧ F w) statement
      (fun v w => At t ws (c + 1) w ∧ F w ∧ G v w) Y := by
  apply hD.inner (o := .statement) trivial (At.stable.and hF.stable) _ (fun w hi hp => hY.intro hi hp.1 hp.2)
    (fun v => At.stable.and (hF.stable.and (hG v).stable)) hY.stable
  rintro w v db hi ⟨hat, hf⟩ hx ha
  have hw := Database.exec_works (o := .statement) trivial hx
  cases hx
  rw [hat.txn] at ha
  have hg := h w hi hat hf ha
  refine ⟨⟨hat.workspace, ?_⟩, hF.works hi hf hw, ?_⟩
  · rw [Database.txn_setTxn, hat.txn]
  · rw [hat.txn]
    exact hg

theorem statement_spec {G : Snapshot Q K R → World T Q K R X → Prop} (hG : ∀ v, Kept D t (G v))
    (h : ∀ w, D.inv w → At t ws c w → F w →
      G (w.db.snapshot t) ⟨w.db.setTxn t ⟨.inProgress, c + 1⟩, w.env⟩) :
    D.Triple t (fun w => At t ws c w ∧ F w) statement
      (fun v w => At t ws (c + 1) w ∧ F w ∧ G v w) Y :=
  statement_allowed_spec hD hF hY hG fun w hi hat hf _ => h w hi hat hf

theorem lock_allowed_spec {k : K} (hk : ws k = none) (hpresent : ∀ w, D.inv w → F w → ∃ x, w.db.committed k = some x)
    {G : R k → World T Q K R X → Prop} (hG : ∀ x, Kept D t (G x))
    (h : ∀ w x db, D.inv w → At t ws c w → F w → w.db.committed k = some x →
      A t (.sql (.lock k)) w (.ok (some x)) ⟨db, w.env⟩ → G x w) :
    D.Triple t (fun w => At t ws c w ∧ F w) (lock k)
      (fun r w => ∃ x, r = some x ∧ At t (ws.set k ⟨some x, x⟩) c w ∧ F w ∧ G x w) Y := by
  apply hD.inner (o := .lock k) trivial (At.stable.and hF.stable) _ (fun w hi hp => hY.intro hi hp.1 hp.2) _
    hY.stable
  · rintro w r db hi ⟨hat, hf⟩ hx ha
    have hw := Database.exec_works (o := .lock k) trivial hx
    cases Database.locks_of_lock hx with
    | again hh =>
      rw [hat.workspace, hk] at hh
      cases hh
    | missing hh =>
      obtain ⟨x, hc⟩ := hpresent w hi hf
      rw [Database.committed_of_lock_none hx] at hc
      cases hc
    | taken hh hc =>
      refine ⟨_, rfl, ⟨?_, hat.txn⟩, hF.works hi hf hw, (hG _).works hi (h w _ _ hi hat hf hc ha) hw⟩
      rw [Database.workspace_hold, hat.workspace, hc]
      rfl
  · exact fun r => .exists fun x => .and .const (At.stable.and (hF.stable.and (hG x).stable))

theorem lock_spec {k : K} (hk : ws k = none) (hpresent : ∀ w, D.inv w → F w → ∃ x, w.db.committed k = some x)
    {G : R k → World T Q K R X → Prop} (hG : ∀ x, Kept D t (G x))
    (h : ∀ w x, D.inv w → At t ws c w → F w → w.db.committed k = some x → G x w) :
    D.Triple t (fun w => At t ws c w ∧ F w) (lock k)
      (fun r w => ∃ x, r = some x ∧ At t (ws.set k ⟨some x, x⟩) c w ∧ F w ∧ G x w) Y :=
  lock_allowed_spec hD hF hY hk hpresent hG fun w x _ hi hat hf hc _ => h w x hi hat hf hc

theorem lock_own_spec {k : K} {ch : Change (R k)} (hk : ws k = some ch) :
    D.Triple t (fun w => At t ws c w ∧ F w) (lock k)
      (fun r w => r = some ch.new ∧ At t ws c w ∧ F w) Y := by
  apply hD.inner (o := .lock k) trivial (At.stable.and hF.stable) _ (fun w hi hp => hY.intro hi hp.1 hp.2)
    (fun _ => .and .const (At.stable.and hF.stable)) hY.stable
  rintro w r db hi ⟨hat, hf⟩ hx -
  have hw := hat.workspace ▸ hk
  cases Database.locks_of_lock hx with
  | again hh =>
    rw [hw] at hh
    cases hh
    exact ⟨rfl, hat, hf⟩
  | missing hh =>
    rw [hw] at hh
    cases hh
  | taken hh hc =>
    rw [Database.workspace_none_of_free hh] at hw
    cases hw

theorem tryLock_spec {k : K} (hk : ws k = none) :
    D.Triple t (fun w => At t ws c w ∧ F w) (tryLock k) (fun r w => match r with
      | some x => At t (ws.set k ⟨some x, x⟩) c w ∧ F w
      | none => At t ws c w ∧ F w) Y := by
  apply hD.inner (o := .tryLock k) trivial (At.stable.and hF.stable) _ (fun w hi hp => hY.intro hi hp.1 hp.2) _
    hY.stable
  · rintro w r db hi ⟨hat, hf⟩ hx -
    have hw := Database.exec_works (o := .tryLock k) trivial hx
    cases Database.locks_of_tryLock hx with
    | again hh =>
      rw [hat.workspace, hk] at hh
      cases hh
    | missing hh => exact ⟨hat, hf⟩
    | taken hh hc =>
      refine ⟨⟨?_, hat.txn⟩, hF.works hi hf hw⟩
      rw [Database.workspace_hold, hat.workspace, hc]
      rfl
  · intro r
    cases r with
    | none => exact At.stable.and hF.stable
    | some x => exact At.stable.and hF.stable

theorem put_spec {k : K} {ch : Change (R k)} {r : R k} (hk : ws k = some ch) :
    D.Triple t (fun w => At t ws c w ∧ F w) (put k r)
      (fun _ w => At t (ws.set k ⟨ch.old, r⟩) c w ∧ F w) Y := by
  apply hD.inner (o := .put k r) trivial (At.stable.and hF.stable) _ (fun w hi hp => hY.intro hi hp.1 hp.2)
    (fun _ => At.stable.and hF.stable) hY.stable
  rintro w u db hi ⟨hat, hf⟩ hx -
  have hw := Database.exec_works (o := .put k r) trivial hx
  obtain ⟨-, rfl⟩ := Database.put_eq hx
  refine ⟨⟨?_, hat.txn⟩, hF.works hi hf hw⟩
  rw [Database.workspace_hold, hat.workspace, hat.committed_old hk]
  rfl

theorem reserve_spec {k : K} {r : R k} (hk : ws k = none) :
    D.Triple t (fun w => At t ws c w ∧ F w) (reserve k r) (fun b w => match b with
      | true => At t (ws.set k ⟨none, r⟩) c w ∧ F w
      | false => At t ws c w ∧ F w ∧ ∃ x, w.db.committed k = some x) Y := by
  apply hD.inner (o := .reserve k r) trivial (At.stable.and hF.stable) _ (fun w hi hp => hY.intro hi hp.1 hp.2) _
    hY.stable
  · rintro w b db hi ⟨hat, hf⟩ hx -
    have hw := Database.exec_works (o := .reserve k r) trivial hx
    rcases Database.reserve_eq hx with ⟨rfl, rfl, hc⟩ | ⟨rfl, rfl, -, hc⟩
    · refine ⟨hat, hf, ?_⟩
      rcases hc with ⟨ch, hc⟩ | hc
      · rw [hat.workspace, hk] at hc
        cases hc
      · exact hc
    · refine ⟨⟨?_, hat.txn⟩, hF.works hi hf hw⟩
      rw [Database.workspace_hold, hat.workspace, hc]
      rfl
  · intro b
    cases b with
    | true => exact At.stable.and hF.stable
    | false => exact At.stable.and (hF.stable.and (Kept.present k).stable)

theorem insertRow_spec {valid : (k : K) → R k → Bool} {k : K} {r : R k} (hk : ws k = none) :
    D.Triple t (fun w => At t ws c w ∧ F w) (insertRow e valid k r) (fun b w => match b with
      | true => valid k r ∧ At t (ws.set k ⟨none, r⟩) c w ∧ F w
      | false => At t ws c w ∧ F w ∧ ∃ x, w.db.committed k = some x) Y := by
  unfold insertRow
  split
  · rename_i hv
    apply (reserve_spec hD hF hY hk).conseq (fun _ _ h => h) _ fun _ _ _ h => h
    intro b w _ h
    cases b with
    | true => exact ⟨hv, h⟩
    | false => exact h
  · exact hY.throw

theorem insertOrSkip_spec {valid : (k : K) → R k → Bool} {k : K} {r : R k} (hk : ws k = none) :
    D.Triple t (fun w => At t ws c w ∧ F w) (insertOrSkip e valid k r) (fun b w => match b with
      | true => valid k r ∧ At t (ws.set k ⟨none, r⟩) (c + 1) w ∧ F w
      | false => At t ws (c + 1) w ∧ F w ∧ ∃ x, w.db.committed k = some x) Y := by
  apply Discipline.Triple.bind (statement_spec hD hF hY (fun _ => .const) fun _ _ _ _ => trivial)
  intro _
  exact (insertRow_spec hD hF hY hk).pre fun w _ h => ⟨h.1, h.2.1⟩

theorem insertOrFail_spec {valid : (k : K) → R k → Bool} {k : K} {r : R k} (hk : ws k = none) :
    D.Triple t (fun w => At t ws c w ∧ F w) (insertOrFail e valid k r)
      (fun _ w => valid k r ∧ At t (ws.set k ⟨none, r⟩) c w ∧ F w) Y := by
  apply Discipline.Triple.bind (insertRow_spec hD hF hY hk)
  intro b
  cases b with
  | true =>
    refine .pure (.and .const (At.stable.and hF.stable)) ?_
    exact fun _ _ h => h
  | false => exact hY.throw.pre fun w _ h => ⟨h.1, h.2.1⟩

theorem insertRow_own_spec {valid : (k : K) → R k → Bool} {k : K} {r : R k} {ch : Change (R k)}
    (hk : ws k = some ch) :
    D.Triple t (fun w => At t ws c w ∧ F w) (insertRow e valid k r)
      (fun b w => b = false ∧ At t ws c w ∧ F w) Y := by
  unfold insertRow
  split
  · apply hD.inner (o := .reserve k r) trivial (At.stable.and hF.stable) _ (fun w hi hp => hY.intro hi hp.1 hp.2)
      (fun _ => .and .const (At.stable.and hF.stable)) hY.stable
    rintro w b db hi ⟨hat, hf⟩ hx -
    rcases Database.reserve_eq hx with ⟨rfl, rfl, -⟩ | ⟨-, -, hfree, -⟩
    · exact ⟨rfl, hat, hf⟩
    · have hheld := Database.held_of_workspace (hat.workspace ▸ hk)
      rw [hfree] at hheld
      cases hheld
  · exact hY.throw

theorem insertOrFail_own_spec {valid : (k : K) → R k → Bool} {k : K} {r : R k} {ch : Change (R k)}
    (hk : ws k = some ch) {Z : Unit → World T Q K R X → Prop} :
    D.Triple t (fun w => At t ws c w ∧ F w) (insertOrFail e valid k r) Z Y := by
  refine .bind (insertRow_own_spec hD hF hY hk) fun b => .pure_pre ?_
  rintro rfl
  exact hY.throw

theorem nextval_spec {q : Q} {n : ℕ} (hn : ∀ w, D.inv w → F w → n ≤ w.db.seq q) :
    D.Triple t (fun w => At t ws c w ∧ F w) (nextval q)
      (fun id w => n ≤ id ∧ At t ws c w ∧ F w ∧ id + 1 ≤ w.db.seq q) Y := by
  apply hD.inner (o := .nextval q) trivial (At.stable.and hF.stable) _ (fun w hi hp => hY.intro hi hp.1 hp.2)
    (fun id => .and .const (At.stable.and (hF.stable.and (Kept.seq_le q (id + 1)).stable))) hY.stable
  rintro w id db hi ⟨hat, hf⟩ hx -
  have hw := Database.exec_works (o := .nextval q) trivial hx
  cases hx
  refine ⟨hn w hi hf, ⟨hat.workspace, hat.txn⟩, hF.works hi hf hw, ?_⟩
  simp

theorem insertWithId_spec {valid : (k : K) → R k → Bool} {q : Q} {key : ℕ → K} {row : (id : ℕ) → R (key id)}
    {n : ℕ} (hn : ∀ w, D.inv w → F w → n ≤ w.db.seq q) (hws : ∀ id, n ≤ id → ws (key id) = none) :
    D.Triple t (fun w => At t ws c w ∧ F w) (insertWithId e valid q key row)
      (fun id w => (n ≤ id ∧ valid (key id) (row id)) ∧ At t (ws.set (key id) ⟨none, row id⟩) (c + 1) w ∧
      F w ∧ id + 1 ≤ w.db.seq q) Y := by
  apply Discipline.Triple.bind (statement_spec hD hF hY (fun _ => .const) fun _ _ _ _ => trivial)
  intro _
  refine (Discipline.Triple.bind (nextval_spec hD hF hY hn) ?_).pre fun w _ h => ⟨h.1, h.2.1⟩
  intro id
  refine .pure_pre fun hid => ?_
  have hF' : Kept D t (fun w => F w ∧ id + 1 ≤ w.db.seq q) := hF.and (.seq_le q (id + 1))
  refine .bind (insertOrFail_spec hD hF' (hY.weaken fun _ h => h.1) (hws id hid)) fun _ => ?_
  refine .pure (.and .const (At.stable.and hF'.stable)) ?_
  exact fun w _ h => ⟨⟨hid, h.1⟩, h.2⟩

theorem selectForUpdate_spec {k : K} (hk : ws k = none) {G : R k → World T Q K R X → Prop}
    (hG : ∀ x, Kept D t (G x)) {N : World T Q K R X → Prop} (hN : Kept D t N)
    (hnone : ∀ w, D.inv w → At t ws c w → F w → w.db.committed k = none →
      N ⟨w.db.setTxn t ⟨.inProgress, c + 1⟩, w.env⟩)
    (h : ∀ w x, D.inv w → At t ws (c + 1) w → F w → w.db.committed k = some x → G x w) :
    D.Triple t (fun w => At t ws c w ∧ F w) (selectForUpdate k) (fun r w => match r with
      | some x => At t (ws.set k ⟨some x, x⟩) (c + 1) w ∧ F w ∧ G x w
      | none => At t ws (c + 1) w ∧ F w ∧ N w) Y := by
  have hG' : ∀ v : Snapshot Q K R, Kept D t (fun w => match v.row k with
      | some _ => ∃ x, w.db.committed k = some x
      | none => N w) := by
    intro v
    split
    · exact .present k
    · exact hN
  apply Discipline.Triple.bind (statement_spec hD hF hY hG' _)
  · intro v
    cases hv : v.row k with
    | none =>
      refine .pure (At.stable.and (hF.stable.and hN.stable)) ?_
      exact fun _ _ h => h
    | some seen =>
      simp only
      have hF' : Kept D t (fun w => F w ∧ ∃ x, w.db.committed k = some x) := hF.and (.present k)
      apply (lock_spec hD hF' (hY.weaken fun _ h => h.1) hk (fun _ _ h => h.2) hG
        (fun w x hi hat hf hc => h w x hi hat hf.1 hc)).conseq (fun _ _ h => h) _ fun _ _ _ h => h
      rintro r w - ⟨x, rfl, hat, hf, hg⟩
      exact ⟨hat, hf.1, hg⟩
  · intro w hi hat hf
    have hv : (w.db.snapshot t).row k = w.db.committed k := hat.visible_of_none hk
    rw [hv]
    split
    · rename_i x hx
      exact ⟨x, hx⟩
    · rename_i hx
      exact hnone w hi hat hf hx

/-- `N` is what an UPDATE that changes no row learns: the row is not there, or it does not satisfy `p`. -/
theorem updateWhere_refused_spec {valid : (k : K) → R k → Bool} {k : K} {p : R k → Bool} {f : R k → R k}
    (hk : ws k = none) {G : R k → World T Q K R X → Prop} (hG : ∀ x, Kept D t (G x)) {N : World T Q K R X → Prop}
    (hN : Kept D t N)
    (h : ∀ w x db, D.inv w → At t ws (c + 1) w → F w → w.db.committed k = some x →
      A t (.sql (.lock k)) w (.ok (some x)) ⟨db, w.env⟩ → G x w)
    (hunmatched : ∀ w, D.inv w → At t ws c w → F w → (∀ x, w.db.committed k = some x → p x = false) →
      N ⟨w.db.setTxn t ⟨.inProgress, c + 1⟩, w.env⟩)
    (hchanged : ∀ w x, D.inv w → At t ws (c + 1) w → F w → w.db.committed k = some x → p x = false → N w) :
    D.Triple t (fun w => At t ws c w ∧ F w) (updateWhere e valid k p f) (fun r w => match r with
      | some new => ∃ old, (p old ∧ new = f old ∧ valid k new) ∧
          At t (ws.set k ⟨some old, new⟩) (c + 1) w ∧ F w ∧ G old w
      | none => ∃ ws', (ws' = ws ∨ ∃ x, ws' = ws.set k ⟨some x, x⟩) ∧ At t ws' (c + 1) w ∧ F w ∧ N w) Y := by
  -- what the snapshot says of the row
  have hG' : ∀ v : Snapshot Q K R, Kept D t (fun w => match v.row k with
      | some seen => if p seen then ∃ x, w.db.committed k = some x else N w
      | none => N w) := by
    intro v
    split
    · split
      · exact .present k
      · exact hN
    · exact hN
  have hnone : ∀ ws', (ws' = ws ∨ ∃ x, ws' = ws.set k ⟨some x, x⟩) → D.Triple t
      (fun w => At t ws' (c + 1) w ∧ F w ∧ N w)
      (Concurrent.Prog.done (.ok none)) (fun r w => match r with
        | some new => ∃ old, (p old ∧ new = f old ∧ valid k new) ∧
            At t (ws.set k ⟨some old, new⟩) (c + 1) w ∧ F w ∧ G old w
        | none => ∃ ws', (ws' = ws ∨ ∃ x, ws' = ws.set k ⟨some x, x⟩) ∧ At t ws' (c + 1) w ∧ F w ∧ N w) Y := by
    intro ws' hws'
    refine .pure (.exists fun _ => .and .const (At.stable.and (hF.stable.and hN.stable))) ?_
    exact fun w _ h => ⟨ws', hws', h⟩
  apply Discipline.Triple.bind (statement_spec hD hF hY hG' _)
  · intro v
    cases hv : v.row k with
    | none => exact hnone ws (.inl rfl)
    | some seen =>
      dsimp only
      split
      · have hF' : Kept D t (fun w => F w ∧ ∃ x, w.db.committed k = some x) := hF.and (.present k)
        have hseen (x : R k) : Kept D t fun w => G x w ∧ (p x = false → N w) := (hG x).and (.imp fun _ => hN)
        apply Discipline.Triple.bind (lock_allowed_spec hD hF' (hY.weaken fun _ h => h.1) hk (fun _ _ h => h.2) hseen
          (fun w x db hi hat hf hc ha => ⟨h w x db hi hat hf.1 hc ha, hchanged w x hi hat hf.1 hc⟩))
        intro r
        refine .exists_pre fun old => .pure_pre ?_
        rintro rfl
        have hF₂ : Kept D t (fun w => F w ∧ G old w) := hF.and (hG old)
        dsimp only
        split
        · rename_i hp
          split
          · rename_i hvalid
            refine .bind ((put_spec hD hF₂ (hY.weaken fun _ h => h.1) Workspace.set_self).pre
              fun w _ h => ⟨h.1, h.2.1.1, h.2.2.1⟩) fun _ => ?_
            rw [Workspace.set_set]
            refine .pure (.exists fun _ => .and .const (At.stable.and (hF.stable.and (hG _).stable))) ?_
            exact fun w _ h => ⟨old, ⟨hp, rfl, hvalid⟩, h⟩
          · exact hY.throw.pre fun w _ h => ⟨h.1, h.2.1.1⟩
        · rename_i hp
          exact (hnone _ (.inr ⟨_, rfl⟩)).pre fun w _ h => ⟨h.1, h.2.1.1, h.2.2.2 (by simpa using hp)⟩
      · exact hnone ws (.inl rfl)
  · intro w hi hat hf
    have hv : (w.db.snapshot t).row k = w.db.committed k := hat.visible_of_none hk
    rw [hv]
    split
    · rename_i x hx
      split
      · exact ⟨x, hx⟩
      · rename_i hp
        refine hunmatched w hi hat hf fun x' hx' => ?_
        cases hx.symm.trans hx'
        simpa using hp
    · rename_i hx
      exact hunmatched w hi hat hf fun x' hx' => by simp [hx] at hx'

/-- `N` is what an UPDATE learns of a row that is not there. -/
theorem updateWhere_allowed_spec {valid : (k : K) → R k → Bool} {k : K} {p : R k → Bool} {f : R k → R k}
    (hk : ws k = none) {G : R k → World T Q K R X → Prop} (hG : ∀ x, Kept D t (G x)) {N : World T Q K R X → Prop}
    (hN : Kept D t N)
    (h : ∀ w x db, D.inv w → At t ws (c + 1) w → F w → w.db.committed k = some x →
      A t (.sql (.lock k)) w (.ok (some x)) ⟨db, w.env⟩ → G x w)
    (hmissing : ∀ w, D.inv w → At t ws c w → F w → w.db.committed k = none →
      N ⟨w.db.setTxn t ⟨.inProgress, c + 1⟩, w.env⟩) :
    D.Triple t (fun w => At t ws c w ∧ F w) (updateWhere e valid k p f) (fun r w => match r with
      | some new => ∃ old, (p old ∧ new = f old ∧ valid k new) ∧
          At t (ws.set k ⟨some old, new⟩) (c + 1) w ∧ F w ∧ G old w
      | none => ∃ ws', (ws' = ws ∨ ∃ x, ws' = ws.set k ⟨some x, x⟩) ∧ At t ws' (c + 1) w ∧ F w ∧
          ((∀ x, p x) → N w)) Y := by
  refine updateWhere_refused_spec hD hF hY hk hG (.imp fun _ => hN) h ?_ ?_
  · intro w hi hat hf hrows hall
    refine hmissing w hi hat hf (Option.eq_none_iff_forall_ne_some.mpr fun x hx => ?_)
    simpa [hall x] using hrows x hx
  · intro w x _ _ _ _ hp hall
    simp [hall x] at hp

theorem updateWhere_spec {valid : (k : K) → R k → Bool} {k : K} {p : R k → Bool} {f : R k → R k}
    (hk : ws k = none) {G : R k → World T Q K R X → Prop} (hG : ∀ x, Kept D t (G x))
    (h : ∀ w x, D.inv w → At t ws (c + 1) w → F w → w.db.committed k = some x → G x w) :
    D.Triple t (fun w => At t ws c w ∧ F w) (updateWhere e valid k p f) (fun r w => match r with
      | some new => ∃ old, (p old ∧ new = f old ∧ valid k new) ∧
          At t (ws.set k ⟨some old, new⟩) (c + 1) w ∧ F w ∧ G old w
      | none => ∃ ws', (ws' = ws ∨ ∃ x, ws' = ws.set k ⟨some x, x⟩) ∧ At t ws' (c + 1) w ∧ F w) Y := by
  refine (updateWhere_allowed_spec hD hF hY hk hG (N := fun _ => True) .const
    (fun w x _ hi hat hf hc _ => h w x hi hat hf hc) fun _ _ _ _ _ => trivial).conseq (fun _ _ h => h) ?_
        fun _ _ _ h => h
  rintro r w - hr
  cases r with
  | some new => exact hr
  | none =>
    obtain ⟨ws', hws', hat, hf, -⟩ := hr
    exact ⟨ws', hws', hat, hf⟩

theorem updateWhere_own_spec {valid : (k : K) → R k → Bool} {k : K} {p : R k → Bool} {f : R k → R k}
    {ch : Change (R k)} (hk : ws k = some ch) (hp : p ch.new) :
    D.Triple t (fun w => At t ws c w ∧ F w) (updateWhere e valid k p f)
      (fun r w => r = some (f ch.new) ∧ At t (ws.set k ⟨ch.old, f ch.new⟩) (c + 1) w ∧ F w) Y := by
  apply Discipline.Triple.bind (statement_spec hD hF hY
    (G := fun v _ => v.row k = some ch.new) (fun _ => .const) fun w _ hat _ => hat.visible_of_some hk)
  intro v
  apply Discipline.Triple.pre (P := fun w => v.row k = some ch.new ∧ At t ws (c + 1) w ∧ F w) _
    fun w _ h => ⟨h.2.2, h.1, h.2.1⟩
  refine .pure_pre fun hv => ?_
  simp only [hv, hp, if_true]
  apply Discipline.Triple.bind (lock_own_spec hD hF hY hk)
  intro r
  refine .pure_pre ?_
  rintro rfl
  simp only [hp, if_true]
  split
  · refine .bind (put_spec hD hF hY hk) fun _ => ?_
    exact .pure (.and .const (At.stable.and hF.stable)) fun w _ h => ⟨rfl, h⟩
  · exact hY.throw

theorem insertOrUpdate_spec {valid : (k : K) → R k → Bool} {k : K} {r : R k} {f : R k → R k} :
    D.Triple t (fun w => At t ws c w ∧ F w) (insertOrUpdate e valid k r f)
      (fun _ w => ∃ ch, (ch.new = r ∨ ∃ x, ch.new = f x) ∧ At t (ws.set k ch) (c + 1) w ∧ F w) Y := by
  have hput {ws' : Workspace K R} {ch : Change (R k)} {x : R k} {F' : World T Q K R X → Prop} (hF' : Kept D t F')
      (hws' : ws' k = some ch) (hset : ∀ ch', ws'.set k ch' = ws.set k ch') (hweak : ∀ w, F' w → F w) :
      D.Triple t (fun w => At t ws' (c + 1) w ∧ F' w)
        (if valid k (f x) then put k (f x) else (throw e : Client Q K R ExtRes E Unit))
        (fun _ w => ∃ ch, (ch.new = r ∨ ∃ x, ch.new = f x) ∧ At t (ws.set k ch) (c + 1) w ∧ F w) Y := by
    split
    · apply (put_spec hD hF' (hY.weaken hweak) hws').conseq (fun _ _ h => h) _ fun _ _ _ h => h
      rintro _ w - ⟨hat, hf⟩
      exact ⟨_, .inr ⟨x, rfl⟩, hset _ ▸ hat, hweak w hf⟩
    · exact (hY.weaken hweak).throw
  apply Discipline.Triple.bind (statement_spec hD hF hY (fun _ => .const) fun _ _ _ _ => trivial)
  intro _
  cases hk : ws k with
  | some ch =>
    refine (Discipline.Triple.bind (insertRow_own_spec hD hF hY hk) fun b => .pure_pre ?_).pre
      fun w _ h => ⟨h.1, h.2.1⟩
    rintro rfl
    simp only [Bool.false_eq_true, if_false]
    refine .bind (lock_own_spec hD hF hY hk) fun r => .pure_pre ?_
    rintro rfl
    exact hput hF hk (fun _ => rfl) fun _ h => h
  | none =>
    refine (Discipline.Triple.bind (insertRow_spec hD hF hY hk) fun b => ?_).pre fun w _ h => ⟨h.1, h.2.1⟩
    cases b with
    | true =>
      refine .pure (.exists fun _ => .and .const (At.stable.and hF.stable)) ?_
      exact fun _ _ h => ⟨_, .inl rfl, h.2⟩
    | false =>
      simp only [Bool.false_eq_true, if_false]
      have hF' : Kept D t (fun w => F w ∧ ∃ x, w.db.committed k = some x) := hF.and (.present k)
      refine .bind (lock_spec hD hF' (hY.weaken fun _ h => h.1) hk (fun _ _ h => h.2) (G := fun _ _ => True)
        (fun _ => .const) fun _ _ _ _ _ _ => trivial) fun r => .exists_pre fun x => .pure_pre ?_
      rintro rfl
      exact (hput (hF'.and .const) Workspace.set_self (fun _ => Workspace.set_set) fun _ h => h.1.1)

theorem updateSerializable_spec {conflict : E} {valid : (k : K) → R k → Bool} {view : Snapshot Q K R} {k : K}
    [DecidableEq (R k)] {f : R k → R k} {seen : R k} (hk : ws k = none) (hseen : view.row k = some seen)
    (hconflict : ∀ {ws c w}, D.inv w → At t ws c w → F w → Y conflict w)
    (hpresent : ∀ w, D.inv w → F w → ∃ x, w.db.committed k = some x) :
    D.Triple t (fun w => At t ws c w ∧ F w) (updateSerializable e conflict valid view k f)
      (fun r w => (r = some (f seen) ∧ valid k (f seen)) ∧ At t (ws.set k ⟨some seen, f seen⟩) (c + 1) w ∧ F w) Y := by
  apply Discipline.Triple.bind (statement_spec hD hF hY (fun _ => .const) fun _ _ _ _ => trivial)
  intro _
  simp only [hseen]
  refine (Discipline.Triple.bind (lock_spec hD hF hY hk hpresent (G := fun _ _ => True) (fun _ => .const)
    fun _ _ _ _ _ _ => trivial) fun r => .exists_pre fun latest => .pure_pre ?_).pre fun w _ h => ⟨h.1, h.2.1⟩
  rintro rfl
  split
  · rename_i hlatest
    cases hlatest
    split
    · rename_i hvalid
      refine .bind ((put_spec hD hF hY Workspace.set_self).pre fun w _ h => ⟨h.1, h.2.1⟩) fun _ => ?_
      rw [Workspace.set_set]
      exact .pure (.and .const (At.stable.and hF.stable)) fun w _ h => ⟨⟨rfl, hvalid⟩, h⟩
    · exact hY.throw.pre fun w _ h => ⟨h.1, h.2.1⟩
  · exact .throw (hY.stable conflict) fun w hi h => hconflict hi h.1 h.2.1

theorem commit_spec {Z : World T Q K R X → Prop} (hZ : D.Stable t Z)
    (h : ∀ w r, D.inv w → At t ws c w → F w → A t (.sql .commit) w r ⟨w.db.commit t, w.env⟩ →
      D.Allows t w ⟨w.db.commit t, w.env⟩ ∧ (r = .ok () → Z ⟨w.db.commit t, w.env⟩) ∧
      (r = .error e → Y e ⟨w.db.commit t, w.env⟩)) :
    D.Triple t (fun w => At t ws c w ∧ F w) commit (fun _ => Z) Y :=
  hD.finish (At.stable.and hF.stable) (fun w r hi hp ha => h w r hi hp.1 hp.2 ha)
    (fun _ hi hp => hY.intro hi hp.1 hp.2) hZ hY.stable

end Specs

theorem select_outside_spec (hD : Calm D) (hF : Kept D t F) {G : Snapshot Q K R → World T Q K R X → Prop}
    (hG : ∀ v, Kept D t (G v)) (h : ∀ w, D.inv w → F w → G ⟨w.db.committed, w.db.seq⟩ w)
    (hY : ∀ w, D.inv w → F w → Y e w) (hYs : ∀ e, D.Stable t (Y e)) :
    D.Triple t (fun w => w.db.workspace t = Workspace.empty ∧ F w) statement
      (fun v w => w.db.workspace t = Workspace.empty ∧ F w ∧ G v w) Y := by
  have hidle : D.Stable t fun w => w.db.workspace t = Workspace.empty :=
    fun _ _ _ h hs => hs.frame.db.workspace.trans h
  refine hD.inner (o := .statement) trivial (hidle.and hF.stable) ?_ (fun w hi hw => hY w hi hw.2)
    (fun v => hidle.and (hF.stable.and (hG v).stable)) hYs
  rintro w v db hi ⟨hempty, hf⟩ hx -
  have hw := Database.exec_works (o := .statement) trivial hx
  cases hx
  have hvisible : w.db.visible t = w.db.committed := by
    funext k
    exact Database.visible_of_none (by rw [hempty]; rfl)
  refine ⟨hempty, hF.works hi hf hw, (hG _).works hi ?_ hw⟩
  rw [Database.snapshot, hvisible]
  exact h w hi hf

theorem begin_spec (hD : Calm D) (hF : D.Stable t F)
    (hb : ∀ w, D.inv w → F w → D.Allows t w ⟨w.db.setTxn t ⟨.inProgress, 0⟩, w.env⟩ ∧
      F ⟨w.db.setTxn t ⟨.inProgress, 0⟩, w.env⟩)
    (hY : ∀ w, D.inv w → F w → Y e w) (hYs : ∀ e, D.Stable t (Y e)) :
    D.Triple t (fun w => w.db.workspace t = Workspace.empty ∧ F w) begin
      (fun _ w => At t Workspace.empty 0 w ∧ F w) Y := by
  apply hD.start _ _ (fun w hi hp => hY w hi hp.2) (At.stable.and hF) hYs
  · exact fun w w' hi hp hs => ⟨hs.frame.db.workspace.trans hp.1, hF w w' hi hp.2 hs⟩
  · rintro w hi ⟨hw, hf⟩
    obtain ⟨ha, hf'⟩ := hb w hi hf
    exact ⟨ha, ⟨hw, Database.txn_setTxn⟩, hf'⟩

/-- A statement outside a transaction block: `B` after an error, which the rollback keeps. -/
theorem autocommit_spec {α : Type} (hD : Calm D) {P B : World T Q K R X → Prop} {S Z : α → World T Q K R X → Prop}
    {body : Client Q K R ExtRes E α} (hF : D.Stable t F) (hB : D.Stable t B) (hZ : ∀ a, D.Stable t (Z a))
    (hP : ∀ w, D.inv w → P w → w.db.workspace t = Workspace.empty ∧ F w)
    (hb : ∀ w, D.inv w → F w → D.Allows t w ⟨w.db.setTxn t ⟨.inProgress, 0⟩, w.env⟩ ∧
      F ⟨w.db.setTxn t ⟨.inProgress, 0⟩, w.env⟩)
    (hrefused : ∀ w, D.inv w → F w → B w) (habort : ∀ w, D.inv w → B w → B ⟨w.db.rollback t, w.env⟩)
    (hbody : D.Triple t (fun w => At t Workspace.empty 0 w ∧ F w) body S fun _ => B)
    (hcommit : ∀ a, D.Triple t (S a) commit (fun _ => Z a) fun _ => B) :
    D.Triple t P (autocommit body) Z fun _ => B := by
  refine (Discipline.Triple.bind (begin_spec (Y := fun _ => B) hD hF hb hrefused fun _ => hB) fun _ => ?_).pre hP
  refine .handle (Y := fun _ => B) (.bind hbody fun a => .bind (hcommit a) fun _ => .pure (hZ a) fun _ _ h => h)
    fun error => ?_
  refine .bind (R := fun _ => B) (.handle (Y := fun _ => B) ?_ fun _ => .pure hB fun _ _ h => h)
    fun _ => .throw hB fun _ _ h => h
  exact hD.abort hB (fun w hi h => ⟨habort w hi h, habort w hi h⟩) hB fun _ => hB

theorem rollback_throw_spec {α : Type} (hD : Calm D) {P : World T Q K R X → Prop} (hP : D.Stable t P)
    {Z : α → World T Q K R X → Prop} (x : E) (hYs : ∀ e, D.Stable t (Y e))
    (h : ∀ w, D.inv w → P w → Y x ⟨w.db.rollback t, w.env⟩ ∧ Y e ⟨w.db.rollback t, w.env⟩) :
    D.Triple t P (rollback >>= fun _ => (throw x : Client Q K R ExtRes E α)) Z Y := by
  apply Discipline.Triple.bind (hD.abort hP h (hYs x) hYs)
  exact fun _ => .throw (hYs x) fun _ _ h => h

end ReadCommitted
