import Marketplace.Orders

namespace Marketplace

open Concurrent ReadCommitted

-- `isOrderStatus` and the status it admits
def orderStatus? : String → Option OrderStatus
  | "created" => some .created
  | "paid" => some .paid
  | "shipped" => some .shipped
  | "completed" => some .completed
  | "cancelled" => some .cancelled
  | _ => none

variable {T Ext : Type} {ExtRes : Ext → Type}

def findById (id : ℕ) : Client Serial Key (Row T) ExtRes Failure OrderResponse := do
  let view ← statement
  match view.row (.order id) with
  | none => throw (.notFound ("Order " ++ Nat.repr id ++ " not found"))
  | some order =>
    let itemsView ← statement
    pure
      { id := id
        items := (View.orderItems itemsView id).map fun item => ⟨.integer item.productId, .integer item.quantity⟩
        totalCents := order.totalAmount
        status := order.status }

def belongsToUser (orderId userId : ℕ) : Client Serial Key (Row T) ExtRes Failure Bool := do
  let view ← statement
  pure ((view.row (.order orderId)).any fun order => order.userId = userId)

def setStatus (id : ℕ) (status : OrderStatus) : Client Serial Key (Row T) ExtRes Failure (Option (OrderRow T)) :=
  update (.order id) (fun _ => true) fun order => { order with status := status }

/-- `emit` stands for the call of `emitStatusChanged`. -/
def updateStatus (emit : ℕ → OrderStatus → Client Serial Key (Row T) ExtRes Failure Unit) (id : ℕ) (status : String) :
    Client Serial Key (Row T) ExtRes Failure OrderResponse :=
  match orderStatus? status with
  | none => throw (.badRequest ("Invalid order status: " ++ status))
  | some status => do
    match ← autocommit (setStatus id status) with
    | none => throw (.notFound ("Order " ++ Nat.repr id ++ " not found"))
    | some order =>
      emit id order.status
      findById id

variable [DecidableEq T] {X : Type} {M : Machine T X Ext ExtRes Failure}
  {A : T → (a : Action Serial Key (Row T) Ext) → World T Serial Key (Row T) X → Except Failure (a.Res ExtRes) →
    World T Serial Key (Row T) X → Prop}
  {C : T → World T Serial Key (Row T) X → World T Serial Key (Row T) X → Prop}
  {D : Discipline ((withDatabase (Q := Serial) (R := Row T) M .database).restrict A C)} {t : T}
  {F : World T Serial Key (Row T) X → Prop}

theorem select_spec (hD : Calm D) (hF : Kept D t F) : D.Triple t F statement (fun _ => F) fun _ => F := by
  refine hD.inner (o := .statement) trivial hF.stable ?_ (fun _ _ h => h) (fun _ => hF.stable) fun _ => hF.stable
  exact fun w view db hi hf hx _ => hF.works hi hf (Database.exec_works (o := .statement) trivial hx)

theorem findById_spec (hD : Calm D) (hF : Kept D t F) (id : ℕ) :
    D.Triple t F (findById id) (fun _ => F) fun _ => F := by
  refine .bind (select_spec hD hF) fun view => ?_
  split
  · exact .throw hF.stable fun _ _ h => h
  · exact .bind (select_spec hD hF) fun _ => .pure hF.stable fun _ _ h => h

theorem belongsToUser_spec (hD : Calm D) (hF : Kept D t F) (orderId userId : ℕ) :
    D.Triple t F (belongsToUser orderId userId) (fun _ => F) fun _ => F :=
  .bind (select_spec hD hF) fun _ => .pure hF.stable fun _ _ h => h

def statusSet (id : ℕ) (old : OrderRow T) (status : OrderStatus) : Workspace Key (Row T) :=
  Workspace.empty.set (.order id) ⟨some old, { old with status := status }⟩

structure StatusCommitted (id : ℕ) (order : OrderRow T) (status : OrderStatus) (old new : Tables T) : Prop where
  before : old (.order id) = some order
  after : new (.order id) = some { order with status := status }
  others : ∀ k, k ≠ .order id → new k = old k

theorem statusSet_committed {id c : ℕ} {order : OrderRow T} {status : OrderStatus}
    {w : World T Serial Key (Row T) X} (hat : At t (statusSet id order status) c w) :
    StatusCommitted id order status w.db.committed (w.db.commit t).committed := by
  refine ⟨hat.committed_old (k := Key.order id) Workspace.set_self, ?_, fun k hk => ?_⟩
  · rw [hat.committed_commit]
    exact Workspace.onto_of_some (k := Key.order id) Workspace.set_self
  · rw [hat.committed_commit]
    exact Workspace.onto_of_none (Workspace.set_of_ne hk)

def StatusWorkspace (id : ℕ) (status : OrderStatus) (ws : Workspace Key (Row T)) : Option (OrderRow T) → Prop
  | some new => ∃ old, new = { old with status := status } ∧ ws = statusSet id old status
  | none => ∀ k ch, ws k = some ch → ch.old = some ch.new

theorem setStatus_spec {Y : Failure → World T Serial Key (Row T) X → Prop} {N : World T Serial Key (Row T) X → Prop}
    (hD : Calm D) (hF : Kept D t F) (hY : Fails D t F Y) (hN : Kept D t N) (id : ℕ) (status : OrderStatus)
    (hmissing : ∀ w, D.inv w → F w → w.db.committed (.order id) = none → N ⟨w.db.setTxn t ⟨.inProgress, 1⟩, w.env⟩) :
    D.Triple t (fun w => At t Workspace.empty 0 w ∧ F w) (setStatus id status)
      (fun updated w => ∃ ws, StatusWorkspace id status ws updated ∧ At t ws 1 w ∧ F w ∧ (updated = none → N w)) Y := by
  refine (updateWhere_allowed_spec hD hF hY rfl (G := fun _ _ => True) (fun _ => .const) hN
    (fun _ _ _ _ _ _ _ _ => trivial) fun w hi _ hf hc => hmissing w hi hf hc).conseq (fun _ _ h => h) ?_
        fun _ _ _ h => h
  rintro updated w -
  cases updated with
  | some new =>
    rintro ⟨old, ⟨-, hnew, -⟩, hat, hf, -⟩
    exact ⟨_, ⟨old, hnew, hnew ▸ rfl⟩, hat, hf, by simp⟩
  | none =>
    rintro ⟨ws, rfl | ⟨x, rfl⟩, hat, hf, hn⟩
    · exact ⟨_, fun k ch h => absurd h (by simp [Workspace.empty]), hat, hf, fun _ => hn fun _ => rfl⟩
    · exact ⟨_, Workspace.set_empty_locked, hat, hf, fun _ => hn fun _ => rfl⟩

/-- What has to be shown of `D` for an `updateStatus` call of `t`: `F` before its COMMIT, `Z` once an order is
changed, `N` of an order that does not exist, `B` after the call. -/
structure StatusRules (D : Discipline ((withDatabase (Q := Serial) (R := Row T) M .database).restrict A C)) (t : T)
    (id : ℕ) (status : String) (F N B : World T Serial Key (Row T) X → Prop)
    (Z : OrderStatus → World T Serial Key (Row T) X → Prop) : Prop where
  calm : Calm D
  kept : Kept D t F
  missing : Kept D t N
  settled : Kept D t B
  changed : ∀ status, D.Stable t (Z status)
  fails : ∀ {w}, D.inv w → F w → B w
  aborts : ∀ {w}, D.inv w → B w → B ⟨w.db.rollback t, w.env⟩
  starts : ∀ {w}, D.inv w → F w → D.Allows t w ⟨w.db.setTxn t ⟨.inProgress, 0⟩, w.env⟩ ∧
    F ⟨w.db.setTxn t ⟨.inProgress, 0⟩, w.env⟩
  finds : ∀ {w}, D.inv w → w.db.committed (.order id) = none → N ⟨w.db.setTxn t ⟨.inProgress, 1⟩, w.env⟩
  commits : ∀ {w r new ws updated}, orderStatus? status = some new → D.inv w → At t ws 1 w → F w →
    StatusWorkspace id new ws updated → (updated = none → N w) → A t (.sql .commit) w r ⟨w.db.commit t, w.env⟩ →
    D.Allows t w ⟨w.db.commit t, w.env⟩ ∧
      (r = .ok () → if updated = none then B ⟨w.db.commit t, w.env⟩ else Z new ⟨w.db.commit t, w.env⟩) ∧
      (r = .error .database → B ⟨w.db.commit t, w.env⟩)

theorem updateStatus_spec {id : ℕ} {status : String} {N B : World T Serial Key (Row T) X → Prop}
    {Z : OrderStatus → World T Serial Key (Row T) X → Prop} (H : StatusRules D t id status F N B Z)
    {emit : ℕ → OrderStatus → Client Serial Key (Row T) ExtRes Failure Unit}
    (hemit : ∀ new, D.Triple t (Z new) (emit id new) (fun _ => B) fun _ => B) :
    D.Triple t (fun w => w.db.workspace t = Workspace.empty ∧ F w) (updateStatus emit id status) (fun _ => B)
      fun _ => B := by
  unfold updateStatus
  split
  · exact .throw H.settled.stable fun _ hi h => H.fails hi h.2
  rename_i new hnew
  have hY : Fails D t F (fun _ => B) := ⟨fun _ => H.settled.stable, fun hi _ hf => H.fails hi hf⟩
  have hZ : ∀ updated : Option (OrderRow T), D.Stable t fun w => match updated with
      | some order => order.status = new ∧ Z new w
      | none => B w := by
    intro updated
    cases updated with
    | none => exact H.settled.stable
    | some order => exact .and .const (H.changed new)
  refine .bind (autocommit_spec
    H.calm H.kept.stable H.settled.stable hZ (fun _ _ h => h) (fun _ hi hf => H.starts hi hf)
    (fun _ hi hf => H.fails hi hf) (fun _ hi hb => H.aborts hi hb)
    (setStatus_spec H.calm H.kept hY H.missing id new fun _ hi _ hc => H.finds hi hc) fun updated => ?_)
    fun updated => ?_
  · refine .exists_pre fun ws => .pure_pre fun hws => ?_
    have hF : Kept D t fun w => F w ∧ (updated = none → N w) := H.kept.and (.imp fun _ => H.missing)
    refine commit_spec H.calm hF (hY.weaken fun _ h => h.1) (hZ updated) fun w r hi hat hf ha => ?_
    obtain ⟨hall, hok, herror⟩ := H.commits hnew hi hat hf.1 hws hf.2 ha
    refine ⟨hall, fun hr => ?_, herror⟩
    cases updated with
    | none => exact hok hr
    | some order =>
      obtain ⟨old, rfl, -⟩ := hws
      exact ⟨rfl, hok hr⟩
  · cases updated with
    | none => exact .throw H.settled.stable fun _ _ h => h
    | some order =>
      refine .pure_pre fun hstatus => ?_
      dsimp only
      rw [hstatus]
      exact .bind (hemit new) fun _ => findById_spec H.calm H.settled id

end Marketplace
