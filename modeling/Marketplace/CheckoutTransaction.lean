import Marketplace.Checkout

namespace Marketplace

open Concurrent ReadCommitted

structure PlacedCheckout where
  productId : ℕ
  product : ProductRow
  userId : ℕ
  user : UserRow
  quantity : ℤ
  orderId : ℕ
  itemId : ℕ
  taskId : ℕ
  inStock : quantity ≤ product.stockQuantity
  affordable : product.price * quantity ≤ user.balance

namespace PlacedCheckout

variable {T : Type} (placed : PlacedCheckout)

def totalAmount : ℤ := placed.product.price * placed.quantity

def newProduct : ProductRow :=
  { placed.product with stockQuantity := placed.product.stockQuantity - placed.quantity }

def newUser : UserRow := { placed.user with balance := placed.user.balance - placed.totalAmount }

def order (t : T) : OrderRow T := ⟨placed.userId, .created, placed.totalAmount, some t⟩

def item : OrderItemRow := ⟨placed.orderId, placed.productId, placed.quantity, placed.product.price⟩

def task : PostProcessingTaskRow T := ⟨placed.orderId, "order_confirmation", .pending, 0, none, none, none⟩

def result : CheckoutResult := ⟨placed.orderId, placed.totalAmount, placed.newProduct.stockQuantity⟩

def workspace (t : T) : Workspace Key (Row T) :=
  ((((Workspace.empty.set (.product placed.productId) ⟨some placed.product, placed.newProduct⟩).set
    (.user placed.userId) ⟨some placed.user, placed.newUser⟩).set
    (.order placed.orderId) ⟨none, placed.order t⟩).set
    (.orderItem placed.itemId) ⟨none, placed.item⟩).set
    (.postProcessingTask placed.taskId) ⟨none, placed.task⟩

structure Of (input : CheckoutInput) (quantity : ℤ) : Prop where
  product : placed.productId = input.productId
  user : placed.userId = input.userId
  quantity : placed.quantity = quantity

structure Committed (t : T) (old new : Tables T) : Prop where
  product_old : old (.product placed.productId) = some placed.product
  product : new (.product placed.productId) = some placed.newProduct
  products : ∀ id ≠ placed.productId, new (.product id) = old (.product id)
  user_old : old (.user placed.userId) = some placed.user
  user : new (.user placed.userId) = some placed.newUser
  users : ∀ id ≠ placed.userId, new (.user id) = old (.user id)
  order_old : old (.order placed.orderId) = none
  order : new (.order placed.orderId) = some (placed.order t)
  orders : ∀ id ≠ placed.orderId, new (.order id) = old (.order id)
  item_old : old (.orderItem placed.itemId) = none
  item : new (.orderItem placed.itemId) = some placed.item
  items : ∀ id ≠ placed.itemId, new (.orderItem id) = old (.orderItem id)
  task_old : old (.postProcessingTask placed.taskId) = none
  task : new (.postProcessingTask placed.taskId) = some placed.task
  tasks : ∀ id ≠ placed.taskId, new (.postProcessingTask id) = old (.postProcessingTask id)
  keys : ∀ key, new (.idempotencyKey key) = old (.idempotencyKey key)
  messages : ∀ id, new (.outboxMessage id) = old (.outboxMessage id)
  events : ∀ id, new (.outboxEventId id) = old (.outboxEventId id)

section Lookups

variable (t : T)

theorem workspace_task : placed.workspace t (.postProcessingTask placed.taskId) = some ⟨none, placed.task⟩ :=
  Workspace.set_self

theorem workspace_item : placed.workspace t (.orderItem placed.itemId) = some ⟨none, placed.item⟩ :=
  (Workspace.set_of_ne (by simp)).trans Workspace.set_self

theorem workspace_order : placed.workspace t (.order placed.orderId) = some ⟨none, placed.order t⟩ := by
  apply (Workspace.set_of_ne (by simp)).trans
  exact (Workspace.set_of_ne (by simp)).trans Workspace.set_self

theorem workspace_user :
    placed.workspace t (.user placed.userId) = some ⟨some placed.user, placed.newUser⟩ := by
  apply (Workspace.set_of_ne (by simp)).trans
  apply (Workspace.set_of_ne (by simp)).trans
  exact (Workspace.set_of_ne (by simp)).trans Workspace.set_self

theorem workspace_product :
    placed.workspace t (.product placed.productId) = some ⟨some placed.product, placed.newProduct⟩ := by
  apply (Workspace.set_of_ne (by simp)).trans
  apply (Workspace.set_of_ne (by simp)).trans
  apply (Workspace.set_of_ne (by simp)).trans
  exact (Workspace.set_of_ne (by simp)).trans Workspace.set_self

theorem workspace_none {k : Key} (hproduct : k ≠ .product placed.productId) (huser : k ≠ .user placed.userId)
    (horder : k ≠ .order placed.orderId) (hitem : k ≠ .orderItem placed.itemId)
    (htask : k ≠ .postProcessingTask placed.taskId) : placed.workspace t k = none := by
  apply (Workspace.set_of_ne htask).trans
  apply (Workspace.set_of_ne hitem).trans
  apply (Workspace.set_of_ne horder).trans
  exact (Workspace.set_of_ne huser).trans (Workspace.set_of_ne hproduct)

end Lookups

variable {placed}

theorem committed_of {t : T} {old new : Tables T} (h : (placed.workspace t).Commits old new) :
    placed.Committed t old new := by
  have hsame {k : Key} (hk : placed.workspace t k = none) : new k = old k := h.same hk
  exact
    { product_old := h.old_eq (placed.workspace_product t)
      product := h.new_eq (placed.workspace_product t)
      products := fun id hid => hsame
          (placed.workspace_none t (by simpa using hid) (by simp) (by simp) (by simp) (by simp))
      user_old := h.old_eq (placed.workspace_user t)
      user := h.new_eq (placed.workspace_user t)
      users := fun id hid => hsame (placed.workspace_none t (by simp) (by simpa using hid) (by simp) (by simp)
        (by simp))
      order_old := h.old_eq (placed.workspace_order t)
      order := h.new_eq (placed.workspace_order t)
      orders := fun id hid => hsame (placed.workspace_none t (by simp) (by simp) (by simpa using hid) (by simp)
          (by simp))
      item_old := h.old_eq (placed.workspace_item t)
      item := h.new_eq (placed.workspace_item t)
      items := fun id hid => hsame (placed.workspace_none t (by simp) (by simp) (by simp) (by simpa using hid)
          (by simp))
      task_old := h.old_eq (placed.workspace_task t)
      task := h.new_eq (placed.workspace_task t)
      tasks := fun id hid => hsame (placed.workspace_none t (by simp) (by simp) (by simp) (by simp)
          (by simpa using hid))
      keys := fun key => hsame (placed.workspace_none t (by simp) (by simp) (by simp) (by simp) (by simp))
      messages := fun id => hsame (placed.workspace_none t (by simp) (by simp) (by simp) (by simp) (by simp))
      events := fun id => hsame (placed.workspace_none t (by simp) (by simp) (by simp) (by simp) (by simp)) }

theorem committed [DecidableEq T] {t : T} {c : ℕ} {w : ShopWorld T} (hat : At t (placed.workspace t) c w) :
    placed.Committed t w.db.committed (w.db.commit t).committed :=
  committed_of hat.commits

namespace Committed

variable {t : T} {old new : Tables T} (h : placed.Committed t old new)

include h

theorem order_cases {n : ℕ} {order : OrderRow T} (hn : new (.order n) = some order) :
    old (.order n) = some order ∨ (n = placed.orderId ∧ order = placed.order t) := by
  by_cases hne : n = placed.orderId
  · subst hne
    rw [h.order] at hn
    cases hn
    exact .inr ⟨rfl, rfl⟩
  · exact .inl ((h.orders n hne).symm.trans hn)

theorem item_cases {id : ℕ} {row : OrderItemRow} (hid : new (.orderItem id) = some row) :
    old (.orderItem id) = some row ∨ (id = placed.itemId ∧ row = placed.item) := by
  by_cases hne : id = placed.itemId
  · subst hne
    rw [h.item] at hid
    cases hid
    exact .inr ⟨rfl, rfl⟩
  · exact .inl ((h.items id hne).symm.trans hid)

theorem keep_item {id : ℕ} {row : OrderItemRow} (hid : old (.orderItem id) = some row) :
    new (.orderItem id) = some row := by
  have hne : id ≠ placed.itemId := by
    rintro rfl
    rw [h.item_old] at hid
    cases hid
  exact (h.items id hne).trans hid

end Committed

end PlacedCheckout

variable {T : Type} [DecidableEq T] {A : Allowed T} {C : T → ShopWorld T → ShopWorld T → Prop}

/-- What has to be shown of `D` for a `checkout` call of `t`: `F` holds until its COMMIT, `Z` after it
and `Q` once the event is published, `B` after an error. -/
structure CheckoutRules (D : Discipline ((ShopMachine T).restrict A C)) (t : T) (F B : ShopWorld T → Prop)
    (Z Q : CheckoutResult → ShopWorld T → Prop) : Prop where
  calm : Calm D
  kept : Kept D t F
  broken : D.Stable t B
  stable : ∀ result, D.Stable t (Z result)
  published : ∀ result, D.Stable t (Q result)
  fails : ∀ {w}, D.inv w → F w → B w
  starts : ∀ {w}, D.inv w → F w →
    D.Allows t w ⟨w.db.setTxn t ⟨.inProgress, 0⟩, w.env⟩ ∧ F ⟨w.db.setTxn t ⟨.inProgress, 0⟩, w.env⟩
  aborts : ∀ {w}, D.inv w → B w → B ⟨w.db.rollback t, w.env⟩
  commits : ∀ {w r} (placed : PlacedCheckout), D.inv w → At t (placed.workspace t) 5 w → F w →
    0 < placed.quantity → placed.orderId + 1 ≤ w.db.seq .orders → placed.itemId + 1 ≤ w.db.seq .orderItems →
    A t (.sql .commit) w r ⟨w.db.commit t, w.env⟩ →
    D.Allows t w ⟨w.db.commit t, w.env⟩ ∧ (r = .ok () → Z placed.result ⟨w.db.commit t, w.env⟩) ∧
      (r = .error .database → B ⟨w.db.commit t, w.env⟩)
  publishes : ∀ result event, event.eventId = orderPlacedEventId result.orderId →
    D.Triple t (Z result) (publishOrderPlaced (.event event)) (fun _ => Q result) fun _ => B

variable {D : Discipline ((ShopMachine T).restrict A C)} {t : T} {F B : ShopWorld T → Prop}
  {Z Q : CheckoutResult → ShopWorld T → Prop}

theorem int4Parameter_spec {n : ℤ} {ws : Workspace Key (Row T)} {c : ℕ} {Y : Failure → ShopWorld T → Prop}
    (hF : Kept D t F) (hY : Fails D t F Y) :
    D.Triple t (fun w => At t ws c w ∧ F w) (int4Parameter n) (fun _ w => At t ws c w ∧ F w) Y := by
  unfold int4Parameter
  split
  · exact .pure (At.stable.and hF.stable) fun _ _ h => h
  · exact hY.throw

/-- What a checkout that finds too little stock or balance learns: `Short` of the product it asks for, `Poor`
of the user it would charge so much. `G` is what it learns of the product it takes from. -/
structure RefusalRules (D : Discipline ((ShopMachine T).restrict A C)) (t : T) (input : CheckoutInput) (quantity : ℤ)
    (F Short : ShopWorld T → Prop) (G : ProductRow → ShopWorld T → Prop) (Poor : ℤ → ShopWorld T → Prop)
    (Y : Failure → ShopWorld T → Prop) : Prop where
  short : Kept D t Short
  product : ∀ row, Kept D t (G row)
  poor : ∀ total, Kept D t (Poor total)
  lacks : ∀ {w}, D.inv w → F w →
    (∀ row, w.db.committed (.product input.productId) = some row → row.stockQuantity < quantity) → Short w
  takes : ∀ {w row}, D.inv w → F w → w.db.committed (.product input.productId) = some row → G row w
  owes : ∀ {w row}, D.inv w → F w → w.db.committed (.product input.productId) = some row →
    quantity ≤ row.stockQuantity →
    (∀ user, w.db.committed (.user input.userId) = some user → user.balance < row.price * quantity) →
    Poor (row.price * quantity) w
  refusesStock : ∀ {w}, D.inv w → F w → Short w → Y insufficientStock w
  refusesBalance : ∀ {w row}, D.inv w → F w → G row w → Poor (row.price * quantity) w → Y insufficientBalance w

theorem executeCheckout_refused_spec {Y : Failure → ShopWorld T → Prop} {Short : ShopWorld T → Prop}
    {G : ProductRow → ShopWorld T → Prop} {Poor : ℤ → ShopWorld T → Prop} (hD : Calm D) (hF : Kept D t F)
    (hY : Fails D t F Y) (input : CheckoutInput) (quantity : ℤ)
    (H : RefusalRules D t input quantity F Short G Poor Y) :
    D.Triple t (fun w => At t Workspace.empty 0 w ∧ F w) (executeCheckout t input quantity)
      (fun result w => ∃ placed : PlacedCheckout, (placed.Of input quantity ∧ result = placed.result) ∧
      At t (placed.workspace t) 5 w ∧ F w ∧ placed.orderId + 1 ≤ w.db.seq .orders ∧
      placed.itemId + 1 ≤ w.db.seq .orderItems) Y := by
  have hbegun {w : ShopWorld T} {c : ℕ} (hi : D.inv w) (hf : F w) {ws : Workspace Key (Row T)} (hat : At t ws c w) :
      D.inv ⟨w.db.setTxn t ⟨.inProgress, c + 1⟩, w.env⟩ ∧ F ⟨w.db.setTxn t ⟨.inProgress, c + 1⟩, w.env⟩ := by
    have hworks : w.db.Works t (w.db.setTxn t ⟨(w.db.txn t).status, (w.db.txn t).command + 1⟩) :=
      Database.exec_works (o := .statement) (r := w.db.snapshot t) trivial rfl
    rw [hat.txn] at hworks
    exact ⟨(hD.works hi hworks).inv, hF.works hi hf hworks⟩
  refine .bind (int4Parameter_spec hF hY) fun _ => ?_
  refine .bind (updateWhere_refused_spec hD hF hY rfl H.product H.short
    (fun w x _ hi _ hf hx _ => H.takes hi hf hx) ?_ ?_) fun updated => ?_
  · intro w hi hat hf hrows
    obtain ⟨hi', hf'⟩ := hbegun hi hf hat
    exact H.lacks hi' hf' fun row hrow => by simpa using hrows row hrow
  · intro w row hi _ hf hrow hstock
    refine H.lacks hi hf fun row' hrow' => ?_
    cases hrow.symm.trans hrow'
    simpa using hstock
  cases updated with
  | none => exact .throw (hY.stable _) fun w hi ⟨_, _, _, hf, hshort⟩ => H.refusesStock hi hf hshort
  | some product =>
    refine .exists_pre fun old => .pure_pre fun ⟨hstock, hproduct, _⟩ => ?_
    have hprice : product.price = old.price := by rw [hproduct]
    have hG := hF.and (H.product old)
    have hYG := hY.weaken fun w (h : F w ∧ G old w) => h.1
    refine .bind (int4Parameter_spec hG hYG) fun _ => ?_
    refine .bind (updateWhere_refused_spec hD hG hYG (Workspace.set_of_ne (by simp)) (G := fun _ _ => True)
      (fun _ => .const) (H.poor (product.price * quantity)) (fun _ _ _ _ _ _ _ _ => trivial) ?_ ?_) fun charged => ?_
    · intro w hi hat hf hrows
      obtain ⟨hi', hf'⟩ := hbegun hi hf.1 hat
      rw [hprice] at hrows ⊢
      exact H.owes hi' hf' (hat.committed_old Workspace.set_self) (by simpa using hstock) fun user huser => by
        simpa using hrows user huser
    · intro w user hi hat hf huser hbalance
      rw [hprice] at hbalance ⊢
      refine H.owes hi hf.1 (hat.committed_old Workspace.set_self) (by simpa using hstock) fun user' huser' => ?_
      cases huser.symm.trans huser'
      simpa using hbalance
    cases charged with
    | none =>
      refine .throw (hY.stable _) fun w hi ⟨_, _, _, hf, hpoor⟩ => H.refusesBalance hi hf.1 hf.2 ?_
      rw [hproduct] at hpoor
      exact hpoor
    | some user =>
      refine .exists_pre fun oldUser => .pure_pre fun ⟨hbalance, huser, _⟩ => ?_
      refine .pre (.bind (insertWithId_spec (n := 0) hD hF hY (fun _ _ _ => Nat.zero_le _) fun id _ => ?_)
        fun orderId => ?_) fun w _ h => ⟨h.1, h.2.1.1⟩
      · exact (Workspace.set_of_ne (by simp)).trans (Workspace.set_of_ne (by simp))
      refine .pure_pre fun _ => ?_
      have hF₁ := hF.and (.seq_le .orders (orderId + 1))
      refine .bind (insertWithId_spec (n := 0) hD hF₁ (hY.weaken fun _ h => h.1)
        (fun _ _ _ => Nat.zero_le _) fun id _ => ?_) fun itemId => ?_
      · apply (Workspace.set_of_ne (by simp)).trans
        exact (Workspace.set_of_ne (by simp)).trans (Workspace.set_of_ne (by simp))
      refine .pure_pre fun _ => ?_
      have hF₂ := hF₁.and (.seq_le .orderItems (itemId + 1))
      refine .bind (insertWithId_spec (n := 0) hD hF₂ (hY.weaken fun _ h => h.1.1)
        (fun _ _ _ => Nat.zero_le _) fun id _ => ?_) fun taskId => ?_
      · apply (Workspace.set_of_ne (by simp)).trans
        apply (Workspace.set_of_ne (by simp)).trans
        exact (Workspace.set_of_ne (by simp)).trans (Workspace.set_of_ne (by simp))
      refine .pure_pre fun _ => ?_
      simp only [decide_eq_true_eq] at hstock hbalance
      subst hproduct huser
      refine .pure (.exists fun placed => .and .const (At.stable.and (hF.stable.and
        ((Kept.seq_le _ _).stable.and (Kept.seq_le _ _).stable)))) ?_
      rintro w - ⟨hat, ⟨⟨hf, horder⟩, hitem⟩, -⟩
      exact ⟨⟨input.productId, old, input.userId, oldUser, quantity, orderId, itemId, taskId, hstock, hbalance⟩,
        ⟨⟨rfl, rfl, rfl⟩, rfl⟩, hat, hf, horder, hitem⟩

theorem RefusalRules.none {Y : Failure → ShopWorld T → Prop} {input : CheckoutInput} {quantity : ℤ}
    (hstock : ∀ {w}, D.inv w → F w → Y insufficientStock w)
    (hbalance : ∀ {w}, D.inv w → F w → Y insufficientBalance w) :
    RefusalRules D t input quantity F (fun _ => True) (fun _ _ => True) (fun _ _ => True) Y where
  short := .const
  product _ := .const
  poor _ := .const
  lacks _ _ _ := trivial
  takes _ _ _ := trivial
  owes _ _ _ _ _ := trivial
  refusesStock hi hf _ := hstock hi hf
  refusesBalance hi hf _ _ := hbalance hi hf

theorem executeCheckout_spec (H : CheckoutRules D t F B Z Q) (input : CheckoutInput) (quantity : ℤ) :
    D.Triple t (fun w => At t Workspace.empty 0 w ∧ F w) (executeCheckout t input quantity)
      (fun result w => ∃ placed : PlacedCheckout, (placed.Of input quantity ∧ result = placed.result) ∧
      At t (placed.workspace t) 5 w ∧ F w ∧ placed.orderId + 1 ≤ w.db.seq .orders ∧
      placed.itemId + 1 ≤ w.db.seq .orderItems) fun _ => B :=
  executeCheckout_refused_spec H.calm H.kept ⟨fun _ => H.broken, fun hi _ hf => H.fails hi hf⟩ input quantity
    (.none (fun hi hf => H.fails hi hf) fun hi hf => H.fails hi hf)

structure CheckoutSteps (D : Discipline ((ShopMachine T).restrict A C)) (t : T) (input : CheckoutInput)
    (F : ShopWorld T → Prop) (Y : Failure → ShopWorld T → Prop) (Z Q : CheckoutResult → ShopWorld T → Prop) : Prop where
  calm : Calm D
  kept : Kept D t F
  broken : ∀ e, D.Stable t (Y e)
  stable : ∀ result, D.Stable t (Z result)
  published : ∀ result, D.Stable t (Q result)
  fails : ∀ {w}, D.inv w → F w → Y .database w
  rejects : ∀ {w}, D.inv w → F w → Y (.error "Quantity must be a positive integer") w
  refuses : ∀ quantity, input.quantity = .integer quantity →
    ∃ Short G Poor, RefusalRules D t input quantity F Short G Poor Y
  starts : ∀ {w}, D.inv w → F w →
    D.Allows t w ⟨w.db.setTxn t ⟨.inProgress, 0⟩, w.env⟩ ∧ F ⟨w.db.setTxn t ⟨.inProgress, 0⟩, w.env⟩
  aborts : ∀ {w e}, D.inv w → Y e w → Y e ⟨w.db.rollback t, w.env⟩ ∧ Y .database ⟨w.db.rollback t, w.env⟩
  commits : ∀ {w r quantity} (placed : PlacedCheckout), input.quantity = .integer quantity →
    placed.Of input quantity → D.inv w → At t (placed.workspace t) 5 w → F w →
    0 < placed.quantity → placed.orderId + 1 ≤ w.db.seq .orders → placed.itemId + 1 ≤ w.db.seq .orderItems →
    A t (.sql .commit) w r ⟨w.db.commit t, w.env⟩ →
    D.Allows t w ⟨w.db.commit t, w.env⟩ ∧ (r = .ok () → Z placed.result ⟨w.db.commit t, w.env⟩) ∧
      (r = .error .database → Y .database ⟨w.db.commit t, w.env⟩)
  publishes : ∀ quantity result occurredAt, input.quantity = .integer quantity →
    D.Triple t (Z result) (publishOrderPlaced (.event (createOrderPlacedEvent input quantity result occurredAt)))
      (fun _ => Q result) Y

theorem checkout_steps_spec {Y : Failure → ShopWorld T → Prop} {input : CheckoutInput}
    (H : CheckoutSteps D t input F Y Z Q) :
    D.Triple t (fun w => w.db.workspace t = Workspace.empty ∧ F w) (checkout t input) Q Y := by
  have hY : Fails D t F Y := ⟨H.broken, fun hi _ hf => H.fails hi hf⟩
  unfold checkout
  split
  · exact .throw (H.broken _) fun w hi h => H.rejects hi h.2
  rename_i quantity hinput
  split
  · exact .throw (H.broken _) fun w hi h => H.rejects hi h.2
  rename_i hquantity
  refine .bind (begin_spec H.calm H.kept.stable (fun w hi hf => H.starts hi hf) (fun w hi hf => H.fails hi hf)
    H.broken) fun _ => ?_
  refine .bind (R := Z) (Discipline.Triple.handle (Y := Y) ?_ fun error => ?_) fun result => ?_
  · obtain ⟨Short, G, Poor, hrefuses⟩ := H.refuses quantity hinput
    refine .bind (executeCheckout_refused_spec H.calm H.kept hY input quantity hrefuses) fun result => ?_
    refine .exists_pre fun placed => .pure_pre ?_
    rintro ⟨hof, rfl⟩
    have hF := H.kept.and ((Kept.seq_le .orders (placed.orderId + 1)).and (.seq_le .orderItems (placed.itemId + 1)))
    refine .bind (commit_spec H.calm hF (hY.weaken fun _ h => h.1) (H.stable placed.result) ?_) fun _ =>
      .pure (H.stable placed.result) fun _ _ h => h
    intro w r hi hat hf ha
    exact H.commits placed hinput hof hi hat hf.1 (by have := hof.quantity; omega) hf.2.1 hf.2.2 ha
  · exact rollback_throw_spec H.calm (H.broken error) error H.broken fun w hi hb => H.aborts hi hb
  · refine .bind (clock_spec H.calm (H.stable result) H.broken) fun occurredAt => ?_
    refine .bind (H.publishes quantity result occurredAt hinput) fun _ => ?_
    exact .pure (H.published result) fun _ _ h => h

theorem CheckoutRules.steps (H : CheckoutRules D t F B Z Q) (input : CheckoutInput) :
    CheckoutSteps D t input F (fun _ => B) Z Q where
  calm := H.calm
  kept := H.kept
  broken _ := H.broken
  stable := H.stable
  published := H.published
  fails := H.fails
  rejects := H.fails
  refuses _ _ := ⟨_, _, _, .none (fun hi hf => H.fails hi hf) fun hi hf => H.fails hi hf⟩
  starts := H.starts
  aborts hi hb := ⟨H.aborts hi hb, H.aborts hi hb⟩
  commits placed _ _ := H.commits placed
  publishes _ result _ _ := H.publishes result _ rfl

theorem checkout_spec (H : CheckoutRules D t F B Z Q) (input : CheckoutInput) :
    D.Triple t (fun w => w.db.workspace t = Workspace.empty ∧ F w) (checkout t input) Q fun _ => B :=
  checkout_steps_spec (H.steps input)

end Marketplace
