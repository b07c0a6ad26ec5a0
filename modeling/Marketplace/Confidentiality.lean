import Marketplace.OrdersApi

namespace Marketplace

open Concurrent ReadCommitted

/-- What two databases may hide from a principal: the hidden orders, which others own, with the totals that the two
have for them, and the keys that were bound to them. -/
structure Secrets where
  principal : Option ℕ
  hidden : ℕ → Prop
  bound : String → ℕ → Prop
  total : ℕ → ℤ
  total' : ℕ → ℤ
  firstOrder : ℕ
  firstItem : ℕ
  before : ∀ n, hidden n → n < firstOrder
  fits : ∀ n, hidden n → fitsInt4 (total n) ∧ 0 ≤ total n
  fits' : ∀ n, hidden n → fitsInt4 (total' n) ∧ 0 ≤ total' n

variable {T : Type}

namespace Secrets

variable (S : Secrets)

def first : Serial → ℕ
  | .orders => S.firstOrder
  | .orderItems => S.firstItem
  | _ => 0

structure Hides (n : ℕ) (order order' : OrderRow T) : Prop where
  owner : order'.userId = order.userId
  foreign : S.principal ≠ some order.userId
  total : order.totalAmount = S.total n
  total' : order'.totalAmount = S.total' n

/-- The databases agree on everything but the hidden orders and their items. -/
def Rows : (k : Key) → Option (Row T k) → Option (Row T k) → Prop
  | .order n, r, r' => (S.hidden n → ∃ order order', r = some order ∧ r' = some order' ∧ S.Hides n order order') ∧
      (¬S.hidden n → r' = r)
  | .orderItem id, r, r' => (∀ row : OrderItemRow, ¬S.hidden row.orderId → (r = some row ↔ r' = some row)) ∧
      (S.firstItem ≤ id → r' = r)
  | .idempotencyKey key, r, r' => r' = r ∧ ∀ n, S.hidden n → (S.bound key n ↔ r = some ⟨some n⟩)
  | _, r, r' => r' = r

end Secrets

variable {S : Secrets}

section Views

-- the keys of which the two databases have the same rows
def Key.isOpen : Key → Prop
  | .order _ | .orderItem _ => False
  | _ => True

theorem rows_eq {k : Key} (hk : k.isOpen) {r r' : Option (Row T k)} (h : S.Rows k r r') : r' = r := by
  cases k with
  | order n => exact hk.elim
  | orderItem id => exact hk.elim
  | idempotencyKey key => exact h.1
  | _ => exact h

theorem present_open {k : Key} (hk : k.isOpen) : Present (S.Rows (T := T)) k := by
  intro r r' h
  rw [rows_eq hk h]

theorem present_order (n : ℕ) : Present (S.Rows (T := T)) (.order n) := by
  intro r r' h
  by_cases hn : S.hidden n
  · obtain ⟨order, order', rfl, rfl, -⟩ := h.1 hn
    simp
  · rw [h.2 hn]

theorem present_item {id : ℕ} (hid : S.firstItem ≤ id) : Present (S.Rows (T := T)) (.orderItem id) := by
  intro r r' h
  rw [h.2 hid]

variable {v v' : View T}

theorem row_eq {k : Key} (hk : k.isOpen) (hv : AlikeViews S.Rows v v') : v'.row k = v.row k := rows_eq hk (hv.rows k)

theorem order_eq {n : ℕ} (hn : ¬S.hidden n) (hv : AlikeViews S.Rows v v') : v'.row (.order n) = v.row (.order n) :=
  (hv.rows (.order n)).2 hn

theorem filter_items {r r' : Option OrderItemRow} {n : ℕ}
    (h : ∀ row : OrderItemRow, row.orderId = n → (r = some row ↔ r' = some row)) :
    (r'.filter fun row => row.orderId = n) = r.filter fun row => row.orderId = n := by
  ext row
  simp only [Option.filter_eq_some_iff, decide_eq_true_eq]
  constructor
  · rintro ⟨hrow, hn⟩
    exact ⟨(h row hn).mpr hrow, hn⟩
  · rintro ⟨hrow, hn⟩
    exact ⟨(h row hn).mp hrow, hn⟩

theorem orderItems_eq {n : ℕ} (hn : ¬S.hidden n) (hv : AlikeViews S.Rows v v') :
    View.orderItems v' n = View.orderItems v n := by
  unfold View.orderItems
  rw [hv.seq]
  congr 1
  funext id
  refine filter_items fun row hrow => (hv.rows (.orderItem id)).1 row ?_
  rw [hrow]
  exact hn

theorem firstUser_eq (hv : AlikeViews S.Rows v v') : firstUser v' = firstUser v := by
  unfold firstUser
  rw [hv.seq]
  congr 1
  funext id
  rw [row_eq (k := .user id) trivial hv]

end Views

section Shop

variable {Ext X : Type} {ExtRes : Ext → Type} [DecidableEq T] {ext : (o : Ext) → X → Except Failure (ExtRes o) × X}
  {t : T}

abbrev AtRest (S : Secrets) : World T Serial Key (Row T) X → World T Serial Key (Row T) X → Prop :=
  Resting S.Rows S.first

abbrev AtWork (S : Secrets) (t : T) : World T Serial Key (Row T) X → World T Serial Key (Row T) X → Prop :=
  Working S.Rows S.first t

-- the responses of a hidden order have its totals
def Discloses (S : Secrets) (n : ℕ) (response response' : OrderResponse) : Prop :=
  (¬S.hidden n → response' = response) ∧
  (S.hidden n → response.totalCents = S.total n ∧ response'.totalCents = S.total' n)

theorem belongsToUser_together (orderId userId : ℕ) :
    Prog.Together (stepAlone ext .database t) (AtRest S) (belongsToUser orderId userId) (belongsToUser orderId userId)
      (fun b b' w w' => (b' = b ∧ (b → S.hidden orderId → S.principal ≠ some userId)) ∧ AtRest S w w')
      (AtRest S) := by
  refine .bind statement_resting fun v v' => .pure_pre fun hv => .pure fun w w' h => ⟨?_, h⟩
  have hrow := hv.rows (.order orderId)
  by_cases hn : S.hidden orderId
  · obtain ⟨order, order', hr, hr', hides⟩ := hrow.1 hn
    simp only [hr, hr', Option.any_some, hides.owner, decide_eq_true_eq, true_and]
    rintro rfl -
    exact hides.foreign
  · exact ⟨by rw [hrow.2 hn], fun _ h => absurd h hn⟩

theorem findById_together {P : World T Serial Key (Row T) X → World T Serial Key (Row T) X → Prop}
    (hread : ∀ {C}, Prog.Together (stepAlone ext .database t) P statement statement
      (fun v v' w w' => AlikeViews S.Rows v v' ∧ P w w') C) (id : ℕ) :
    Prog.Together (stepAlone ext .database t) P (findById id) (findById id)
      (fun r r' w w' => Discloses S id r r' ∧ P w w') (fun w w' => ¬S.hidden id ∧ P w w') := by
  refine .bind hread fun v v' => .pure_pre fun hv => ?_
  by_cases hn : S.hidden id
  · obtain ⟨order, order', hr, hr', hides⟩ := (hv.rows (.order id)).1 hn
    simp only [hr, hr']
    refine .bind hread fun u u' => .pure_pre fun _ => .pure fun _ _ h => ⟨⟨fun hfalse => absurd hn hfalse,
      fun _ => ⟨hides.total, hides.total'⟩⟩, h⟩
  · simp only [order_eq hn hv]
    split
    · exact .throw fun _ _ h => ⟨hn, h⟩
    · refine .bind hread fun u u' => .pure_pre fun hu => .pure fun _ _ h => ⟨⟨fun _ => ?_,
        fun hfalse => absurd hfalse hn⟩, h⟩
      rw [orderItems_eq hn hu]

end Shop

section Create

variable {X : Type} [DecidableEq T] {t : T} {now : ℕ}

abbrev Blind (S : Secrets) (t : T) (now : ℕ) (X : Type) {α : Type} (p : ShopCall T α) : Prop :=
  Prog.Together (stepAlone (X := X) (shopAt now) .database t) (AtWork S t) p p
    (fun a a' w w' => a' = a ∧ AtWork S t w w') (AtWork S t)

theorem Blind.bind {α β : Type} {p : ShopCall T α} {f : α → ShopCall T β}
    {Q : β → β → World T Serial Key (Row T) X → World T Serial Key (Row T) X → Prop}
    {C : World T Serial Key (Row T) X → World T Serial Key (Row T) X → Prop}
    (hp : Prog.Together (stepAlone (shopAt now) .database t) (AtWork S t) p p
      (fun a a' w w' => a' = a ∧ AtWork S t w w') C)
    (hf : ∀ a, Prog.Together (stepAlone (shopAt now) .database t) (AtWork S t) (f a) (f a) Q C) :
    Prog.Together (stepAlone (shopAt now) .database t) (AtWork S t) (p.bind f) (p.bind f) Q C := by
  refine Prog.Together.bind hp fun a a' => .pure_pre ?_
  rintro rfl
  exact hf a'

theorem Blind.pure {α : Type} (a : α) : Blind S t now X (pure a : ShopCall T α) := fun _ _ h => ⟨rfl, h⟩

theorem Blind.throw {α : Type} (error : Failure) : Blind S t now X (throw error : ShopCall T α) :=
  Prog.Together.throw fun _ _ h => h

theorem clock_blind : Blind (T := T) S t now X clock := Prog.Together.perform fun _ _ h => ⟨rfl, h⟩

theorem insertReturningId_blind {q : Serial} {key : ℕ → Key} {row : (id : ℕ) → Row T (key id)}
    (hk : ∀ id, S.first q ≤ id → Present (S.Rows (T := T)) (key id))
    (hr : ∀ id, S.first q ≤ id → S.Rows (T := T) (key id) none none →
      S.Rows (T := T) (key id) (some (row id)) (some (row id))) :
    Prog.Together (stepAlone (X := X) (shopAt now) .database t) (AtWork S t) (insertReturningId q key row)
      (insertReturningId q key row) (fun id id' w w' => (id' = id ∧ S.first q ≤ id) ∧ AtWork S t w w')
      (AtWork S t) := insertWithId_together hk hr

theorem selectProduct_blind (activeOnly : Bool) (productId : JsNumber) :
    Blind (T := T) S t now X (selectProduct activeOnly productId) := by
  unfold selectProduct
  split
  · rename_i id
    split
    · refine Prog.Together.bind (Q := fun v v' w w' => AlikeViews S.Rows v v' ∧ AtWork S t w w') statement_working
        fun v v' => .pure_pre fun hv => ?_
      rw [row_eq (k := .product id.toNat) trivial hv]
      dsimp only
      generalize Option.filter _ _ = found
      cases found with
      | none => exact Blind.throw _
      | some product => exact Blind.pure _
    · exact Blind.throw _
  · exact Blind.throw _

theorem totalAmount_blind (items : List CreateOrderItemInput) (total : ℤ) :
    Blind (T := T) S t now X (totalAmount items total) := by
  induction items generalizing total with
  | nil => exact Blind.pure _
  | cons item items ih =>
    unfold totalAmount
    split
    · exact Blind.throw _
    · exact Blind.bind (selectProduct_blind true item.productId) fun product => ih _

theorem insertOrderItems_blind (orderId : ℕ) (items : List CreateOrderItemInput) :
    Blind (T := T) S t now X (insertOrderItems orderId items) := by
  induction items with
  | nil => exact Blind.pure _
  | cons item items ih =>
    refine Blind.bind (selectProduct_blind false item.productId) fun product => ?_
    split
    · refine Prog.Together.bind (insertReturningId_blind (q := .orderItems) (fun id hid => present_item hid) ?_)
        fun _ _ =>
        .pure_pre fun _ => ih
      exact fun id _ _ => ⟨fun row _ => Iff.rfl, fun _ => rfl⟩
    · exact Blind.throw _

theorem insertOrderPlacedOutbox_blind (event : OrderPlacedPayload) :
    Blind (T := T) S t now X (insertOrderPlacedOutbox event) := by
  refine Blind.bind clock_blind fun createdAt => ?_
  refine Prog.Together.bind (insertReturningId_blind (q := .outboxMessages) (fun _ _ => present_open trivial)
    fun _ _ _ => rfl) fun id id' => .pure_pre ?_
  rintro ⟨rfl, -⟩
  exact (insertOrFail_together (present_open (k := .outboxEventId event.eventId) trivial) fun _ => rfl).conseq
    (fun _ _ h => h) (fun _ _ _ _ h => ⟨rfl, h⟩) fun _ _ h => h

-- no hidden order is found under the key
def Unbound (S : Secrets) (key : String) : Prop := ∀ n, S.hidden n → storedKey key = some key → ¬S.bound key n

theorem updateKey_together {key : String} (hfree : Unbound S key) {orderId : ℕ} (hnew : ¬S.hidden orderId) :
    Prog.Together (stepAlone (X := X) (shopAt now) .database t) (AtWork S t) (updateKey key orderId)
      (updateKey key orderId) (fun _ _ => AtWork S t) (AtWork S t) := by
  unfold updateKey
  split
  · rename_i hkept
    refine .bind ((updateWhere_together (present_open (k := .idempotencyKey key) trivial) (fun _ _ _ => rfl)
      (fun _ _ _ => rfl) fun x x' _ => ⟨rfl, fun n hn => ?_⟩).conseq (fun _ _ h => h) (fun _ _ _ _ h => h.2)
      fun _ _ h => h.2) fun _ _ => .pure fun _ _ h => h
    refine ⟨fun hbound => absurd hbound (hfree n hn hkept), fun heq => ?_⟩
    cases heq
    exact absurd hn hnew
  · exact .bind statement_working fun _ _ => .pure fun _ _ h => h.2

theorem placeOrder_together {key : String} (hfree : Unbound S key) (items : List CreateOrderItemInput) :
    Prog.Together (stepAlone (X := X) (shopAt now) .database t) (AtWork S t) (placeOrder t items key)
      (placeOrder t items key) (fun r r' w w' => r' = r ∧ AtRest S w w') (AtWork S t) := by
  refine .bind statement_working fun v v' => .pure_pre fun hv => ?_
  rw [firstUser_eq hv]
  split
  · exact .throw fun _ _ h => h
  rename_i userId _
  refine Blind.bind (totalAmount_blind items 0) fun total => ?_
  have hnew : ∀ id, S.firstOrder ≤ id → ¬S.hidden id := fun id hid hn => absurd (S.before id hn) (Nat.not_lt.mpr hid)
  refine Prog.Together.bind (insertReturningId_blind (q := .orders) (fun id _ => present_order id) fun id hid _ =>
    ⟨fun hn => absurd hn (hnew id hid), fun _ => rfl⟩) fun orderId orderId' => .pure_pre ?_
  rintro ⟨rfl, hid⟩
  refine Blind.bind (insertOrderItems_blind _ items) fun _ => Blind.bind clock_blind fun occurredAt => ?_
  refine Blind.bind (insertOrderPlacedOutbox_blind _) fun _ => ?_
  refine Prog.Together.bind (updateKey_together hfree (hnew _ hid)) fun _ _ => ?_
  exact .bind commit_together fun _ _ => .pure fun _ _ h => ⟨rfl, h⟩

def Replays (S : Secrets) (key : String) (response response' : OrderResponse) : Prop :=
  (Unbound S key → response' = response) ∧
  ∀ n, S.hidden n → storedKey key = some key → S.bound key n →
    response.totalCents = S.total n ∧ response'.totalCents = S.total' n

theorem selectKeyForUpdate_together {C : World T Serial Key (Row T) X → World T Serial Key (Row T) X → Prop}
    (key : String) :
    Prog.Together (stepAlone (X := X) (shopAt now) .database t) (AtWork S t) (selectKeyForUpdate key)
      (selectKeyForUpdate key) (fun r r' w w' => (r' = r ∧ ∀ n, S.hidden n →
        (storedKey key = some key ∧ S.bound key n ↔ r = some ⟨some n⟩)) ∧ AtWork S t w w') C := by
  unfold selectKeyForUpdate
  split
  · rename_i hkept
    refine (selectForUpdate_together (present_open (k := .idempotencyKey key) trivial)).conseq (fun _ _ h => h) ?_
      fun _ _ h => h
    rintro r r' w w' ⟨⟨rfl, hbound⟩, h⟩
    exact ⟨⟨rfl, fun n hn => (and_iff_right hkept).trans (hbound n hn)⟩, h⟩
  · rename_i hcut
    exact .bind statement_working fun _ _ => .pure fun _ _ h => ⟨⟨rfl, fun n _ => by simp [hcut]⟩, h.2⟩

theorem replayOrder_together (key : String) :
    Prog.Together (stepAlone (X := X) (shopAt now) .database t) (AtWork S t) (replayOrder key) (replayOrder key)
      (fun r r' w w' => Replays S key r r' ∧ AtRest S w w') (fun w w' => Unbound S key ∧ AtWork S t w w') := by
  refine .bind (selectKeyForUpdate_together key) fun r r' => .pure_pre ?_
  rintro ⟨rfl, hbound⟩
  have hthrow (hnone : ∀ n, r' ≠ some ⟨some n⟩) :
    Prog.Together (stepAlone (X := X) (shopAt now) .database t) (AtWork S t)
      (throw keyWithoutOrder : ShopCall T OrderResponse) (throw keyWithoutOrder : ShopCall T OrderResponse)
      (fun r r' w w' => Replays S key r r' ∧ AtRest S w w') (fun w w' => Unbound S key ∧ AtWork S t w w') :=
    .throw fun _ _ h => ⟨fun n hn hkept hb => hnone n ((hbound n hn).mp ⟨hkept, hb⟩), h⟩
  rcases r' with _ | ⟨_ | orderId⟩
  · exact hthrow (by simp)
  · exact hthrow (by simp)
  · have hsame : ∀ n, S.hidden n → storedKey key = some key → S.bound key n → n = orderId := by
      intro n hn hkept hb
      have heq := (hbound n hn).mp ⟨hkept, hb⟩
      cases heq
      rfl
    refine Prog.Together.bind (Q := fun r r' w w' => Discloses S orderId r r' ∧ AtWork S t w w') ?_ fun r r' =>
      .pure_pre fun hdiscloses => .bind commit_together fun _ _ => .pure fun _ _ h => ⟨⟨fun hfree => ?_, ?_⟩, h⟩
    · refine (findById_together statement_working orderId).conseq (fun _ _ h => h) (fun _ _ _ _ h => h) ?_
      exact fun _ _ h => ⟨fun n hn hkept hb => absurd (hsame n hn hkept hb ▸ hn) h.1, h.2⟩
    · refine hdiscloses.1 fun hn => ?_
      obtain ⟨hkept, hb⟩ := (hbound orderId hn).mpr rfl
      exact hfree orderId hn hkept hb
    · intro n hn hkept hb
      obtain rfl := hsame n hn hkept hb
      exact hdiscloses.2 hn

theorem insertKey_together (key : String) :
    Prog.Together (stepAlone (X := X) (shopAt now) .database t) (AtWork S t) (insertKey key) (insertKey key)
      (fun b b' w w' => (b' = b ∧ (b = true → Unbound S key)) ∧ AtWork S t w w')
      (fun w w' => Unbound S key ∧ AtWork S t w w') := by
  unfold insertKey
  split
  · rename_i hnone
    exact .throw fun _ _ h => ⟨fun n _ hkept => absurd (hnone.symm.trans hkept) (by simp), h⟩
  rename_i stored hstored
  have hreserve : S.Rows (T := T) (.idempotencyKey stored) none none →
      S.Rows (T := T) (.idempotencyKey stored) (some ⟨none⟩) (some ⟨none⟩) := by
    exact fun h => ⟨rfl, fun n hn => ⟨fun hb => absurd ((h.2 n hn).mp hb) (by simp), fun heq => by simp at heq⟩⟩
  refine (insertOrSkip_together (present_open (k := .idempotencyKey stored) trivial) hreserve).conseq
    (fun _ _ h => h) (fun b b' _ _ h => ⟨⟨h.1.1, fun hb n hn hkept hbound => ?_⟩, h.2⟩) fun _ _ h => ?_
  · obtain rfl := Option.some.inj (hstored.symm.trans hkept)
    exact absurd (((h.1.2 hb).2 n hn).mp hbound) (by simp)
  · exact absurd h.1 (by simp [Row.valid])

theorem create_together {input : CreateOrderInput} {item : CreateOrderItemInput} {items : List CreateOrderItemInput}
    (hitems : input.items = some (item :: items)) {key : String} (hkey : isBlank key = false) :
    Prog.Together (stepAlone (X := X) (shopAt now) .database t) (AtRest S) (create t input key) (create t input key)
      (fun r r' w w' => Replays S key r r' ∧ AtRest S w w') (fun w w' => Unbound S key ∧ AtRest S w w') := by
  unfold create
  simp only [hitems, hkey, Bool.false_eq_true, if_false]
  refine .handle (.bind begin_together fun _ _ => ?_) fun error => abandon_together error
  refine .bind (insertKey_together key) fun b b' => .pure_pre ?_
  rintro ⟨rfl, hnone⟩
  split
  · rename_i hb
    refine (placeOrder_together (hnone hb) (item :: items)).conseq (fun _ _ h => h) (fun r r' _ _ h => ⟨⟨fun _ => h.1,
      ?_⟩, h.2⟩) fun _ _ h => ⟨hnone hb, h⟩
    exact fun n hn hkept hbound => absurd hbound (hnone hb n hn hkept)
  · exact replayOrder_together key

end Create

section Handlers

variable [DecidableEq T] {t : T} {now : ℕ}
  {C : EventsWorld T → EventsWorld T → Prop}

theorem memory_together (o : EventsOp) : Prog.Together (stepAlone (eventsAt t now) .database t) (AtRest S) (memory o)
    (memory o) (fun _ _ => AtRest S) C := by
  refine .perform fun w w' h => ?_
  obtain ⟨ha, hheld, hheld'⟩ := h
  have hafter : AtRest S ⟨w.db, (eventsAt t now o w.env).2⟩ ⟨w'.db, (eventsAt t now o w'.env).2⟩ := by
    refine ⟨⟨?_, ha.seq, ha.txn, ha.rows, ha.first⟩, hheld, hheld'⟩
    rw [ha.env]
  cases o with
  | _ => exact hafter

theorem setStatus_together (id : ℕ) (status : OrderStatus) :
    Prog.Together (stepAlone (eventsAt t now) .database t) (AtWork S t) (setStatus id status) (setStatus id status)
      (fun updated updated' w w' => (updated.map OrderRow.status = updated'.map OrderRow.status ∧
      (∀ order ∈ updated, order.status = status) ∧ (updated = none → ¬S.hidden id)) ∧ AtWork S t w w')
      (fun w w' => ¬S.hidden id ∧ AtWork S t w w') := by
  have hrow : ∀ x x' : OrderRow T, S.Rows (.order id) (some x) (some x') →
      (S.hidden id → S.Hides id x x') ∧ (¬S.hidden id → x' = x) := by
    refine fun x x' h => ⟨fun hn => ?_, fun hn => Option.some.inj (h.2 hn)⟩
    obtain ⟨_, _, hx, hx', hides⟩ := h.1 hn
    cases hx
    cases hx'
    exact hides
  refine (updateWhere_together (present_order id) (fun _ _ _ => rfl) (fun x x' h => ?_) fun x x' h => ?_).conseq
    (fun _ _ h => h) (fun updated updated' w w' h => ⟨?_, h.2⟩) fun w w' h => ⟨?_, h.2⟩
  · by_cases hn : S.hidden id
    · have hides := (hrow x x' h).1 hn
      have hfits := S.fits id hn
      have hfits' := S.fits' id hn
      simp only [Row.valid, hides.total, hides.total', hfits.1, hfits'.1, hfits.2, hfits'.2, decide_true]
    · rw [(hrow x x' h).2 hn]
  · refine ⟨fun hn => ?_, fun hn => by rw [(hrow x x' h).2 hn]⟩
    have hides := (hrow x x' h).1 hn
    exact ⟨_, _, rfl, rfl, hides.owner, hides.foreign, hides.total, hides.total'⟩
  · cases h.1 with
    | missing hnone =>
      refine ⟨rfl, by simp, fun _ hn => ?_⟩
      obtain ⟨_, _, hx, -⟩ := hnone.1 hn
      cases hx
    | skipped _ hp => cases hp
    | set hx _ => exact ⟨rfl, by simp, by simp⟩
  · obtain ⟨⟨x, x', hx, hinvalid⟩, -⟩ := h
    intro hn
    have hides := (hrow x x' hx).1 hn
    have hfits := S.fits id hn
    simp [Row.valid, hides.total, hfits.1, hfits.2] at hinvalid

theorem updateStatus_together (id : ℕ) (status : String) :
    Prog.Together (stepAlone (eventsAt t now) .database t) (AtRest S)
      (updateStatus (fun orderId status => memory (.emitStatusChanged orderId status)) id status)
      (updateStatus (fun orderId status => memory (.emitStatusChanged orderId status)) id status)
      (fun r r' w w' => (orderStatus? status ≠ none ∧ Discloses S id r r') ∧ AtRest S w w')
      (fun w w' => (orderStatus? status ≠ none → ¬S.hidden id) ∧ AtRest S w w') := by
  unfold updateStatus
  split
  · rename_i hnone
    exact .throw fun _ _ h => ⟨fun hstatus => absurd hnone hstatus, h⟩
  rename_i status' hstatus
  have hfound : orderStatus? status ≠ none := by simp [hstatus]
  refine .bind ((autocommit_together (setStatus_together id status')).conseq (fun _ _ h => h) (fun _ _ _ _ h => h)
    fun _ _ h => ⟨fun _ => h.1, h.2⟩) fun updated updated' => .pure_pre ?_
  rintro ⟨hsame, hstatus', hnone⟩
  cases updated with
  | none =>
    obtain rfl : updated' = none := by simpa using hsame.symm
    exact .throw fun _ _ h => ⟨fun _ => hnone rfl, h⟩
  | some order =>
    obtain ⟨order', rfl, horder⟩ := Option.map_eq_some_iff.mp hsame.symm
    dsimp only
    rw [horder, hstatus' order rfl]
    refine .bind (memory_together _) fun _ _ => ?_
    exact (findById_together statement_resting id).conseq (fun _ _ h => h) (fun _ _ _ _ h => ⟨⟨hfound, h.1⟩, h.2⟩)
      fun _ _ h => ⟨fun _ => h.1, h.2⟩

theorem bigintParameter_together {Ext X : Type} {ExtRes : Ext → Type}
    {ext : (o : Ext) → X → Except Failure (ExtRes o) × X} (n : JsNumber) :
    Prog.Together (stepAlone (T := T) ext .database t) (AtRest S) (bigintParameter n)
        (bigintParameter n)
      (fun a a' w w' => (a' = a ∧ n = .integer a) ∧ AtRest S w w') (AtRest S) := by
  unfold bigintParameter
  split
  · split
    · exact .pure fun _ _ h => ⟨⟨rfl, rfl⟩, h⟩
    · exact .throw fun _ _ h => h
  · exact .throw fun _ _ h => h

theorem numbersBelong_together {Ext X : Type} {ExtRes : Ext → Type}
    {ext : (o : Ext) → X → Except Failure (ExtRes o) × X} (orderId userId : JsNumber) :
    Prog.Together (stepAlone (T := T) ext .database t) (AtRest S) (numbersBelong orderId userId)
      (numbersBelong orderId userId) (fun b b' w w' => (b' = b ∧ (b → ∃ n u : ℕ, orderId = .integer n ∧
        userId = .integer u ∧ (S.hidden n → S.principal ≠ some u))) ∧ AtRest S w w') (AtRest S) := by
  refine .bind (bigintParameter_together orderId) fun n n' => .pure_pre ?_
  rintro ⟨rfl, hn⟩
  refine .bind (bigintParameter_together userId) fun u u' => .pure_pre ?_
  rintro ⟨rfl, hu⟩
  split
  · exact .pure fun _ _ h => ⟨⟨rfl, by simp⟩, h⟩
  · rename_i hpos
    have hn' : ((n'.toNat : ℕ) : ℤ) = n' := Int.toNat_of_nonneg (by omega)
    have hu' : ((u'.toNat : ℕ) : ℤ) = u' := Int.toNat_of_nonneg (by omega)
    refine (belongsToUser_together n'.toNat u'.toNat).conseq (fun _ _ h => h) (fun b b' _ _ h => ⟨⟨h.1.1, fun hb => ?_⟩,
      h.2⟩) fun _ _ h => h
    exact ⟨n'.toNat, u'.toNat, by rw [hn, hn'], by rw [hu, hu'], h.1.2 hb⟩

theorem canActivate_together (crypto : AuthCrypto) (authorization : Option String) :
    Prog.Together (stepAlone (eventsAt t now) .database t) (AtRest S)
      (AuthGuard.canActivate crypto now authorization) (AuthGuard.canActivate crypto now authorization)
      (fun user user' w w' => (user' = user ∧ ∃ token, bearerToken authorization = some token ∧
      crypto.verifyAccessToken (now / 1000) token = some user) ∧ AtRest S w w') (AtRest S) := by
  unfold AuthGuard.canActivate AuthGuard.canActivateAt
  split
  · exact .throw fun _ _ h => h
  rename_i token htoken
  split
  · exact .throw fun _ _ h => h
  rename_i payload hpayload
  refine .bind (Q := fun denied denied' w w' => denied' = denied ∧ AtRest S w w') ?_ fun denied denied' => .pure_pre ?_
  · refine .bind statement_resting fun v v' => .pure_pre fun hv => .pure fun _ _ h => ⟨?_, h⟩
    rw [row_eq (k := .accessTokenDenylist payload.jti) trivial hv]
  · rintro rfl
    split
    · exact .throw fun _ _ h => h
    · exact .pure fun _ _ h => ⟨⟨rfl, token, htoken, hpayload⟩, h⟩

/-- The request changes order `n` or replays it, and is answered with it. -/
def OrdersRequest.AsksFor (bound : String → ℕ → Prop) (n : ℕ) : OrdersRequest → Prop
  | .updateOrderStatus id status => id = n ∧ orderStatus? status ≠ none
  | .createOrder (some key) body => isBlank key = false ∧ (∃ item items, body.items = some (item :: items)) ∧
    storedKey key = some key ∧ bound key n
  | _ => False

-- whoever sends the GET request, its token is one of the principal's
def OwnToken (crypto : AuthCrypto) (principal : Option ℕ) (now : ℕ) : OrdersRequest → Prop
  | .getOrderById _ authorization => ∀ token payload, bearerToken authorization = some token →
    crypto.verifyAccessToken (now / 1000) token = some payload →
      ∃ userId : ℕ, principal = some userId ∧ jsNumber payload.sub = .integer userId
  | _ => True

structure Answers (S : Secrets) (request : OrdersRequest) (own : Prop) (reply reply' : Reply) : Prop where
  same : own → (∀ n, S.hidden n → ¬request.AsksFor S.bound n) → reply' = reply
  differ : ∀ n, S.hidden n → request.AsksFor S.bound n → ∃ response response', reply = .order response ∧
    reply' = .order response' ∧ response.totalCents = S.total n ∧ response'.totalCents = S.total' n

def Harmless (S : Secrets) (request : OrdersRequest) : Prop := ∀ n, S.hidden n → ¬request.AsksFor S.bound n

theorem answers_same {request : OrdersRequest} {own : Prop} (hharmless : Harmless S request) {reply reply' : Reply}
    (h : own → reply' = reply) : Answers S request own reply reply' :=
  ⟨fun hown _ => h hown, fun n hn hasks => absurd hasks (hharmless n hn)⟩

theorem getOrderById_together (crypto : AuthCrypto) (id : ℕ) (authorization : Option String) :
    Prog.Together (stepAlone (eventsAt t now) .database t) (AtRest S)
      (OrdersController.getOrderById crypto now id authorization)
      (OrdersController.getOrderById crypto now id authorization)
      (fun r r' w w' => Answers S (.getOrderById id authorization)
      (OwnToken crypto S.principal now (.getOrderById id authorization)) r r' ∧ AtRest S w w') (AtRest S) := by
  have hharmless : Harmless S (.getOrderById id authorization) := fun _ _ h => h
  have hsame {reply reply' : Reply} (h : OwnToken crypto S.principal now (.getOrderById id authorization) →
      reply' = reply) : Answers S (.getOrderById id authorization)
      (OwnToken crypto S.principal now (.getOrderById id authorization)) reply reply' :=
    answers_same hharmless h
  refine .bind (canActivate_together crypto authorization) fun user user' => .pure_pre ?_
  rintro ⟨rfl, token, htoken, hpayload⟩
  refine .bind (numbersBelong_together _ _) fun b b' => .pure_pre ?_
  rintro ⟨rfl, hforeign⟩
  split
  · rename_i hb
    obtain ⟨n, u, hn, hu, hforeign⟩ := hforeign hb
    refine .bind ((findById_together statement_resting id).conseq (fun _ _ h => h) (fun _ _ _ _ h => h)
      fun _ _ h => h.2)
      fun r r' => .pure_pre fun hdiscloses => .pure fun _ _ h => ⟨hsame fun hown => ?_, h⟩
    obtain ⟨userId, hprincipal, hsub⟩ := hown token user' htoken hpayload
    cases hn
    cases hsub.symm.trans hu
    rw [hdiscloses.1 fun hhidden => hforeign hhidden hprincipal]
  · exact .pure fun _ _ h => ⟨hsame fun _ => rfl, h⟩

theorem streamOrderEvents_together (id : ℕ) (header : Option String) :
    Prog.Together (stepAlone (eventsAt t now) .database t) (AtRest S) (OrdersController.streamOrderEvents id header)
      (OrdersController.streamOrderEvents id header) (fun r r' w w' => r' = r ∧ AtRest S w w') (AtRest S) := by
  refine .bind ((findById_together statement_resting id).conseq (fun _ _ h => h) (fun _ _ _ _ h => h.2)
    fun _ _ h => h.2)
    fun _ _ => ?_
  exact .bind (memory_together _) fun _ _ => .pure fun _ _ h => ⟨rfl, h⟩

theorem joinOrderRoom_together (userId orderId : JsNumber) :
    Prog.Together (stepAlone (eventsAt t now) .database t) (AtRest S) (OrdersGateway.joinOrderRoom userId orderId)
      (OrdersGateway.joinOrderRoom userId orderId) (fun r r' w w' => r' = r ∧ AtRest S w w') (AtRest S) := by
  have hpure (reply : Reply) : Prog.Together (stepAlone (eventsAt t now) .database t) (AtRest S)
      (pure reply : EventsCall T Reply) (pure reply : EventsCall T Reply)
      (fun r r' w w' => r' = r ∧ AtRest S w w') (AtRest S) := .pure fun _ _ h => ⟨rfl, h⟩
  unfold OrdersGateway.joinOrderRoom
  split
  · split
    · exact hpure _
    · split
      · refine .bind (numbersBelong_together _ _) fun b b' => .pure_pre ?_
        rintro ⟨rfl, -⟩
        split
        · exact .bind (memory_together _) fun _ _ => hpure _
        · exact hpure _
      · exact hpure _
  · exact hpure _

theorem updateOrderStatus_together (id : ℕ) (status : String) :
    Prog.Together (stepAlone (eventsAt t now) .database t) (AtRest S) (OrdersController.updateOrderStatus id status)
      (OrdersController.updateOrderStatus id status)
      (fun r r' w w' => Answers S (.updateOrderStatus id status) True r r' ∧ AtRest S w w')
      (fun w w' => Harmless S (.updateOrderStatus id status) ∧ AtRest S w w') := by
  refine .bind ((updateStatus_together id status).conseq (fun _ _ h => h) (fun _ _ _ _ h => h) fun _ _ h => ⟨?_, h.2⟩)
    fun r r' => .pure_pre ?_
  · rintro n hn ⟨rfl, hstatus⟩
    exact h.1 hstatus hn
  · rintro ⟨hstatus, hdiscloses⟩
    refine .pure fun _ _ h => ⟨⟨fun _ hharmless => ?_, ?_⟩, h⟩
    · rw [hdiscloses.1 fun hn => hharmless id hn ⟨rfl, hstatus⟩]
    · rintro n hn ⟨rfl, -⟩
      obtain ⟨htotal, htotal'⟩ := hdiscloses.2 hn
      exact ⟨r, r', rfl, rfl, htotal, htotal'⟩

theorem createOrder_together {X : Type} (idempotencyKey : Option String) (body : CreateOrderInput) :
    Prog.Together (stepAlone (X := X) (shopAt now) .database t) (AtRest S)
        (OrdersController.createOrder t idempotencyKey body)
      (OrdersController.createOrder t idempotencyKey body)
      (fun r r' w w' => Answers S (.createOrder idempotencyKey body) True r r' ∧ AtRest S w w')
      (fun w w' => Harmless S (.createOrder idempotencyKey body) ∧ AtRest S w w') := by
  have hthrow (hharmless : Harmless S (.createOrder idempotencyKey body)) {α : Type} (error : Failure)
      {Q : α → α → World T Serial Key (Row T) X → World T Serial Key (Row T) X → Prop} :
      Prog.Together (stepAlone (X := X) (shopAt now) .database t) (AtRest S) (throw error : ShopCall T α)
        (throw error : ShopCall T α) Q fun w w' => Harmless S (.createOrder idempotencyKey body) ∧ AtRest S w w' :=
    .throw fun _ _ h => ⟨hharmless, h⟩
  unfold OrdersController.createOrder
  split
  · exact hthrow (fun _ _ h => h) _
  · exact hthrow (fun _ _ h => absurd h.1 (by decide)) _
  rename_i key _
  refine .bind (Q := fun r r' w w' => Answers S (.createOrder (some key) body) True (.order r) (.order r') ∧
    AtRest S w w') ?_ fun r r' => .pure fun _ _ h => h
  cases hblank : isBlank key with
  | true =>
    have hharmless : Harmless S (.createOrder (some key) body) := fun _ _ h => absurd (hblank.symm.trans h.1) (by simp)
    unfold create
    split
    · exact hthrow hharmless _
    · exact hthrow hharmless _
    · rw [if_pos hblank]
      exact hthrow hharmless _
  | false =>
    rcases hitems : body.items with _ | _ | ⟨item, items⟩
    · unfold create
      simp only [hitems]
      refine hthrow ?_ _
      rintro n hn ⟨-, ⟨item, items, h⟩, -⟩
      exact absurd (hitems.symm.trans h) (by simp)
    · unfold create
      simp only [hitems]
      refine hthrow ?_ _
      rintro n hn ⟨-, ⟨item, items, h⟩, -⟩
      exact absurd (hitems.symm.trans h) (by simp)
    · refine (create_together hitems hblank).conseq (fun _ _ h => h) (fun r r' _ _ h => ⟨⟨fun _ hharmless => ?_, ?_⟩,
        h.2⟩) fun _ _ h => ⟨fun n hn hasks => h.1 n hn hasks.2.2.1 hasks.2.2.2, h.2⟩
      · rw [h.1.1 fun n hn hkept hbound => hharmless n hn ⟨hblank, ⟨item, items, hitems⟩, hkept, hbound⟩]
      · rintro n hn ⟨-, -, hkept, hbound⟩
        obtain ⟨htotal, htotal'⟩ := h.1.2 n hn hkept hbound
        exact ⟨r, r', rfl, rfl, htotal, htotal'⟩

structure ServedAlike (S : Secrets) (request : OrdersRequest) (own : Prop)
    (x x' : Except Failure Reply × EventsWorld T) : Prop where
  rest : AtRest S x.2 x'.2
  same : own → Harmless S request → x'.1 = x.1
  differ : ∀ n, S.hidden n → request.AsksFor S.bound n → S.total n ≠ S.total' n → x'.1 ≠ x.1

omit [DecidableEq T] in
theorem served_of_agree {request : OrdersRequest} {own : Prop} {x x' : Except Failure Reply × EventsWorld T}
    (h : Prog.Agree (fun r r' w w' => Answers S request own r r' ∧ AtRest S w w')
      (fun w w' => Harmless S request ∧ AtRest S w w') x x') : ServedAlike S request own x x' := by
  obtain ⟨r, w⟩ := x
  obtain ⟨r', w'⟩ := x'
  cases r with
  | error error =>
    cases r' with
    | ok reply' => exact h.elim
    | error error' =>
      obtain ⟨rfl, hharmless, hrest⟩ := h
      exact ⟨hrest, fun _ _ => rfl, fun n hn hasks => absurd hasks (hharmless n hn)⟩
  | ok reply =>
    cases r' with
    | error error' => exact h.elim
    | ok reply' =>
      obtain ⟨hanswers, hrest⟩ := h
      refine ⟨hrest, fun hown hharmless => congrArg Except.ok (hanswers.same hown hharmless), ?_⟩
      rintro n hn hasks hne heq
      obtain ⟨response, response', rfl, rfl, htotal, htotal'⟩ := hanswers.differ n hn hasks
      cases heq
      exact hne (htotal.symm.trans htotal')

theorem serve_served (crypto : AuthCrypto) (sent : SentRequest T) {w w' : EventsWorld T} (h : AtRest S w w') :
    ServedAlike S sent.request (OwnToken crypto S.principal sent.now sent.request) (sent.serve crypto w)
      (sent.serve crypto w') := by
  have hread {request : OrdersRequest} {own : Prop} (hharmless : Harmless S request)
    {x x' : Except Failure Reply × EventsWorld T}
      (hagree : Prog.Agree (fun r r' w w' => r' = r ∧ AtRest S w w') (AtRest S) x x') :
          ServedAlike S request own x x' :=
    served_of_agree (hagree.conseq (fun _ _ _ _ h => ⟨answers_same hharmless fun _ => h.1, h.2⟩)
      fun _ _ h => ⟨hharmless, h⟩)
  obtain ⟨t, own, request, now⟩ := sent
  cases request with
  | getOrderById id authorization =>
    exact served_of_agree ((getOrderById_together crypto id authorization w w' h).conseq (fun _ _ _ _ h => h)
      fun _ _ h => ⟨fun _ _ h => h, h⟩)
  | streamOrderEvents id header => exact hread (by exact fun _ _ h => h) (streamOrderEvents_together id header w w' h)
  | updateOrderStatus id status => exact served_of_agree (updateOrderStatus_together id status w w' h)
  | createOrder idempotencyKey body => exact served_of_agree (createOrder_together idempotencyKey body w w' h)
  | join userId orderId => exact hread (by exact fun _ _ h => h) (joinOrderRoom_together userId orderId w w' h)

structure AllServedAlike (S : Secrets) (requests : List (SentRequest T))
    (x x' : List (Except Failure Reply) × EventsWorld T) : Prop where
  rest : AtRest S x.2 x'.2
  same : (∀ sent ∈ requests, sent.own → Harmless S sent.request) → x'.1 = x.1
  differ : ∀ sent ∈ requests, sent.own → ∀ n, S.hidden n → sent.request.AsksFor S.bound n →
    S.total n ≠ S.total' n → x'.1 ≠ x.1

theorem serveAll_served (crypto : AuthCrypto) {requests : List (SentRequest T)}
    (hown : ∀ sent ∈ requests, sent.own → OwnToken crypto S.principal sent.now sent.request) {w w' : EventsWorld T}
    (h : AtRest S w w') : AllServedAlike S requests (serveAll crypto requests w) (serveAll crypto requests w') := by
  induction requests generalizing w w' with
  | nil => exact ⟨h, fun _ => rfl, by simp⟩
  | cons first rest ih =>
    have hfirst := serve_served crypto first h
    have hrest := ih (fun sent hsent => hown sent (List.mem_cons_of_mem _ hsent)) hfirst.rest
    refine ⟨hrest.rest, fun hharmless => ?_, fun sent hsent hmine n hn hasks hne heq => ?_⟩
    · have htail := hrest.same fun sent hsent => hharmless sent (List.mem_cons_of_mem _ hsent)
      by_cases hmine : first.own
      · have hhead := hfirst.same (hown first (List.mem_cons_self ..) hmine)
          (hharmless first (List.mem_cons_self ..) hmine)
        simp only [serveAll, hmine, if_true, htail, hhead]
      · simp only [serveAll, hmine, Bool.false_eq_true, if_false, htail]
    · rcases List.mem_cons.mp hsent with rfl | hsent
      · simp only [serveAll, hmine, if_true, List.cons.injEq] at heq
        exact hfirst.differ n hn hasks hne heq.1
      · apply hrest.differ sent hsent hmine n hn hasks hne
        by_cases hmine' : first.own
        · simp only [serveAll, hmine', if_true, List.cons.injEq] at heq
          exact heq.2
        · simp only [serveAll, hmine', Bool.false_eq_true, if_false] at heq
          exact heq

end Handlers

section Databases

/-- No transaction is open, the rows of the orders meet their constraints and the ids are behind the sequences. -/
structure Stored (w : EventsWorld T) : Prop where
  idle : ∀ k, w.db.held k = none
  orders : ∀ n order, w.db.committed (.order n) = some order → n < w.db.seq .orders ∧ Row.valid (.order n) order
  items : ∀ id item, w.db.committed (.orderItem id) = some item → id < w.db.seq .orderItems

/-- Somebody else owns order `n`. Nobody owns an order if there is no user behind the principal. -/
def Foreign (principal : Option ℕ) (w : EventsWorld T) (n : ℕ) : Prop :=
  ∃ order, w.db.committed (.order n) = some order ∧ principal ≠ some order.userId

/-- The states differ at most in the status, the total and the items of orders that others own. -/
structure ForeignOrdersDiffer (principal : Option ℕ) (w w' : EventsWorld T) : Prop where
  env : w'.env = w.env
  seq : w'.db.seq = w.db.seq
  txn : w'.db.txn = w.db.txn
  others : ∀ k : Key, k.isOpen → w'.db.committed k = w.db.committed k
  orders : ∀ n, w'.db.committed (.order n) = w.db.committed (.order n) ∨ ∃ order order',
    w.db.committed (.order n) = some order ∧ w'.db.committed (.order n) = some order' ∧
    order'.userId = order.userId ∧ principal ≠ some order.userId
  items : ∀ id item, ¬Foreign principal w item.orderId →
    (w.db.committed (.orderItem id) = some item ↔ w'.db.committed (.orderItem id) = some item)

def boundKey (w : EventsWorld T) (key : String) (n : ℕ) : Prop :=
  w.db.committed (.idempotencyKey key) = some ⟨some n⟩

def committedTotal (w : EventsWorld T) (n : ℕ) : ℤ := (w.db.committed (.order n)).elim 0 fun order => order.totalAmount

variable {principal : Option ℕ} {w w' : EventsWorld T}

theorem ForeignOrdersDiffer.order (h : ForeignOrdersDiffer principal w w') {n : ℕ} {order : OrderRow T}
    (hn : w.db.committed (.order n) = some order) :
    ∃ order', w'.db.committed (.order n) = some order' ∧ order'.userId = order.userId := by
  rcases h.orders n with heq | ⟨old, order', hold, horder', huser, -⟩
  · exact ⟨order, heq.trans hn, rfl⟩
  · cases hold.symm.trans hn
    exact ⟨order', horder', huser⟩

theorem Stored.fits (hw : Stored w) {n : ℕ} {order : OrderRow T} (hn : w.db.committed (.order n) = some order) :
    fitsInt4 (committedTotal w n) ∧ 0 ≤ committedTotal w n := by
  have hvalid := (hw.orders n order hn).2
  simp only [Row.valid, Bool.and_eq_true, decide_eq_true_eq] at hvalid
  simpa only [committedTotal, hn, Option.elim_some] using hvalid

def secretsOf (hw : Stored w) (hw' : Stored w') (h : ForeignOrdersDiffer principal w w') : Secrets where
  principal := principal
  hidden := Foreign principal w
  bound := boundKey w
  total := committedTotal w
  total' := committedTotal w'
  firstOrder := w.db.seq .orders
  firstItem := w.db.seq .orderItems
  before := fun n ⟨order, hn, _⟩ => (hw.orders n order hn).1
  fits := fun _ ⟨_, hn, _⟩ => hw.fits hn
  fits' := fun _ ⟨_, hn, _⟩ => hw'.fits (h.order hn).choose_spec.1

theorem atRest_of_stored (hw : Stored w) (hw' : Stored w') (h : ForeignOrdersDiffer principal w w') :
    AtRest (secretsOf hw hw' h) w w' := by
  refine ⟨⟨h.env, h.seq, h.txn, fun k => ?_, fun q => ?_⟩, hw.idle, hw'.idle⟩
  · cases k with
    | order n =>
      refine ⟨?_, fun hn => ?_⟩
      · rintro ⟨order, horder, hforeign⟩
        obtain ⟨order', horder', huser⟩ := h.order horder
        refine ⟨order, order', horder, horder', huser, hforeign, ?_, ?_⟩
        · simp [secretsOf, committedTotal, horder]
        · simp [secretsOf, committedTotal, horder']
      · rcases h.orders n with heq | ⟨order, order', horder, -, -, hforeign⟩
        · exact heq
        · exact absurd ⟨order, horder, hforeign⟩ hn
    | orderItem id =>
      refine ⟨fun item hitem => h.items id item hitem, fun hid => ?_⟩
      have hnone : w.db.committed (.orderItem id) = none :=
        Option.eq_none_iff_forall_ne_some.mpr fun item hitem => absurd (hw.items id item hitem) (Nat.not_lt.mpr hid)
      have hnone' : w'.db.committed (.orderItem id) = none :=
        Option.eq_none_iff_forall_ne_some.mpr fun item hitem => by
          have hlt := hw'.items id item hitem
          rw [h.seq] at hlt
          exact absurd hlt (Nat.not_lt.mpr hid)
      rw [hnone, hnone']
    | idempotencyKey key => exact ⟨h.others _ trivial, fun n _ => Iff.rfl⟩
    | _ => exact h.others _ trivial
  · cases q with
    | orders => exact Nat.le_refl _
    | orderItems => exact Nat.le_refl _
    | _ => exact Nat.zero_le _

variable [DecidableEq T]

def withTotal (w : EventsWorld T) (n : ℕ) (order : OrderRow T) (total : ℤ) : EventsWorld T :=
  ⟨{ w.db with committed := Function.update w.db.committed (.order n) (some { order with totalAmount := total }) },
      w.env⟩

omit [DecidableEq T] in
theorem withTotal_stored (hw : Stored w) {n : ℕ} {order : OrderRow T} (hn : w.db.committed (.order n) = some order)
    {total : ℤ} (htotal : fitsInt4 total ∧ 0 ≤ total) : Stored (withTotal w n order total) := by
  refine ⟨hw.idle, fun m order' hm => ?_, fun id item hitem => ?_⟩
  · by_cases hmn : m = n
    · subst hmn
      simp only [withTotal, Function.update_self, Option.some.injEq] at hm
      subst hm
      exact ⟨(hw.orders m order hn).1, by simpa [Row.valid] using htotal⟩
    · simp only [withTotal] at hm
      rw [Function.update_of_ne (by simpa using hmn)] at hm
      exact hw.orders m order' hm
  · simp only [withTotal] at hitem
    rw [Function.update_of_ne (by simp)] at hitem
    exact hw.items id item hitem

omit [DecidableEq T] in
theorem withTotal_differs {n : ℕ} {order : OrderRow T} (hn : w.db.committed (.order n) = some order)
    (hforeign : principal ≠ some order.userId) (total : ℤ) :
    ForeignOrdersDiffer principal w (withTotal w n order total) := by
  refine ⟨rfl, rfl, rfl, fun k hk => ?_, fun m => ?_, fun id item _ => ?_⟩
  · refine Function.update_of_ne ?_ _ _
    rintro rfl
    exact hk
  · by_cases hmn : m = n
    · subst hmn
      exact .inr ⟨order, _, hn, Function.update_self .., rfl, hforeign⟩
    · exact .inl (Function.update_of_ne (by simpa using hmn) _ _)
  · simp only [withTotal]
    rw [Function.update_of_ne (by simp)]

end Databases

/-- A principal learns of the orders of others exactly if it changes the status of one, or sends a key that is
bound to one: any other request is answered alike, whatever the totals, the items and the status are. -/
theorem foreign_orders_confidential [DecidableEq T] (crypto : AuthCrypto) (principal : Option ℕ)
    {requests : List (SentRequest T)}
    (hown : ∀ sent ∈ requests, sent.own → OwnToken crypto principal sent.now sent.request) {w : EventsWorld T}
    (hw : Stored w) :
    (∀ w', Stored w' → ForeignOrdersDiffer principal w w' → observed crypto requests w' = observed crypto requests w) ↔
    ∀ sent ∈ requests, sent.own → ∀ n, Foreign principal w n → ¬sent.request.AsksFor (boundKey w) n := by
  constructor
  · rintro hsame sent hsent hmine n ⟨order, hn, hforeign⟩ hasks
    have htotal : ∃ total : ℤ, total ≠ order.totalAmount ∧ fitsInt4 total ∧ 0 ≤ total := by
      by_cases hzero : order.totalAmount = 0
      · exact ⟨1, by omega, by decide, by decide⟩
      · exact ⟨0, by omega, by decide, by decide⟩
    obtain ⟨total, hne, hfits⟩ := htotal
    have hw' := withTotal_stored hw hn hfits
    have hdiffer := withTotal_differs hn hforeign total
    have hserved := serveAll_served (S := secretsOf hw hw' hdiffer) crypto hown (atRest_of_stored hw hw' hdiffer)
    have hseen := hsame _ hw' hdiffer
    simp only [observed, Prod.mk.injEq] at hseen
    refine hserved.differ sent hsent hmine n ⟨order, hn, hforeign⟩ hasks ?_ hseen.1
    simp only [secretsOf, committedTotal, hn, withTotal, Function.update_self]
    exact hne.symm
  · intro hharmless w' hw' hdiffer
    have hserved := serveAll_served (S := secretsOf hw hw' hdiffer) crypto hown (atRest_of_stored hw hw' hdiffer)
    unfold observed
    simp only [hserved.same fun sent hsent hmine n hn => hharmless sent hsent hmine n hn, hserved.rest.1.env]

section Runs

def annaPayload : JwtPayload := ⟨some "1", some "buyer", some "anna-jti", some "anna-family", none⟩

def annaCrypto : AuthCrypto where
  scrypt _ _ _ := []
  hmacSha256 _ text := text
  refreshTokenPepper := ""
  sign _ := ""
  verify _ token := if token = "anna" then some annaPayload else none

def twoOrders (total : ℤ) : Tables ℕ
  | .user 1 => some ⟨"anna@example.com", none, .buyer, 1000⟩
  | .user 2 => some ⟨"maria@example.com", none, .buyer, 1000⟩
  | .order 1 => some ⟨1, .created, 300, none⟩
  | .order 2 => some ⟨2, .created, total, none⟩
  | _ => none

def twoOwners (total : ℤ) : EventsWorld ℕ :=
  ⟨⟨twoOrders total, fun _ => none, fun _ => 3, fun _ => ⟨.idle, 0⟩⟩, .start⟩

theorem twoOwners_stored {total : ℤ} (h : fitsInt4 total ∧ 0 ≤ total) : Stored (twoOwners total) := by
  refine ⟨fun _ => rfl, fun n order hn => ?_, fun id item hitem => by cases hitem⟩
  rcases n with _ | _ | _ | n
  · cases hn
  · cases hn
    exact ⟨by simp [twoOwners], by decide⟩
  · cases hn
    exact ⟨by simp [twoOwners], by simpa [Row.valid] using h⟩
  · cases hn

def annaRequests : List (SentRequest ℕ) :=
  [⟨0, true, .getOrderById 2 (some "Bearer anna"), 1000⟩, ⟨1, true, .streamOrderEvents 2 none, 2000⟩,
    ⟨2, true, .join (.integer 2) (.integer 2), 3000⟩, ⟨3, true, .updateOrderStatus 1 "paid", 4000⟩,
    ⟨4, false, .updateOrderStatus 2 "shipped", 5000⟩]

theorem annaRequests_own : ∀ sent ∈ annaRequests, sent.own → OwnToken annaCrypto (some 1) sent.now sent.request := by
  intro sent hsent _
  simp only [annaRequests, List.mem_cons, List.not_mem_nil, or_false] at hsent
  rcases hsent with rfl | rfl | rfl | rfl | rfl
  · intro token payload htoken hpayload
    have hanna : bearerToken (some "Bearer anna") = some "anna" := by decide
    cases hanna.symm.trans htoken
    have hverified : annaCrypto.verifyAccessToken (1000 / 1000) "anna" =
        some ⟨"1", .buyer, "anna-jti", "anna-family", none⟩ := by decide
    cases hverified.symm.trans hpayload
    exact ⟨1, rfl, by decide⟩
  all_goals trivial

theorem twoOwners_differ {principal : Option ℕ} (h : principal ≠ some 2) :
    ForeignOrdersDiffer principal (twoOwners 100) (twoOwners 200) := by
  refine ⟨rfl, rfl, rfl, fun k hk => ?_, fun n => ?_, fun _ _ _ => Iff.rfl⟩
  · cases k with
    | order n => exact hk.elim
    | orderItem id => exact hk.elim
    | user id => rcases id with _ | _ | _ | id <;> rfl
    | _ => rfl
  · rcases n with _ | _ | _ | n
    · exact .inl rfl
    · exact .inl rfl
    · exact .inr ⟨_, _, rfl, rfl, rfl, h⟩
    · exact .inl rfl

theorem foreign_orders_confidential_anna :
    observed annaCrypto annaRequests (twoOwners 200) = observed annaCrypto annaRequests (twoOwners 100) := by
  refine (foreign_orders_confidential annaCrypto (some 1) annaRequests_own (twoOwners_stored (by decide))).mpr ?_
    (twoOwners 200) (twoOwners_stored (by decide)) (twoOwners_differ (by decide))
  rintro sent hsent hmine n ⟨order, hn, hforeign⟩ hasks
  simp only [annaRequests, List.mem_cons, List.not_mem_nil, or_false] at hsent
  rcases hsent with rfl | rfl | rfl | rfl | rfl
  · exact hasks
  · exact hasks
  · exact hasks
  · obtain ⟨rfl, -⟩ := hasks
    cases hn
    exact hforeign rfl
  · cases hmine

/-- Whoever changes the status of an order is told its total: nobody has to be authenticated for it. -/
theorem foreign_total_disclosed : ∃ (requests : List (SentRequest ℕ)) (w w' : EventsWorld ℕ),
    (∀ sent ∈ requests, sent.own → OwnToken annaCrypto none sent.now sent.request) ∧ Stored w ∧ Stored w' ∧
    ForeignOrdersDiffer none w w' ∧ observed annaCrypto requests w' ≠ observed annaCrypto requests w := by
  refine ⟨[⟨0, true, .updateOrderStatus 2 "paid", 1000⟩], twoOwners 100, twoOwners 200, ?_,
    twoOwners_stored (by decide), twoOwners_stored (by decide), twoOwners_differ (by simp), ?_⟩
  · intro sent hsent _
    rw [List.mem_singleton.mp hsent]
    trivial
  · intro heq
    have htotal : (observed annaCrypto [⟨0, true, .updateOrderStatus 2 "paid", 1000⟩] (twoOwners 100)).1 =
        [.ok (.order ⟨2, [], 100, .paid⟩)] := by decide +kernel
    have htotal' : (observed annaCrypto [⟨0, true, .updateOrderStatus 2 "paid", 1000⟩] (twoOwners 200)).1 =
        [.ok (.order ⟨2, [], 200, .paid⟩)] := by decide +kernel
    rw [heq, htotal] at htotal'
    cases htotal'

end Runs

end Marketplace
