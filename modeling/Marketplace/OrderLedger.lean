import Marketplace.ReadCommitted.Session
import Marketplace.OrderTransaction

namespace Marketplace

open Concurrent ReadCommitted

variable {T : Type}

/-- The `order_items` rows of an order with their ids, in id order. -/
structure OrderItems (tables : Tables T) (orderId : ℕ) (stored : List (ℕ × OrderItemRow)) : Prop where
  sorted : stored.Pairwise (·.1 < ·.1)
  mem : ∀ id row, (id, row) ∈ stored ↔ tables (.orderItem id) = some row ∧ row.orderId = orderId

structure Carries (payload : OrderPlacedPayload) (orderId : ℕ) (order : OrderRow T)
    (stored : List (ℕ × OrderItemRow)) : Prop where
  eventId : payload.eventId = orderPlacedEventId orderId
  type : payload.type = orderPlacedType
  orderId : payload.data.orderId = orderId
  userId : payload.data.userId = order.userId
  totalAmount : payload.data.totalAmount = order.totalAmount
  items : payload.data.items = stored.map fun s => ⟨.integer s.2.productId, .integer s.2.quantity⟩

/-- The row of the order `n` that a call with this key placed; the UPDATE finds it if its text is the key. -/
structure KeyRow (tables : Tables T) (idempotencyKey : String) (n : ℕ) (stored : String) : Prop where
  key : storedKey idempotencyKey = some stored
  row : tables (.idempotencyKey stored) = some ⟨if stored = idempotencyKey then some n else none⟩

structure OrderLedger (key : T → String) (tables : Tables T) : Prop where
  keys : ∀ k row, tables (.idempotencyKey k) = some row → ∃ n order t, tables (.order n) = some order ∧
    order.placedBy = some t ∧ KeyRow tables (key t) n k
  single : ∀ n n' order order' t t', tables (.order n) = some order → order.placedBy = some t →
    tables (.order n') = some order' → order'.placedBy = some t' → storedKey (key t) = storedKey (key t') → n = n'
  orders : ∀ n order t, tables (.order n) = some order → order.placedBy = some t →
    (∃ stored, KeyRow tables (key t) n stored) ∧
    ∃ id row stored, tables (.outboxEventId (orderPlacedEventId n)) = some id ∧
      tables (.outboxMessage id) = some row ∧ row.eventId = orderPlacedEventId n ∧
      OrderItems tables n stored ∧ Carries row.payload n order stored
  messages : ∀ id row, tables (.outboxMessage id) = some row → ∃ n order t,
    row.eventId = orderPlacedEventId n ∧ tables (.outboxEventId row.eventId) = some id ∧
    tables (.order n) = some order ∧ order.placedBy = some t
  items : ∀ id row, tables (.orderItem id) = some row → ∃ order, tables (.order row.orderId) = some order

variable [DecidableEq T] {A : Allowed T} {C : T → ShopWorld T → ShopWorld T → Prop}
  {D : Discipline ((ShopMachine T).restrict A C)} {t : T} {items : List CreateOrderItemInput}
  {key : String} {S : PriceReads D t items key} {placed : PlacedOrder T} {lines : List OrderLine}

theorem stores_items {n : ℕ} {stored : List (ℕ × OrderItemRow)} (h : List.Forall₂ (S.Stores n) lines stored) :
    (lines.map fun line => (⟨.integer line.productId, .integer line.quantity⟩ : OrderPlacedItem)) =
      stored.map fun s => ⟨.integer s.2.productId, .integer s.2.quantity⟩ := by
  induction h with
  | nil => rfl
  | cons hs _ ih =>
    rw [List.map_cons, List.map_cons, ih, hs.productId, hs.quantity]

theorem stores_orderId {n : ℕ} {stored : List (ℕ × OrderItemRow)} (h : List.Forall₂ (S.Stores n) lines stored) :
    ∀ s ∈ stored, s.2.orderId = n := by
  induction h with
  | nil => simp
  | cons hs _ ih =>
    intro s hmem
    rcases List.mem_cons.mp hmem with rfl | hmem
    · exact hs.orderId
    · exact ih s hmem

theorem carries_of_places (h : S.Places t placed lines) :
    Carries placed.outbox.payload placed.orderId placed.order placed.items := by
  obtain ⟨occurredAt, hpayload⟩ := h.payload
  rw [hpayload]
  refine ⟨h.eventId, rfl, rfl, rfl, rfl, ?_⟩
  rw [← stores_items h.stored]
  simp only [toOrderPlacedEvent, h.input, List.map_map]
  rfl

omit [DecidableEq T] in
theorem orderItems_placed {old new : Tables T} (h : placed.Committed old new)
    (hold : ∀ id row, old (.orderItem id) = some row → row.orderId ≠ placed.orderId)
    (hsorted : placed.items.Pairwise (·.1 < ·.1)) (horder : ∀ s ∈ placed.items, s.2.orderId = placed.orderId) :
    OrderItems new placed.orderId placed.items := by
  refine ⟨hsorted, fun id row => ⟨fun hs => ⟨h.items _ hs, horder _ hs⟩, fun ⟨hrow, hid⟩ => ?_⟩⟩
  rcases h.item_cases hrow with hrow | hmem
  · exact absurd hid (hold id row hrow)
  · exact hmem

omit [DecidableEq T] in
theorem OrderItems.extend {old new : Tables T} {n m : ℕ} {stored : List (ℕ × OrderItemRow)}
    (h : OrderItems old n stored) (hkeep : ∀ id row, old (.orderItem id) = some row → new (.orderItem id) = some row)
    (hnew : ∀ id row, new (.orderItem id) = some row → old (.orderItem id) = some row ∨ row.orderId = m)
    (hne : n ≠ m) : OrderItems new n stored := by
  refine ⟨h.sorted, fun id row => ?_⟩
  rw [h.mem]
  constructor
  · rintro ⟨hid, hrow⟩
    exact ⟨hkeep id row hid, hrow⟩
  · rintro ⟨hid, hrow⟩
    rcases hnew id row hid with hold | hm
    · exact ⟨hold, hrow⟩
    · exact absurd (hrow.symm.trans hm) hne

theorem OrderLedger.commit {key : T → String} {S : PriceReads D t items (key t)} {old new : Tables T}
    (hold : OrderLedger key old) (h : placed.Committed old new) (hp : S.Places t placed lines) :
    OrderLedger key new := by
  have horders : ∀ n order, old (.order n) = some order → n ≠ placed.orderId := by
    rintro n order hn rfl
    rw [h.order_old] at hn
    cases hn
  have hnew : ∀ n order, old (.order n) = some order → new (.order n) = some order :=
    fun n order hn => (h.orders n (horders n order hn)).trans hn
  have hplaced : KeyRow new (key t) placed.orderId placed.key := ⟨hp.key, hp.bound ▸ h.key⟩
  -- the rows of the orders that were there are not the row of this key
  have hrows {n : ℕ} {order : OrderRow T} {t' : T} (hn : old (.order n) = some order)
      (hby : order.placedBy = some t') : storedKey (key t') ≠ some placed.key := by
    intro heq
    obtain ⟨⟨stored, hstored⟩, -⟩ := hold.orders n order t' hn hby
    obtain rfl := Option.some.inj (hstored.key.symm.trans heq)
    have hrow := hstored.row
    rw [h.key_old] at hrow
    cases hrow
  have hkept {n : ℕ} {k stored : String} (hk : KeyRow old k n stored) : KeyRow new k n stored := by
    have hne : stored ≠ placed.key := by
      rintro rfl
      have hrow := hk.row
      rw [h.key_old] at hrow
      cases hrow
    exact ⟨hk.key, (h.keys stored hne).trans hk.row⟩
  constructor
  · intro k row hk
    by_cases hkt : k = placed.key
    · subst hkt
      exact ⟨_, _, t, h.order, hp.placedBy, hplaced⟩
    · rw [h.keys k hkt] at hk
      obtain ⟨n, order, t', horder, hby, hrow⟩ := hold.keys k row hk
      exact ⟨n, order, t', hnew n order horder, hby, hkept hrow⟩
  · intro n n' order order' s s' hn hby hn' hby' hkeys
    rcases h.order_cases hn with hn | ⟨rfl, rfl⟩
    · rcases h.order_cases hn' with hn' | ⟨rfl, rfl⟩
      · exact hold.single n n' order order' s s' hn hby hn' hby' hkeys
      · obtain rfl := Option.some.inj (hp.placedBy.symm.trans hby')
        exact absurd (hkeys.trans hp.key) (hrows hn hby)
    · obtain rfl := Option.some.inj (hp.placedBy.symm.trans hby)
      rcases h.order_cases hn' with hn' | ⟨rfl, rfl⟩
      · exact absurd (hkeys.symm.trans hp.key) (hrows hn' hby')
      · rfl
  · intro n order t' hn hby
    by_cases hnew' : n = placed.orderId
    · subst hnew'
      rw [h.order] at hn
      cases hn
      rw [hp.placedBy] at hby
      cases hby
      refine ⟨⟨_, hplaced⟩, placed.outboxId, placed.outbox, placed.items, hp.eventId ▸ h.event, h.message,
        hp.eventId, ?_, carries_of_places hp⟩
      refine orderItems_placed h (fun id row hrow => ?_) hp.sorted (stores_orderId hp.stored)
      obtain ⟨order, horder⟩ := hold.items id row hrow
      exact horders _ order horder
    · rw [h.orders n hnew'] at hn
      obtain ⟨⟨_, hk⟩, id, row, stored, hevent, hrow, hid, hstored, hcarries⟩ := hold.orders n order t' hn hby
      have hevent' : orderPlacedEventId n ≠ placed.outbox.eventId := by
        rw [hp.eventId]
        exact fun heq => hnew' (orderPlacedEventId_injective heq)
      have hid' : id ≠ placed.outboxId := by
        rintro rfl
        rw [h.message_old] at hrow
        cases hrow
      have hstored' : OrderItems new n stored := by
        refine hstored.extend (fun _ _ => h.keep_item) (fun id row hrow => (h.item_cases hrow).imp_right ?_) hnew'
        exact stores_orderId hp.stored _
      exact ⟨⟨_, hkept hk⟩, id, row, stored, (h.events _ hevent').trans hevent,
        (h.messages id hid').trans hrow, hid, hstored', hcarries⟩
  · intro id row hrow
    by_cases hid : id = placed.outboxId
    · subst hid
      rw [h.message] at hrow
      cases hrow
      exact ⟨placed.orderId, _, t, hp.eventId, h.event, h.order, hp.placedBy⟩
    · rw [h.messages id hid] at hrow
      obtain ⟨n, order, t', heq, hevent, hn, hby⟩ := hold.messages id row hrow
      have hevent' : row.eventId ≠ placed.outbox.eventId := by
        intro heq'
        rw [heq', h.event_old] at hevent
        cases hevent
      exact ⟨n, order, t', heq, (h.events _ hevent').trans hevent, hnew n order hn, hby⟩
  · intro id row hrow
    rcases h.item_cases hrow with hrow | hmem
    · obtain ⟨order, horder⟩ := hold.items id row hrow
      exact ⟨order, hnew _ order horder⟩
    · rw [stores_orderId hp.stored _ hmem]
      exact ⟨_, h.order⟩

def orderLedger (key : T → String) : Discipline (ShopMachine T).unrestricted where
  inv w := OrderLedger key w.db.committed
  always w w' := ∀ n order, w.db.committed (.order n) = some order → w'.db.committed (.order n) = some order
  rely _ _ _ := True
  gone _ _ := True
  always_refl _ _ _ h := h
  always_trans h h' n order hn := h' n order (h n order hn)
  rely_refl _ _ := trivial
  rely_trans _ _ _ _ _ _ := trivial

theorem orderLedger_calm (key : T → String) : Calm (orderLedger key) := by
  apply Calm.of_committed
  · intro w w' hc _ hi
    simp only [orderLedger, hc] at hi ⊢
    exact hi
  · intro w w' hc n order hn
    rw [hc]
    exact hn
  · exact fun _ _ _ _ => trivial
  · exact fun _ _ => trivial

-- the call's key and the key the order was placed with are stored as one text
def OrderAnswered (key : T → String) (t : T) (response : OrderResponse) (w : ShopWorld T) : Prop :=
  ∃ order caller, w.db.committed (.order response.id) = some order ∧ order.placedBy = some caller ∧
    storedKey (key caller) = storedKey (key t)

-- some call's key is stored as the text of this call's key, and not as it is
def KeyCut (key : T → String) (t : T) : Prop :=
  ∃ t' stored, storedKey (key t) = some stored ∧ storedKey (key t') = some stored ∧ stored ≠ key t'

def noReads (D : Discipline ((ShopMachine T).restrict A C)) (t : T) (items : List CreateOrderItemInput)
    (key : String) : PriceReads D t items key where
  seen _ _ _ _ := True
  agree _ _ _ := True
  kept _ _ _ := .const
  first _ _ _ _ _ _ := trivial
  second _ _ _ _ _ := trivial

def orderLedger_rules (key : T → String) (t : T) (items : List CreateOrderItemInput) :
    CreateRules (orderLedger key) t items (key t) (fun e => e = keyWithoutOrder → KeyCut key t)
      (OrderAnswered key t) where
  calm := orderLedger_calm key
  reads := noReads _ t items (key t)
  stable response w w' _ h hs := by
    obtain ⟨order, caller, horder, hrest⟩ := h
    exact ⟨order, caller, hs.always _ order horder, hrest⟩
  failures _ h heq := absurd heq h
  bound {w stored row} hi hstored hrow hnone _ := by
    by_cases hkept : stored = key t
    · obtain ⟨n, _, t', -, -, hkey⟩ := hi.keys _ row hrow
      refine ⟨t', stored, hstored, hkey.key, fun heq => ?_⟩
      have hbound := hkey.row
      rw [hrow, if_pos heq] at hbound
      obtain rfl := Option.some.inj hbound
      exact absurd (hnone hkept) (by simp)
    · exact ⟨t, stored, hstored, hstored, hkept⟩
  starts hi := ⟨hi, fun _ _ h => h, fun _ _ => trivial⟩
  replays {w row response c} hi hat hid := by
    have hsame := hat.committed_unchanged Workspace.set_empty_locked
    have hrow := hat.committed_old (k := Key.idempotencyKey (key t)) Workspace.set_self
    refine ⟨⟨?_, fun _ _ h => by simpa only [hsame] using h, fun _ _ => trivial⟩, ?_⟩
    · simp only [orderLedger, hsame]
      exact hi
    · obtain ⟨n, order, caller, horder, hby, hkey⟩ := hi.keys _ row hrow
      have hbound := hkey.row
      rw [hrow] at hbound
      split at hbound
      · rename_i heq
        obtain rfl := Option.some.inj hbound
        obtain rfl := Option.some.inj hid
        exact ⟨order, caller, by rw [hsame]; exact horder, hby, congrArg storedKey heq.symm⟩
      · obtain rfl := Option.some.inj hbound
        cases hid
  places {w r} placed lines hi hat hp _ _ _ := by
    have hc := PlacedOrder.committed hat hp.sorted
    refine ⟨⟨hi.commit hc hp, fun n order hn => ?_, fun _ _ => trivial⟩, _, t, hc.order, hp.placedBy, rfl⟩
    have hne : n ≠ placed.orderId := by
      rintro rfl
      rw [hc.order_old] at hn
      cases hn
    exact (hc.orders n hne).trans hn

structure NothingPlaced (w : ShopWorld T) : Prop where
  quiescent : w.db.Quiescent
  keys : ∀ k, w.db.committed (.idempotencyKey k) = none
  messages : ∀ id, w.db.committed (.outboxMessage id) = none
  orders : ∀ n order, w.db.committed (.order n) = some order → order.placedBy = none
  items : ∀ id row, w.db.committed (.orderItem id) = some row →
    ∃ order, w.db.committed (.order row.orderId) = some order

omit [DecidableEq T] in
theorem NothingPlaced.ledger {w : ShopWorld T} (hw : NothingPlaced w) (key : T → String) :
    OrderLedger key w.db.committed where
  keys k row hrow := by
    rw [hw.keys] at hrow
    cases hrow
  single n _ order _ t _ horder hby := by
    rw [hw.orders n order horder] at hby
    cases hby
  orders n order t horder hby := by
    rw [hw.orders n order horder] at hby
    cases hby
  messages id row hrow := by
    rw [hw.messages] at hrow
    cases hrow
  items := hw.items

theorem run_ledger (input : T → CreateOrderInput) (key : T → String) {w : ShopWorld T} (hw : NothingPlaced w)
    {c : ShopConfig T OrderResponse}
    (h : (ShopMachine T).Reachable (.start w fun t => create t (input t) (key t)) c) :
    OrderLedger key c.shared.db.committed ∧ ∀ t r, c.outcome t = some r →
      Discipline.Post (OrderAnswered key t) (fun e _ => e = keyWithoutOrder → KeyCut key t) r c.shared := by
  obtain ⟨hledger, hdone, -⟩ := Discipline.run_holds (D := orderLedger key) (hw.ledger key)
    hw.quiescent.workspace (fun t => create_spec (orderLedger_rules key t _)) h.unrestricted
  exact ⟨hledger, hdone⟩

def retriedInput : CreateOrderInput := ⟨some [⟨.integer 1, .integer 2⟩, ⟨.integer 1, .integer 1⟩]⟩

-- call 1 retries while call 0 still holds the key
def retrySchedule : List (ℕ × Option (DatabaseMove ShopMove)) :=
  [0, 0, 0, 1, 1].map (·, some .go) ++ List.replicate 14 (0, some .go) ++
    [(0, some (.ext (.ok 5))), (0, some (.ext (.ok 5)))] ++ List.replicate 8 (0, some .go) ++
    List.replicate 6 (1, some .go)

omit [DecidableEq T] in
theorem seeded_nothingPlaced : NothingPlaced (ShopWorld.seeded (T := T)) where
  quiescent := ⟨fun _ => rfl, fun _ => rfl⟩
  keys _ := rfl
  messages _ := rfl
  orders _ _ h := nomatch h
  items _ _ h := nomatch h

theorem retried_run : ∃ c : ShopConfig ℕ OrderResponse, (ShopMachine ℕ).Reachable
    (.start .seeded fun t => create t retriedInput "retry") c ∧
    c.outcome 0 = some (.ok ⟨1, [⟨.integer 1, .integer 2⟩, ⟨.integer 1, .integer 1⟩], 300, .created⟩) ∧
    c.outcome 1 = some (.ok ⟨1, [⟨.integer 1, .integer 2⟩, ⟨.integer 1, .integer 1⟩], 300, .created⟩) := by
  apply exists_reachable (S := withDatabaseMoves shopMoves .database) retrySchedule
  decide

section CutKey

variable {t : T} {key stored : String} {base current : Tables T} {seq : Serial → ℕ}
  {ext : (o : ShopOp) → List (Sent T) → Except Failure o.Res × List (Sent T)} {X : Failure → ShopWorld T → Prop}

theorem insertKey_solo (hstored : storedKey key = some stored) :
    Prog.Solo (stepAlone ext .database t) (Session t base seq base) (insertKey key)
      (fun reserved w => reserved = (base (.idempotencyKey stored)).isNone ∧ Session t base seq
      (if reserved then Function.update base (.idempotencyKey stored) (some ⟨none⟩) else base) w) X := by
  rw [insertKey, hstored]
  exact insertOrSkip_solo rfl

theorem insertKey_fresh (hstored : storedKey key = some stored) (hfresh : base (.idempotencyKey stored) = none) :
    Prog.Solo (stepAlone ext .database t) (Session t base seq base) (insertKey key)
      (fun reserved w => reserved = true ∧
      Session t base seq (Function.update base (.idempotencyKey stored) (some ⟨none⟩)) w) X := by
  refine (insertKey_solo hstored).conseq (fun _ h => h) (fun reserved w h => ?_) fun _ _ h => h
  rw [hfresh] at h
  obtain ⟨rfl, h⟩ := h
  exact ⟨rfl, h⟩

theorem insertKey_known {row : IdempotencyKeyRow} (hstored : storedKey key = some stored)
    (hrow : base (.idempotencyKey stored) = some row) :
    Prog.Solo (stepAlone ext .database t) (Session t base seq base) (insertKey key)
      (fun reserved w => reserved = false ∧ Session t base seq base w) X := by
  refine (insertKey_solo hstored).conseq (fun _ h => h) (fun reserved w h => ?_) fun _ _ h => h
  rw [hrow] at h
  obtain ⟨rfl, h⟩ := h
  exact ⟨rfl, h⟩

theorem clock_solo {P : ShopWorld T → Prop} (hP : ∀ w env, P w → P ⟨w.db, env⟩) :
    Prog.Solo (stepAlone (brokerAt t true 10) .database t) P clock (fun now w => now = 10 ∧ P w) fun _ _ => False :=
  .perform fun w h => ⟨rfl, hP w _ h⟩

def singleInput : CreateOrderInput := ⟨some [⟨.integer 1, .integer 1⟩]⟩

theorem selectProduct_solo (activeOnly : Bool) (price stock : ℤ)
    (hproduct : current (.product 1) = some ⟨price, stock, true⟩) :
    Prog.Solo (stepAlone ext .database t) (Session t base seq current) (selectProduct activeOnly (.integer 1))
      (fun product w => product = ⟨price, stock, true⟩ ∧ Session t base seq current w) fun _ _ => False := by
  refine .bind_eq statement_solo ?_
  have hfound : current (.product (1 : ℤ).toNat) = some ⟨price, stock, true⟩ := hproduct
  simp only [zero_le_one, if_true, hfound, Option.filter_some, Bool.or_true]
  exact .pure fun _ h => ⟨rfl, h⟩

theorem updateKey_cut (hstored : storedKey key = some stored) (hcut : stored ≠ key) (orderId : ℕ) :
    Prog.Solo (stepAlone ext .database t) (Session t base seq current) (updateKey key orderId)
      (fun _ => Session t base seq current) fun _ _ => False := by
  rw [updateKey, hstored, if_neg fun h => hcut (Option.some.inj h)]
  exact .bind_eq statement_solo (.pure fun _ h => h)

theorem create_cut (hstored : storedKey key = some stored) (hcut : stored ≠ key) (hblank : isBlank key = false) :
    Prog.Solo (stepAlone (brokerAt t true 10) .database t)
      (Free (ShopWorld.seeded (T := T)).db.committed (ShopWorld.seeded (T := T)).db.seq) (create t singleInput key)
      (fun response w => response.id = 1 ∧ ∃ tables seq, Free tables seq w ∧
        (∀ k, tables (.idempotencyKey k) = if k = stored then some ⟨none⟩ else none) ∧
        ∃ order, tables (.order 1) = some order ∧ order.placedBy = some t) fun _ _ => False := by
  unfold create
  simp only [singleInput, hblank]
  refine .handle (Y := fun _ _ => False) ?_ fun _ _ h => h.elim
  refine .bind begin_solo fun _ => .bind_eq (insertKey_fresh hstored rfl) ?_
  refine .bind_eq statement_solo ?_
  refine .bind_eq (a := 100) (.bind_eq (selectProduct_solo true 100 5 rfl)
    (.pure fun _ h => ⟨rfl, h⟩)) ?_
  refine .bind_eq (insertWithId_solo rfl rfl) ?_
  refine .bind_eq (a := ()) (.bind_eq (selectProduct_solo false 100 5 rfl)
    (.bind_eq (insertWithId_solo rfl rfl) (.pure fun _ h => ⟨rfl, h⟩))) ?_
  refine .bind_eq (clock_solo fun _ _ h => ⟨h.committed, h.seq, h.status, h.rows⟩) ?_
  refine .bind (.bind_eq (clock_solo fun _ _ h => ⟨h.committed, h.seq, h.status, h.rows⟩)
    (.bind_eq (insertWithId_solo rfl rfl) (insertOrFail_solo rfl rfl))) fun _ => ?_
  refine .bind (updateKey_cut hstored hcut _) fun _ => .bind commit_solo fun _ => .pure fun w h => ?_
  refine ⟨rfl, _, _, h, fun k => ?_, _, rfl, rfl⟩
  change Function.update seededTables (Key.idempotencyKey stored) (some ⟨none⟩) (.idempotencyKey k) = _
  by_cases hk : k = stored
  · rw [if_pos hk, hk, Function.update_self]
  · rw [if_neg hk, Function.update_of_ne (by simpa using hk)]
    rfl

theorem create_cut_again {input : CreateOrderInput} {items : List CreateOrderItemInput} {row : IdempotencyKeyRow}
    (haccepted : input.Accepted key items) (hstored : storedKey key = some stored) (hcut : stored ≠ key)
    (hrow : base (.idempotencyKey stored) = some row) :
    Prog.Solo (stepAlone ext .database t) (Free base seq) (create t input key) (fun _ _ => False)
      fun e w => e = keyWithoutOrder ∧ Free base seq w := by
  cases items with
  | nil => exact absurd rfl haccepted.nonempty
  | cons item items =>
    unfold create
    simp only [haccepted.body, haccepted.nonblank]
    refine .handle (Y := fun e w => e = keyWithoutOrder ∧ Session t base seq base w) ?_ fun e => .pure_pre ?_
    · refine .bind begin_solo fun _ => .bind_eq (insertKey_known hstored hrow) ?_
      have hselect : (selectKeyForUpdate key : ShopCall T (Option IdempotencyKeyRow)) =
          statement.bind fun _ => .done (.ok none) := by
        rw [selectKeyForUpdate, hstored, if_neg fun h => hcut (Option.some.inj h)]
        rfl
      rw [if_neg (by simp), replayOrder, hselect]
      exact .bind_eq (a := none) (.bind_eq statement_solo (.pure fun _ h => ⟨rfl, h⟩)) (.throw fun _ h => ⟨rfl, h⟩)
    · rintro rfl
      refine .bind (Q := fun _ => Free base seq) (.handle (Y := fun _ _ => False) rollback_solo fun _ _ h => h.elim)
        fun _ => .throw fun _ h => ⟨rfl, h⟩

end CutKey

-- the column stores 200 of its 201 characters
def paddedKey : String := spacePadded 'k' 200

theorem paddedKey_stored : ∃ stored, storedKey paddedKey = some stored ∧ stored ≠ paddedKey := by
  refine ⟨spacePadded 'k' 199, varchar_spacePadded (by decide) (by decide), fun h => ?_⟩
  have := spacePadded_injective h
  omega

theorem paddedKey_accepted : singleInput.Accepted paddedKey [⟨.integer 1, .integer 1⟩] where
  body := rfl
  nonempty := by simp
  nonblank := by
    have hfirst : isJsWhitespace 'k' = false := by decide
    simp only [isBlank, paddedKey, spacePadded, String.toList_ofList, List.all_cons, hfirst, Bool.false_and]

theorem padded_run : ∃ (k : String) (c : ShopConfig ℕ OrderResponse), (ShopMachine ℕ).Reachable
    (.start .seeded fun t => create t singleInput paddedKey) c ∧ c.outcome 1 = some (.error keyWithoutOrder) ∧
    (∃ order, c.shared.db.committed (.order 1) = some order ∧ order.placedBy = some 0) ∧
    ∀ k', c.shared.db.committed (.idempotencyKey k') = if k' = k then some ⟨none⟩ else none := by
  have hsteps (t : ℕ) (a : Action Serial Key (Row ℕ) ShopOp) (w : ShopWorld ℕ) :=
    stepAlone_performs (e := .database) (fun o log => brokerAt_performs true 10 o log (t := t)) a w
  obtain ⟨stored, hstored, hcut⟩ := paddedKey_stored
  have haccepted := paddedKey_accepted
  generalize paddedKey = key at *
  obtain ⟨first, c, hfirst, hc, -, hothers⟩ := (create_cut hstored hcut haccepted.nonblank).reachable
    (c := .start ShopWorld.seeded fun t => create t singleInput key) (hsteps 0) rfl ⟨rfl, rfl, fun _ => rfl⟩
  cases first with
  | error e => exact hfirst.elim
  | ok response =>
    obtain ⟨-, tables, seq, hw, hkeys, horder⟩ := hfirst
    obtain ⟨second, d, hsecond, hd, hone, -⟩ := (create_cut_again haccepted hstored hcut
      ((hkeys stored).trans (if_pos rfl))).reachable (hsteps 1) (hothers 1 Nat.one_ne_zero) hw
    cases second with
    | ok response => exact hsecond.elim
    | error e =>
      obtain ⟨rfl, hw'⟩ := hsecond
      refine ⟨stored, d, hc.trans hd, hone, ?_, ?_⟩
      · rw [hw'.committed]
        exact horder
      · rw [hw'.committed]
        exact hkeys

theorem create_idempotent (input : T → CreateOrderInput) (key : T → String) {w : ShopWorld T}
    (hw : NothingPlaced w) {c : ShopConfig T OrderResponse}
    (h : (ShopMachine T).Reachable (.start w fun t => create t (input t) (key t)) c) :
    (∀ k row, c.shared.db.committed (.idempotencyKey k) = some row → ∃ n order t,
      c.shared.db.committed (.order n) = some order ∧ order.placedBy = some t ∧ storedKey (key t) = some k ∧
      row.orderId = if k = key t then some n else none) ∧
      (∀ t, c.outcome t = some (.error keyWithoutOrder) → ∃ t' stored, storedKey (key t) = some stored ∧
      storedKey (key t') = some stored ∧ stored ≠ key t') ∧
      (∀ n n' order order' t t', c.shared.db.committed (.order n) = some order → order.placedBy = some t →
      c.shared.db.committed (.order n') = some order' → order'.placedBy = some t' → key t = key t' → n = n') ∧
      ∀ t t' response response', key t = key t' → c.outcome t = some (.ok response) →
      c.outcome t' = some (.ok response') → response.id = response'.id := by
  obtain ⟨hledger, hdone⟩ := run_ledger input key hw h
  refine ⟨?_, ?_, ?_, ?_⟩
  · intro k row hrow
    obtain ⟨n, order, t, horder, hby, hkey⟩ := hledger.keys k row hrow
    have hbound := hkey.row
    rw [hrow] at hbound
    obtain rfl := Option.some.inj hbound
    exact ⟨n, order, t, horder, hby, hkey.key, rfl⟩
  · exact fun t ht => hdone t _ ht rfl
  · intro n n' order order' t t' hn hby hn' hby' hkey
    exact hledger.single n n' order order' t t' hn hby hn' hby' (congrArg storedKey hkey)
  · intro t t' response response' hkey ht ht'
    obtain ⟨order, caller, horder, hby, hcaller⟩ := hdone t _ ht
    obtain ⟨order', caller', horder', hby', hcaller'⟩ := hdone t' _ ht'
    apply hledger.single _ _ order order' caller caller' horder hby horder' hby'
    rw [hcaller, hcaller', hkey]

theorem create_idempotent_retried : ∃ c : ShopConfig ℕ OrderResponse, (ShopMachine ℕ).Reachable
    (.start .seeded fun t => create t retriedInput "retry") c ∧ (∃ response response',
      c.outcome 0 = some (.ok response) ∧ c.outcome 1 = some (.ok response') ∧ response.id = response'.id) ∧
      (∀ k row, c.shared.db.committed (.idempotencyKey k) = some row → ∃ n order t,
      c.shared.db.committed (.order n) = some order ∧ order.placedBy = some t ∧ storedKey "retry" = some k ∧
      row.orderId = if k = "retry" then some n else none) ∧
      (∀ t, c.outcome t ≠ some (.error keyWithoutOrder)) ∧
      ∀ n n' order order' t t', c.shared.db.committed (.order n) = some order → order.placedBy = some t →
      c.shared.db.committed (.order n') = some order' → order'.placedBy = some t' → n = n' := by
  obtain ⟨c, hc, hfirst, hretry⟩ := retried_run
  obtain ⟨hrows, hthrown, hsingle, hsame⟩ :=
    create_idempotent (fun _ => retriedInput) (fun _ => "retry") seeded_nothingPlaced hc
  refine ⟨c, hc, ⟨_, _, hfirst, hretry, hsame 0 1 _ _ rfl hfirst hretry⟩, hrows, fun t ht => ?_, ?_⟩
  · obtain ⟨_, stored, hstored, -, hcut⟩ := hthrown t ht
    have hkept : storedKey "retry" = some "retry" := by decide
    exact hcut (Option.some.inj (hstored.symm.trans hkept))
  · exact fun n n' order order' t t' hn hby hn' hby' => hsingle n n' order order' t t' hn hby hn' hby' rfl

theorem cut_key_refused : ∃ c : ShopConfig ℕ OrderResponse, (ShopMachine ℕ).Reachable
    (.start .seeded fun t => create t singleInput paddedKey) c ∧ c.outcome 1 = some (.error keyWithoutOrder) ∧
    ∃ k, c.shared.db.committed (.idempotencyKey k) = some ⟨none⟩ := by
  obtain ⟨k, c, hc, hrefused, -, hkeys⟩ := padded_run
  exact ⟨c, hc, hrefused, k, (hkeys k).trans (if_pos rfl)⟩

theorem create_atomic (input : T → CreateOrderInput) (key : T → String) {w : ShopWorld T}
    (hw : NothingPlaced w) {c : ShopConfig T OrderResponse}
    (h : (ShopMachine T).Reachable (.start w fun t => create t (input t) (key t)) c) :
    (∀ n order t, c.shared.db.committed (.order n) = some order → order.placedBy = some t →
      (∃ k, storedKey (key t) = some k ∧
      c.shared.db.committed (.idempotencyKey k) = some ⟨if k = key t then some n else none⟩) ∧
      ∃ id row stored, c.shared.db.committed (.outboxMessage id) = some row ∧
      row.eventId = orderPlacedEventId n ∧ OrderItems c.shared.db.committed n stored ∧
      Carries row.payload n order stored ∧
      ∀ id' row', c.shared.db.committed (.outboxMessage id') = some row' →
      row'.eventId = orderPlacedEventId n → id' = id) ∧
      (∀ id row, c.shared.db.committed (.outboxMessage id) = some row → ∃ n order t,
      row.eventId = orderPlacedEventId n ∧ c.shared.db.committed (.order n) = some order ∧
      order.placedBy = some t) ∧
      ∀ k row n, c.shared.db.committed (.idempotencyKey k) = some row → row.orderId = some n →
      ∃ order t, c.shared.db.committed (.order n) = some order ∧ order.placedBy = some t ∧ key t = k := by
  obtain ⟨hledger, -⟩ := run_ledger input key hw h
  refine ⟨?_, ?_, ?_⟩
  · intro n order t hn hby
    obtain ⟨⟨k, hk⟩, id, row, stored, hevent, hrow, hid, hstored, hcarries⟩ := hledger.orders n order t hn hby
    refine ⟨⟨k, hk.key, hk.row⟩, id, row, stored, hrow, hid, hstored, hcarries, fun id' row' hrow' hid' => ?_⟩
    obtain ⟨n', _, _, -, hevent', -⟩ := hledger.messages id' row' hrow'
    rw [hid', hevent] at hevent'
    exact (Option.some.inj hevent').symm
  · intro id row hrow
    obtain ⟨n, order, t, hid, -, horder, hby⟩ := hledger.messages id row hrow
    exact ⟨n, order, t, hid, horder, hby⟩
  · intro k row n hrow hn
    obtain ⟨n', order, t, horder, hby, hkey⟩ := hledger.keys k row hrow
    have hbound := hkey.row
    rw [hrow] at hbound
    obtain rfl := Option.some.inj hbound
    obtain ⟨heq, hn⟩ := Option.ite_none_right_eq_some.mp hn
    obtain rfl := Option.some.inj hn
    exact ⟨order, t, horder, hby, heq.symm⟩

theorem create_atomic_retried : ∃ c : ShopConfig ℕ OrderResponse, (ShopMachine ℕ).Reachable
    (.start .seeded fun t => create t retriedInput "retry") c ∧ c.outcome 0 ≠ none ∧
    (∀ id row, c.shared.db.committed (.outboxMessage id) = some row → ∃ n order t,
      row.eventId = orderPlacedEventId n ∧ c.shared.db.committed (.order n) = some order ∧
      order.placedBy = some t) ∧
      ∀ k row n, c.shared.db.committed (.idempotencyKey k) = some row → row.orderId = some n →
      ∃ order t, c.shared.db.committed (.order n) = some order ∧ order.placedBy = some t ∧ "retry" = k := by
  obtain ⟨c, hc, hfirst, -⟩ := retried_run
  have h := create_atomic (fun _ => retriedInput) (fun _ => "retry") seeded_nothingPlaced hc
  exact ⟨c, hc, by simp [hfirst], h.2⟩

theorem cut_key_unbound : ∃ c : ShopConfig ℕ OrderResponse, (ShopMachine ℕ).Reachable
    (.start .seeded fun t => create t singleInput paddedKey) c ∧
    (∃ order, c.shared.db.committed (.order 1) = some order ∧ order.placedBy = some 0) ∧
    ∀ k, c.shared.db.committed (.idempotencyKey k) ≠ some ⟨some 1⟩ := by
  obtain ⟨k, c, hc, -, horder, hkeys⟩ := padded_run
  refine ⟨c, hc, horder, fun k' hbound => ?_⟩
  rw [hkeys] at hbound
  split at hbound <;> cases hbound

end Marketplace
