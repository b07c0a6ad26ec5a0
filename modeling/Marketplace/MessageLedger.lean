import Marketplace.DeliveryLedger
import Marketplace.MessageFormat

namespace Marketplace

open Concurrent ReadCommitted

variable {T : Type}

structure KeepsOrders (old new : Tables T) : Prop where
  orders : ∀ n order, old (.order n) = some order → new (.order n) = some order
  items : ∀ id row, old (.orderItem id) = some row → new (.orderItem id) = some row
  newItems : ∀ id row, new (.orderItem id) = some row →
    old (.orderItem id) = some row ∨ old (.order row.orderId) = none

structure IsOrder (tables : Tables T) (n : ℕ) (order : OrderRow T) (stored : List (ℕ × OrderItemRow)) (t : T) :
    Prop where
  row : tables (.order n) = some order
  placedBy : order.placedBy = some t
  items : OrderItems tables n stored

/-- The message is one that the call `t` which placed the order has made. -/
structure Announces (calls : T → OrderCall) (message : OrderPlacedMessage) (n : ℕ) (order : OrderRow T)
    (stored : List (ℕ × OrderItemRow)) (t : T) : Prop where
  eventId : message.eventId = orderPlacedEventId n
  payload : ∀ p, message = .payload p → 0 < n ∧ Carries p n order stored ∧ ¬(calls t).IsCheckout
  event : ∀ e, message = .event e → (calls t).IsCheckout

def Announced (calls : T → OrderCall) (tables : Tables T) (message : OrderPlacedMessage) : Prop :=
  ∃ n order stored t, IsOrder tables n order stored t ∧ Announces calls message n order stored t

namespace KeepsOrders

variable {old new : Tables T} {calls : T → OrderCall}

theorem refl (tables : Tables T) : KeepsOrders tables tables :=
  ⟨fun _ _ h => h, fun _ _ h => h, fun _ _ h => .inl h⟩

theorem trans {tables : Tables T} (h : KeepsOrders old new) (h' : KeepsOrders new tables) : KeepsOrders old tables := by
  refine ⟨fun n order hn => h'.orders n order (h.orders n order hn), fun id row hid => h'.items id row
    (h.items id row hid),
    fun id row hid => ?_⟩
  rcases h'.newItems id row hid with hid | hnone
  · exact h.newItems id row hid
  · right
    cases hn : old (.order row.orderId) with
    | none => rfl
    | some order =>
      rw [h.orders _ order hn] at hnone
      cases hnone

theorem isOrder (h : KeepsOrders old new) {n : ℕ} {order : OrderRow T} {stored : List (ℕ × OrderItemRow)} {t : T}
    (horder : IsOrder old n order stored t) : IsOrder new n order stored t := by
  refine ⟨h.orders n order horder.row, horder.placedBy, horder.items.sorted, fun id row => ?_⟩
  rw [horder.items.mem]
  constructor
  · rintro ⟨hid, hrow⟩
    exact ⟨h.items id row hid, hrow⟩
  · rintro ⟨hid, hrow⟩
    rcases h.newItems id row hid with hold | hnone
    · exact ⟨hold, hrow⟩
    · rw [hrow, horder.row] at hnone
      cases hnone

theorem announced (h : KeepsOrders old new) {message : OrderPlacedMessage} (hm : Announced calls old message) :
    Announced calls new message := by
  obtain ⟨n, order, stored, t, horder, hannounces⟩ := hm
  exact ⟨n, order, stored, t, h.isOrder horder, hannounces⟩

end KeepsOrders

structure MessageLog (calls : T → OrderCall) (w : ShopWorld T) : Prop where
  sequence : 1 ≤ w.db.seq .orders
  items : ∀ id row, w.db.committed (.orderItem id) = some row →
      ∃ order, w.db.committed (.order row.orderId) = some order
  outbox : ∀ id row, w.db.committed (.outboxMessage id) = some row →
    Announced calls w.db.committed (.payload row.payload)
  sent : ∀ sent ∈ w.env, Announced calls w.db.committed sent.message

variable [DecidableEq T]

namespace MessageLog

variable {calls : T → OrderCall} {w : ShopWorld T}

omit [DecidableEq T] in
theorem step (h : MessageLog calls w) {db : Database T Serial Key (Row T)} {env : List (Sent T)}
    (hseq : w.db.seq .orders ≤ db.seq .orders) (hkeeps : KeepsOrders w.db.committed db.committed)
    (hitems : ∀ id row, db.committed (.orderItem id) = some row →
      ∃ order, db.committed (.order row.orderId) = some order)
    (houtbox : ∀ id row, db.committed (.outboxMessage id) = some row →
      (∃ id old, w.db.committed (.outboxMessage id) = some old ∧ old.payload = row.payload) ∨
      Announced calls db.committed (.payload row.payload))
    (henv : ∀ sent ∈ env, (∃ old ∈ w.env, old.message = sent.message) ∨ Announced calls w.db.committed sent.message) :
    MessageLog calls ⟨db, env⟩ := by
  refine ⟨h.sequence.trans hseq, hitems, fun id row hid => ?_, fun sent hmem => ?_⟩
  · rcases houtbox id row hid with ⟨id', old, hold, hpayload⟩ | hnew
    · rw [← hpayload]
      exact hkeeps.announced (h.outbox id' old hold)
    · exact hnew
  · rcases henv sent hmem with ⟨old, hold, hmessage⟩ | hnew
    · rw [← hmessage]
      exact hkeeps.announced (h.sent old hold)
    · exact hkeeps.announced hnew

omit [DecidableEq T] in
theorem same_rows (h : MessageLog calls w) {db : Database T Serial Key (Row T)} {env : List (Sent T)}
    (hc : db.committed = w.db.committed) (hseq : w.db.seq .orders ≤ db.seq .orders)
    (henv : ∀ sent ∈ env, (∃ old ∈ w.env, old.message = sent.message) ∨ Announced calls w.db.committed sent.message) :
    MessageLog calls ⟨db, env⟩ := by
  refine h.step hseq ?_ ?_ ?_ henv
  · rw [hc]
    exact .refl _
  · rw [hc]
    exact h.items
  · intro id row hid
    exact .inl ⟨id, row, by rw [← hc]; exact hid, rfl⟩

theorem confirm (h : MessageLog calls w) (t : T) : MessageLog calls ⟨w.db, confirm t w.env⟩ := by
  refine h.same_rows rfl le_rfl fun sent hmem => .inl ?_
  obtain ⟨old, hold, -, hmessage⟩ := mem_confirm hmem
  exact ⟨old, hold, hmessage⟩

omit [DecidableEq T] in
theorem send (h : MessageLog calls w) {t : T} {m : OrderPlacedMessage} (hm : Announced calls w.db.committed m) :
    MessageLog calls ⟨w.db, w.env ++ [⟨t, m, false⟩]⟩ := by
  refine h.same_rows rfl le_rfl fun sent hmem => ?_
  rcases List.mem_append.mp hmem with hmem | hmem
  · exact .inl ⟨sent, hmem, rfl⟩
  · obtain rfl := List.mem_singleton.mp hmem
    exact .inr hm

omit [DecidableEq T] in
theorem same_env (env : List (Sent T)) (tables : Tables T) :
    ∀ sent ∈ env, (∃ old ∈ env, old.message = sent.message) ∨ Announced calls tables sent.message :=
  fun sent hmem => .inl ⟨sent, hmem, rfl⟩

omit [DecidableEq T] in
theorem fresh_order (h : MessageLog calls w) {n : ℕ} (hn : w.db.committed (.order n) = none) {id : ℕ}
    {row : OrderItemRow} (hid : w.db.committed (.orderItem id) = some row) : row.orderId ≠ n := by
  rintro rfl
  obtain ⟨order, horder⟩ := h.items id row hid
  rw [hn] at horder
  cases horder

theorem commit_create (h : MessageLog calls w) {t : T} {A : Allowed T} {C : T → ShopWorld T → ShopWorld T → Prop}
    {D : Discipline ((ShopMachine T).restrict A C)} {items : List CreateOrderItemInput} {key : String}
    {S : PriceReads D t items key} {placed : PlacedOrder T} {lines : List OrderLine} (ht : ¬(calls t).IsCheckout)
    (hc : placed.Committed w.db.committed (w.db.commit t).committed) (hp : S.Places t placed lines)
    (hpos : 1 ≤ placed.orderId) :
    KeepsOrders w.db.committed (w.db.commit t).committed ∧ MessageLog calls ⟨w.db.commit t, w.env⟩ := by
  have horders : ∀ n order, w.db.committed (.order n) = some order →
    (w.db.commit t).committed (.order n) = some order := by
    intro n order hn
    have hne : n ≠ placed.orderId := by
      rintro rfl
      rw [hc.order_old] at hn
      cases hn
    exact (hc.orders n hne).trans hn
  have hkeeps : KeepsOrders w.db.committed (w.db.commit t).committed := by
    refine ⟨horders, fun _ _ => hc.keep_item, fun id row hid => (hc.item_cases hid).imp_right fun hmem => ?_⟩
    rw [stores_orderId hp.stored _ hmem]
    exact hc.order_old
  have hitems : OrderItems (w.db.commit t).committed placed.orderId placed.items :=
    orderItems_placed hc (fun id row hid => h.fresh_order hc.order_old hid) hp.sorted (stores_orderId hp.stored)
  refine ⟨hkeeps, h.step (by rw [Database.seq_commit]) hkeeps ?_ ?_ (same_env _ _)⟩
  · intro id row hid
    rcases hc.item_cases hid with hold | hmem
    · obtain ⟨order, horder⟩ := h.items id row hold
      exact ⟨order, horders _ order horder⟩
    · rw [stores_orderId hp.stored _ hmem]
      exact ⟨_, hc.order⟩
  · intro id row hid
    rcases hc.message_cases hid with hold | ⟨rfl, rfl⟩
    · exact .inl ⟨id, row, hold, rfl⟩
    · have hcarries := carries_of_places hp
      refine .inr ⟨placed.orderId, placed.order, placed.items, t, ⟨hc.order, hp.placedBy, hitems⟩, hcarries.eventId,
        fun p heq => ?_, fun e heq => by cases heq⟩
      cases heq
      exact ⟨hpos, hcarries, ht⟩

theorem commit_checkout (h : MessageLog calls w) {t : T} {placed : PlacedCheckout}
    (hc : placed.Committed t w.db.committed (w.db.commit t).committed) :
    KeepsOrders w.db.committed (w.db.commit t).committed ∧ MessageLog calls ⟨w.db.commit t, w.env⟩ ∧
      IsOrder (w.db.commit t).committed placed.orderId (placed.order t) [(placed.itemId, placed.item)] t := by
  have horders : ∀ n order, w.db.committed (.order n) = some order →
    (w.db.commit t).committed (.order n) = some order := by
    intro n order hn
    have hne : n ≠ placed.orderId := by
      rintro rfl
      rw [hc.order_old] at hn
      cases hn
    exact (hc.orders n hne).trans hn
  have hkeeps : KeepsOrders w.db.committed (w.db.commit t).committed := by
    refine ⟨horders, fun _ _ => hc.keep_item, fun id row hid => (hc.item_cases hid).imp_right ?_⟩
    rintro ⟨-, rfl⟩
    exact hc.order_old
  refine ⟨hkeeps, h.step (by rw [Database.seq_commit]) hkeeps ?_ ?_ (same_env _ _), hc.order, rfl, by simp, ?_⟩
  · intro id row hid
    rcases hc.item_cases hid with hold | ⟨-, rfl⟩
    · obtain ⟨order, horder⟩ := h.items id row hold
      exact ⟨order, horders _ order horder⟩
    · exact ⟨_, hc.order⟩
  · intro id row hid
    exact .inl ⟨id, row, (hc.messages id).symm.trans hid, rfl⟩
  · intro id row
    constructor
    · intro hmem
      cases List.mem_singleton.mp hmem
      exact ⟨hc.item, rfl⟩
    · rintro ⟨hid, hrow⟩
      rcases hc.item_cases hid with hold | ⟨rfl, rfl⟩
      · exact absurd hrow (h.fresh_order hc.order_old hold)
      · exact List.mem_singleton.mpr rfl

theorem commit_relay (h : MessageLog calls w) {t : T} {rows : List (ℕ × OutboxMessageRow)}
    (hc : Relayed rows w.db.committed (w.db.commit t).committed) :
    KeepsOrders w.db.committed (w.db.commit t).committed ∧ MessageLog calls ⟨w.db.commit t, w.env⟩ := by
  have horder (n : ℕ) : (w.db.commit t).committed (.order n) = w.db.committed (.order n) := hc.others _ (by simp)
  have hitem (id : ℕ) : (w.db.commit t).committed (.orderItem id) = w.db.committed (.orderItem id) :=
    hc.others _ (by simp)
  have hkeeps : KeepsOrders w.db.committed (w.db.commit t).committed :=
    ⟨fun n _ hn => (horder n).trans hn, fun id _ hid => (hitem id).trans hid, fun id _ hid => .inl
        ((hitem id).symm.trans hid)⟩
  refine ⟨hkeeps, h.step (by rw [Database.seq_commit]) hkeeps ?_ ?_ (same_env _ _)⟩
  · intro id row hid
    rw [hitem] at hid
    obtain ⟨order, hn⟩ := h.items id row hid
    exact ⟨order, (horder _).trans hn⟩
  · intro id row hid
    rcases hc.message_cases id row hid with ⟨p, -, -, hpayload, -, -, hold⟩ | hold
    · exact .inl ⟨id, p.2, hold, hpayload⟩
    · exact .inl ⟨id, row, hold, rfl⟩

end MessageLog

section Discipline

variable (calls : T → OrderCall)

def messageLedger : Discipline (ShopMachine T).unrestricted where
  inv := MessageLog calls
  always w w' := KeepsOrders w.db.committed w'.db.committed
  rely _ _ _ := True
  gone _ _ := True
  always_refl _ := .refl _
  always_trans := .trans
  rely_refl _ _ := trivial
  rely_trans _ _ _ _ _ _ := trivial

variable {calls}

theorem messageLedger_allows {t : T} {w w' : ShopWorld T} (hi : MessageLog calls w')
    (hc : w'.db.committed = w.db.committed) : (messageLedger calls).Allows t w w' := by
  refine ⟨hi, ?_, fun _ _ => trivial⟩
  change KeepsOrders _ _
  rw [hc]
  exact .refl _

theorem messageLedger_calm : Calm (messageLedger calls) where
  works hi hw := messageLedger_allows
    (MessageLog.same_rows hi hw.committed (hw.seq _) (MessageLog.same_env _ _)) hw.committed
  rollback hi := messageLedger_allows (MessageLog.same_rows hi Database.committed_rollback
    (Nat.le_of_eq (by rw [Database.seq_rollback])) (MessageLog.same_env _ _)) Database.committed_rollback
  crash {t w w'} hi hc _ := by
    obtain ⟨hdb, henv⟩ := hc
    obtain ⟨db, env⟩ := w'
    simp only at hdb henv
    subst hdb
    refine ⟨messageLedger_allows (MessageLog.same_rows hi Database.committed_rollback
      (Nat.le_of_eq (by rw [Database.seq_rollback])) fun sent hmem => .inl ?_) Database.committed_rollback,
          fun _ _ => trivial⟩
    rcases henv with rfl | rfl
    · exact ⟨sent, hmem, rfl⟩
    · obtain ⟨old, hold, -, hmessage⟩ := mem_confirm hmem
      exact ⟨old, hold, hmessage⟩

theorem messageLedger_starts {t : T} {w : ShopWorld T} (hi : MessageLog calls w) :
    (messageLedger calls).Allows t w ⟨w.db.setTxn t ⟨.inProgress, 0⟩, w.env⟩ :=
  messageLedger_allows (MessageLog.same_rows hi rfl le_rfl (MessageLog.same_env _ _)) rfl

theorem messageLedger_relay (t : T) : RelayRules (messageLedger calls) t where
  calm := messageLedger_calm
  starts hi _ := messageLedger_starts hi
  sends {w ws c rows processed p rest} hi hat hws hrows _ := by
    obtain ⟨-, new, hnew, -, -⟩ := hws.selected p (by simp [hrows])
    exact messageLedger_allows (MessageLog.send hi (MessageLog.outbox hi p.1 p.2 (hat.committed_old hnew))) rfl
  confirms hi := messageLedger_allows (MessageLog.confirm hi _) rfl
  commits hi hat hws hmarked _ _ := by
    obtain ⟨hkeeps, hi'⟩ := MessageLog.commit_relay hi (hws.committed hmarked hat)
    exact ⟨hi', hkeeps, fun _ _ => trivial⟩

def messageLedger_create {t : T} (ht : ¬(calls t).IsCheckout) (items : List CreateOrderItemInput) (key : String) :
    CreateRules (messageLedger calls) t items key (fun _ => True) fun _ _ => True where
  calm := messageLedger_calm
  reads := noReads _ t items key
  firstOrder := 1
  ordersFrom hi := MessageLog.sequence hi
  stable _ := .const
  failures _ _ := trivial
  bound _ _ _ _ := trivial
  starts hi := messageLedger_starts hi
  replays {w row response c} hi hat _ := by
    have hsame := hat.committed_unchanged Workspace.set_empty_locked
    exact ⟨messageLedger_allows (MessageLog.same_rows hi hsame (Nat.le_of_eq (by rw [Database.seq_commit]))
      (MessageLog.same_env _ _)) hsame, trivial⟩
  places {w r} placed lines hi hat hp _ hpos _ := by
    obtain ⟨hkeeps, hi'⟩ := MessageLog.commit_create hi ht (PlacedOrder.committed hat hp.sorted) hp hpos
    exact ⟨⟨hi', hkeeps, fun _ _ => trivial⟩, trivial⟩

def Bought (t : T) (n : ℕ) (w : ShopWorld T) : Prop := ∃ order stored, IsOrder w.db.committed n order stored t

theorem bought_stable (t : T) (n : ℕ) : (messageLedger calls).Stable t (Bought t n) := by
  rintro w w' _ ⟨order, stored, horder⟩ hs
  exact ⟨order, stored, KeepsOrders.isOrder hs.always horder⟩

theorem messageLedger_checkout {t : T} (ht : (calls t).IsCheckout) : CheckoutRules (messageLedger calls) t
    (fun _ => True) (fun _ => True) (fun result => Bought t result.orderId) fun _ _ => True where
  calm := messageLedger_calm
  kept := .const
  broken := .const
  stable _ := bought_stable t _
  published _ := .const
  fails _ _ := trivial
  starts hi _ := ⟨messageLedger_starts hi, trivial⟩
  aborts _ _ := trivial
  commits placed hi hat _ _ _ _ _ := by
    obtain ⟨hkeeps, hi', horder⟩ := MessageLog.commit_checkout hi (PlacedCheckout.committed hat)
    exact ⟨⟨hi', hkeeps, fun _ _ => trivial⟩, fun _ => ⟨_, _, horder⟩, fun _ => trivial⟩
  publishes result event hm := publishOrderPlaced_spec messageLedger_calm (Bought t result.orderId)
    { before := bought_stable t _
      sent := bought_stable t _
      confirmed := .const
      broken := .const
      sends := by
        rintro w hi ⟨order, stored, horder⟩
        refine ⟨messageLedger_allows (MessageLog.send hi ?_) rfl, order, stored, horder⟩
        exact ⟨result.orderId, order, stored, t, horder, hm, fun _ heq => (by cases heq), fun _ _ => ht⟩
      confirms := fun w hi _ => ⟨messageLedger_allows (MessageLog.confirm hi t) rfl, trivial⟩
      fails := fun _ _ _ _ _ _ => trivial }

theorem OrderCall.run_messages (t : T) : (messageLedger calls).Triple t
    (fun w => w.db.workspace t = Workspace.empty ∧ outgoing t w.env = [])
    ((calls t).run t) (fun _ _ => True) fun _ _ => True := by
  cases hcall : calls t with
  | create input key =>
    have ht : ¬(calls t).IsCheckout := by
      rw [hcall]
      exact fun h => h
    exact .bind ((create_spec (messageLedger_create ht _ key)).pre fun w _ h => h.1) fun _ =>
      .pure .const fun _ _ _ => trivial
  | checkout input =>
    have ht : (calls t).IsCheckout := by
      rw [hcall]
      trivial
    exact .bind ((checkout_spec (messageLedger_checkout ht) input).pre fun w _ h => ⟨h.1, trivial⟩) fun _ =>
      .pure .const fun _ _ _ => trivial
  | relay options =>
    exact .bind (relayOutboxBatch_spec (messageLedger_relay t) options) fun _ => .pure .const fun _ _ _ => trivial

end Discipline

structure NothingAnnounced (w : ShopWorld T) : Prop extends NothingOrdered w where
  sequence : 1 ≤ w.db.seq .orders
  items : ∀ id row, w.db.committed (.orderItem id) = some row →
      ∃ order, w.db.committed (.order row.orderId) = some order

omit [DecidableEq T] in
theorem NothingAnnounced.messageLog {w : ShopWorld T} (hw : NothingAnnounced w) (calls : T → OrderCall) :
    MessageLog calls w where
  sequence := hw.sequence
  items := hw.items
  outbox id row hid := by
    rw [hw.messages] at hid
    cases hid
  sent sent hmem := by
    rw [hw.log] at hmem
    cases hmem

/-- A published message is about an order of one of the calls, and it is understood unless a checkout
placed the order. -/
theorem published_message_understood_iff (calls : T → OrderCall) {w : ShopWorld T} (hw : NothingAnnounced w)
    {c : ShopConfig T Unit} (h : (ShopMachine T).Reachable (.start w fun t => (calls t).run t) c) {sent : Sent T}
    (hsent : sent ∈ c.shared.env) :
    ∃ n order stored t, IsOrder c.shared.db.committed n order stored t ∧
      sent.message.eventId = orderPlacedEventId n ∧
      (Understood sent.message.content n order stored ↔ ¬(calls t).IsCheckout) := by
  have hstart (t : T) : w.db.workspace t = Workspace.empty ∧ outgoing t w.env = [] :=
    ⟨hw.quiescent.workspace t, by rw [hw.log]; rfl⟩
  obtain ⟨hlog, -, -⟩ := Discipline.run_holds (D := messageLedger calls) (hw.messageLog calls) hstart
    OrderCall.run_messages h.unrestricted
  obtain ⟨n, order, stored, t, horder, hannounces⟩ := MessageLog.sent hlog sent hsent
  refine ⟨n, order, stored, t, horder, hannounces.eventId, ?_⟩
  cases hmessage : sent.message with
  | payload p =>
    obtain ⟨hpos, hcarries, ht⟩ := hannounces.payload p hmessage
    exact ⟨fun _ => ht, fun _ => hcarries.understood hpos⟩
  | event e => exact ⟨fun hu => absurd hu (not_understood_event e), fun ht => absurd (hannounces.event e hmessage) ht⟩

omit [DecidableEq T] in
theorem seeded_nothingAnnounced : NothingAnnounced (ShopWorld.seeded (T := T)) where
  toNothingOrdered := seeded_nothingOrdered
  sequence := le_rfl
  items _ _ h := nomatch h

-- both orders of this run are announced, the first one by its checkout
theorem published_message_understood_delivered : ∃ c : ShopConfig ℕ Unit,
    (ShopMachine ℕ).Reachable (.start .seeded fun t => (deliveredCalls t).run t) c ∧
      c.shared.env.map (·.sender) = [0, 2] ∧
      ∀ sent ∈ c.shared.env, ∃ n order stored t, IsOrder c.shared.db.committed n order stored t ∧
      sent.message.eventId = orderPlacedEventId n ∧
      (Understood sent.message.content n order stored ↔ ¬(deliveredCalls t).IsCheckout) := by
  have hrun : ∃ c : ShopConfig ℕ Unit, (ShopMachine ℕ).Reachable
      (.start .seeded fun t => (deliveredCalls t).run t) c ∧ c.shared.env.map (·.sender) = [0, 2] := by
    apply exists_reachable (S := withDatabaseMoves shopMoves .database) deliveredSchedule
    decide
  obtain ⟨c, hc, hsenders⟩ := hrun
  exact ⟨c, hc, hsenders, fun sent hsent =>
    published_message_understood_iff deliveredCalls seeded_nothingAnnounced hc hsent⟩

def soldSchedule : List (ℕ × Option (DatabaseMove ShopMove)) :=
  List.replicate 17 (0, some .go) ++ List.replicate 5 (0, some (.ext (.ok 5)))

/-- The consumer accepts the event of a checkout for an `OrderPlacedPayload`, which it is not. -/
theorem checkout_event_misread : ∃ c : ShopConfig ℕ Unit,
    (ShopMachine ℕ).Reachable (.start .seeded fun t => (OrderCall.checkout soldInput).run t) c ∧
      c.shared.db.committed (.order 1) = some ⟨1, .created, 300, some 0⟩ ∧
      ∃ sent ∈ c.shared.env, sent.message.eventId = orderPlacedEventId 1 ∧
      ∃ value, JsonValue.ofBytes sent.message.content = some value ∧
      (∃ event, parseOrderPlacedEvent (some value) = .ok event) ∧ ∀ declared, ¬value.IsPayload declared := by
  have hrun : ∃ c : ShopConfig ℕ Unit,
      (ShopMachine ℕ).Reachable (.start .seeded fun t => (OrderCall.checkout soldInput).run t) c ∧
        c.shared.db.committed (.order 1) = some ⟨1, .created, 300, some 0⟩ ∧
        c.shared.env = [⟨0, .event (createOrderPlacedEvent soldInput 3 ⟨1, 300, 2⟩ 5), true⟩] := by
    apply exists_reachable (S := withDatabaseMoves shopMoves .database) soldSchedule
    decide
  obtain ⟨c, hc, horder, henv⟩ := hrun
  have hjson := (createOrderPlacedEvent soldInput 3 ⟨1, 300, 2⟩ 5).json_plain
  refine ⟨c, hc, horder, ⟨0, .event (createOrderPlacedEvent soldInput 3 ⟨1, 300, 2⟩ 5), true⟩, ?_, rfl, _,
    JsonValue.ofBytes_bytes hjson, createOrderPlacedEvent_accepted .., OrderPlacedEvent.not_payload _⟩
  rw [henv]
  exact List.mem_singleton.mpr rfl

end Marketplace
