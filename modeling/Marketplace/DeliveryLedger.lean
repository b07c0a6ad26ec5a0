import Marketplace.CheckoutTransaction
import Marketplace.OrderLedger
import Marketplace.RelayTransaction

namespace Marketplace

open Concurrent ReadCommitted

variable {T : Type}

inductive OrderCall
  | create (input : CreateOrderInput) (idempotencyKey : String)
  | checkout (input : CheckoutInput)
  | relay (options : RelayOptions)

def OrderCall.IsCheckout : OrderCall → Prop
  | .checkout _ => True
  | _ => False

def OrderCall.run (self : T) : OrderCall → ShopCall T Unit
  | .create input idempotencyKey => do
    let _ ← Marketplace.create self input idempotencyKey
    pure ()
  | .checkout input => do
    let _ ← Marketplace.checkout self input
    pure ()
  | .relay options => do
    let _ ← relayOutboxBatch options
    pure ()

-- the event of order `n` waits in the outbox or has been confirmed by the broker
def Delivered (n : ℕ) (w : ShopWorld T) : Prop :=
  (∃ id row, w.db.committed (.outboxMessage id) = some row ∧ row.eventId = orderPlacedEventId n ∧
    row.publishedAt = none) ∨
  ∃ sent ∈ w.env, sent.confirmed ∧ sent.message.eventId = orderPlacedEventId n

def Settled (t : T) (w : ShopWorld T) : Prop :=
  ∀ n order, w.db.committed (.order n) = some order → order.placedBy = some t → Delivered n w

/-- `t` is a checkout that has committed and whose event the broker has not confirmed. -/
structure Unconfirmed (calls : T → OrderCall) (t : T) (w : ShopWorld T) : Prop where
  checkout : (calls t).IsCheckout
  committed : (w.db.txn t).status = .committed
  sent : ∀ sent ∈ w.env, sent.sender = t → sent.confirmed = false

structure EventLog (calls : T → OrderCall) (w : ShopWorld T) : Prop where
  created : ∀ n order t, w.db.committed (.order n) = some order → order.placedBy = some t →
    ¬(calls t).IsCheckout → ∃ id row, w.db.committed (.outboxMessage id) = some row ∧
      row.eventId = orderPlacedEventId n
  payload : ∀ id row, w.db.committed (.outboxMessage id) = some row → row.payload.eventId = row.eventId
  marked : ∀ id row, w.db.committed (.outboxMessage id) = some row → row.publishedAt ≠ none →
    ∃ sent ∈ w.env, sent.confirmed ∧ sent.message.eventId = row.eventId
  status : ∀ n order t, w.db.committed (.order n) = some order → order.placedBy = some t →
    (calls t).IsCheckout → (w.db.txn t).status = .committed
  events : ∀ sent ∈ w.env, (calls sent.sender).IsCheckout → ∀ n order,
    w.db.committed (.order n) = some order → order.placedBy = some sent.sender →
    sent.message.eventId = orderPlacedEventId n

theorem EventLog.settled {calls : T → OrderCall} {w : ShopWorld T} (h : EventLog calls w) {t : T}
    (ht : ¬Unconfirmed calls t w) : Settled t w := by
  intro n order hn hby
  by_cases hcheckout : (calls t).IsCheckout
  · have hstatus := h.status n order t hn hby hcheckout
    obtain ⟨sent, hmem, hsender, hconfirmed⟩ : ∃ sent ∈ w.env, sent.sender = t ∧ sent.confirmed = true := by
      by_contra hnone
      refine ht ⟨hcheckout, hstatus, fun sent hmem hsender => ?_⟩
      by_contra hconfirmed
      exact hnone ⟨sent, hmem, hsender, by simpa using hconfirmed⟩
    subst hsender
    exact .inr ⟨sent, hmem, hconfirmed, h.events sent hmem hcheckout n order hn hby⟩
  · obtain ⟨id, row, hrow, hevent⟩ := h.created n order t hn hby hcheckout
    by_cases hpub : row.publishedAt = none
    · exact .inl ⟨id, row, hrow, hevent, hpub⟩
    · obtain ⟨sent, hmem, hconfirmed, hsent⟩ := h.marked id row hrow hpub
      exact .inr ⟨sent, hmem, hconfirmed, hsent.trans hevent⟩

variable [DecidableEq T]

namespace EventLog

variable {calls : T → OrderCall} {w : ShopWorld T}

theorem step (h : EventLog calls w) {db : Database T Serial Key (Row T)}
    (horders : ∀ n order t, db.committed (.order n) = some order → order.placedBy = some t →
      w.db.committed (.order n) = some order ∨
      ((calls t).IsCheckout → (db.txn t).status = .committed ∧ outgoing t w.env = []) ∧
      (¬(calls t).IsCheckout → ∃ id row, db.committed (.outboxMessage id) = some row ∧
      row.eventId = orderPlacedEventId n))
    (hkeep : ∀ id row, w.db.committed (.outboxMessage id) = some row →
      ∃ row', db.committed (.outboxMessage id) = some row' ∧ row'.eventId = row.eventId)
    (hpayload : ∀ id row, db.committed (.outboxMessage id) = some row → row.payload.eventId = row.eventId)
    (hmarked : ∀ id row, db.committed (.outboxMessage id) = some row → row.publishedAt ≠ none →
      w.db.committed (.outboxMessage id) = some row ∨
      ∃ sent ∈ w.env, sent.confirmed ∧ sent.message.eventId = row.eventId)
    (hstatus : ∀ n order t, w.db.committed (.order n) = some order → order.placedBy = some t →
      (calls t).IsCheckout → (w.db.txn t).status = .committed → (db.txn t).status = .committed) :
    EventLog calls ⟨db, w.env⟩ := by
  refine ⟨?_, hpayload, ?_, ?_, ?_⟩
  · intro n order t hn hby ht
    rcases horders n order t hn hby with hold | ⟨-, hnew⟩
    · obtain ⟨id, row, hrow, hevent⟩ := h.created n order t hold hby ht
      obtain ⟨row', hrow', hevent'⟩ := hkeep id row hrow
      exact ⟨id, row', hrow', hevent'.trans hevent⟩
    · exact hnew ht
  · intro id row hrow hpub
    rcases hmarked id row hrow hpub with hold | hsent
    · exact h.marked id row hold hpub
    · exact hsent
  · intro n order t hn hby ht
    rcases horders n order t hn hby with hold | ⟨hnew, -⟩
    · exact hstatus n order t hold hby ht (h.status n order t hold hby ht)
    · exact (hnew ht).1
  · intro sent hmem ht n order hn hby
    rcases horders n order sent.sender hn hby with hold | ⟨hnew, -⟩
    · exact h.events sent hmem ht n order hold hby
    · have hout := mem_outgoing.mpr ⟨hmem, rfl⟩
      rw [(hnew ht).2] at hout
      cases hout

theorem same_rows (h : EventLog calls w) {db : Database T Serial Key (Row T)}
    (hc : db.committed = w.db.committed)
    (hstatus : ∀ n order t, w.db.committed (.order n) = some order → order.placedBy = some t →
      (calls t).IsCheckout → (w.db.txn t).status = .committed → (db.txn t).status = .committed) :
    EventLog calls ⟨db, w.env⟩ := by
  refine h.step ?_ ?_ ?_ ?_ hstatus
  · intro n order t hn _
    exact .inl (by rw [← hc]; exact hn)
  · intro id row hrow
    exact ⟨row, by rw [hc]; exact hrow, rfl⟩
  · rw [hc]
    exact h.payload
  · intro id row hrow _
    exact .inl (by rw [← hc]; exact hrow)

theorem works (h : EventLog calls w) {t : T} {db : Database T Serial Key (Row T)} (hw : w.db.Works t db) :
    EventLog calls ⟨db, w.env⟩ := by
  refine h.same_rows hw.committed fun n order t' _ _ _ hs => ?_
  by_cases ht : t = t'
  · subst ht
    exact hw.status.trans hs
  · rw [(hw.frame t' ht).txn]
    exact hs

theorem rollback (h : EventLog calls w) (t : T) : EventLog calls ⟨w.db.rollback t, w.env⟩ := by
  refine h.same_rows Database.committed_rollback fun n order t' _ _ _ hs => ?_
  by_cases ht : t = t'
  · subst ht
    rw [Database.rollback, if_neg (by simp [hs])]
    exact hs
  · rw [Database.txn_rollback_of_ne ht]
    exact hs

theorem begin (h : EventLog calls w) {t : T} {x : Txn} (ht : (calls t).IsCheckout → ∀ n order,
    w.db.committed (.order n) = some order → order.placedBy ≠ some t) :
    EventLog calls ⟨w.db.setTxn t x, w.env⟩ := by
  refine h.same_rows rfl fun n order t' hn hby hcheckout hs => ?_
  have hne : t ≠ t' := by
    rintro rfl
    exact ht hcheckout n order hn hby
  rw [Database.txn_setTxn_of_ne hne]
  exact hs

omit [DecidableEq T] in
theorem send (h : EventLog calls w) {t : T} {m : OrderPlacedMessage} (hm : (calls t).IsCheckout → ∀ n order,
    w.db.committed (.order n) = some order → order.placedBy = some t → m.eventId = orderPlacedEventId n) :
    EventLog calls ⟨w.db, w.env ++ [⟨t, m, false⟩]⟩ := by
  refine ⟨h.created, h.payload, ?_, h.status, ?_⟩
  · intro id row hrow hpub
    obtain ⟨sent, hmem, hsent⟩ := h.marked id row hrow hpub
    exact ⟨sent, List.mem_append_left _ hmem, hsent⟩
  · intro sent hmem ht n order hn hby
    rcases List.mem_append.mp hmem with hmem | hmem
    · exact h.events sent hmem ht n order hn hby
    · obtain rfl := List.mem_singleton.mp hmem
      exact hm ht n order hn hby

theorem confirm (h : EventLog calls w) (t : T) : EventLog calls ⟨w.db, confirm t w.env⟩ := by
  refine ⟨h.created, h.payload, ?_, h.status, ?_⟩
  · intro id row hrow hpub
    obtain ⟨sent, hmem, hconfirmed, hsent⟩ := h.marked id row hrow hpub
    exact ⟨sent, confirm_mem hmem hconfirmed, hconfirmed, hsent⟩
  · intro sent hmem ht n order hn hby
    obtain ⟨sent', hmem', hs, hm⟩ := mem_confirm hmem
    rw [← hs] at ht hby
    rw [← hm]
    exact h.events sent' hmem' ht n order hn hby

theorem status_commit {t t' : T} (ht : ¬(calls t).IsCheckout) (ht' : (calls t').IsCheckout)
    (hs : (w.db.txn t').status = .committed) : ((w.db.commit t).txn t').status = .committed := by
  have hne : t ≠ t' := by
    rintro rfl
    exact ht ht'
  rw [Database.txn_commit_of_ne hne]
  exact hs

theorem commit_create (h : EventLog calls w) {t : T} {placed : PlacedOrder T}
    (ht : ¬(calls t).IsCheckout) (hc : placed.Committed w.db.committed (w.db.commit t).committed)
    (hby : placed.order.placedBy = some t) (hevent : placed.outbox.eventId = orderPlacedEventId placed.orderId)
    (hpayload : placed.outbox.payload.eventId = placed.outbox.eventId) (hpub : placed.outbox.publishedAt = none) :
    EventLog calls ⟨w.db.commit t, w.env⟩ := by
  refine h.step ?_ ?_ ?_ ?_ fun _ _ t' _ _ ht' hs => status_commit ht ht' hs
  · intro n order t' hn hby'
    rcases hc.order_cases hn with hold | ⟨rfl, rfl⟩
    · exact .inl hold
    · rw [hby] at hby'
      cases hby'
      exact .inr ⟨fun hcheckout => absurd hcheckout ht, fun _ => ⟨_, _, hc.message, hevent⟩⟩
  · intro id row hid
    exact ⟨row, hc.keep_message hid, rfl⟩
  · intro id row hid
    rcases hc.message_cases hid with hold | ⟨rfl, rfl⟩
    · exact h.payload id row hold
    · exact hpayload
  · intro id row hid hne
    rcases hc.message_cases hid with hold | ⟨rfl, rfl⟩
    · exact .inl hold
    · exact absurd hpub hne

theorem commit_checkout (h : EventLog calls w) {t : T} {placed : PlacedCheckout} {ws : Workspace Key (Row T)} {c : ℕ}
    (hat : At t ws c w) (hc : placed.Committed t w.db.committed (w.db.commit t).committed)
    (ht : (calls t).IsCheckout) (hsent : outgoing t w.env = []) : EventLog calls ⟨w.db.commit t, w.env⟩ := by
  have hcommitted : ((w.db.commit t).txn t).status = .committed := by
    rw [Database.txn_commit (by rw [hat.txn])]
  refine h.step ?_ ?_ ?_ ?_ ?_
  · intro n order t' hn hby
    rcases hc.order_cases hn with hold | ⟨rfl, rfl⟩
    · exact .inl hold
    · cases hby
      exact .inr ⟨fun _ => ⟨hcommitted, hsent⟩, fun hnot => absurd ht hnot⟩
  · intro id row hid
    exact ⟨row, (hc.messages id).trans hid, rfl⟩
  · intro id row hid
    exact h.payload id row ((hc.messages id).symm.trans hid)
  · intro id row hid _
    exact .inl ((hc.messages id).symm.trans hid)
  · intro _ _ t' _ _ _ hs
    by_cases hne : t = t'
    · subst hne
      exact hcommitted
    · rw [Database.txn_commit_of_ne hne]
      exact hs

theorem commit_relay (h : EventLog calls w) {t : T} {rows : List (ℕ × OutboxMessageRow)}
    (ht : ¬(calls t).IsCheckout) (hc : Relayed rows w.db.committed (w.db.commit t).committed)
    (hsent : outgoing t w.env = publishedBy t rows) : EventLog calls ⟨w.db.commit t, w.env⟩ := by
  refine h.step ?_ ?_ ?_ ?_ fun _ _ t' _ _ ht' hs => status_commit ht ht' hs
  · intro n order t' hn _
    exact .inl ((hc.others _ (by simp)).symm.trans hn)
  · intro id row hid
    obtain ⟨row', hid', -, hevent, -⟩ := hc.keep_message id row hid
    exact ⟨row', hid', hevent⟩
  · intro id row hid
    rcases hc.message_cases id row hid with ⟨p, -, -, hpayload, hevent, -, hold⟩ | hold
    · rw [← hpayload, ← hevent]
      exact h.payload id p.2 hold
    · exact h.payload id row hold
  · intro id row hid _
    rcases hc.message_cases id row hid with ⟨p, hp, -, hpayload, hevent, -, hold⟩ | hold
    · right
      have hmem : (⟨t, .payload p.2.payload, true⟩ : Sent T) ∈ outgoing t w.env := by
        rw [hsent]
        exact List.mem_map.mpr ⟨p, hp, rfl⟩
      refine ⟨_, (mem_outgoing.mp hmem).1, rfl, ?_⟩
      rw [← hevent, ← h.payload id p.2 hold]
      rfl
    · exact .inl hold

end EventLog

-- a checkout does not fail or crash between its COMMIT and the broker's confirmation
def confirmingShop (calls : T → OrderCall) :
    Machine T (ShopWorld T) (Action Serial Key (Row T) ShopOp) (Action.Res ShopOp.Res) Failure :=
  (ShopMachine T).restrict (fun t _ _ r w' => Unconfirmed calls t w' → ∃ a, r = .ok a)
    fun t _ w' => ¬Unconfirmed calls t w'

section Discipline

variable (calls : T → OrderCall)

def deliveryLedger : Discipline (confirmingShop calls) where
  inv := EventLog calls
  always _ _ := True
  rely t w w' := (∀ n order, w'.db.committed (.order n) = some order → order.placedBy = some t →
      w.db.committed (.order n) = some order) ∧
    (∀ id row, w.db.committed (.outboxMessage id) = some row →
      ∃ row', w'.db.committed (.outboxMessage id) = some row' ∧ row'.eventId = row.eventId) ∧
    ∀ sent ∈ w.env, sent.confirmed → sent ∈ w'.env
  gone := Settled
  always_refl _ := trivial
  always_trans _ _ := trivial
  rely_refl _ _ := ⟨fun _ _ h _ => h, fun _ row h => ⟨row, h, rfl⟩, fun _ h _ => h⟩
  rely_trans _ _ _ _ h h' := by
    obtain ⟨horders, hrows, hsent⟩ := h
    obtain ⟨horders', hrows', hsent'⟩ := h'
    refine ⟨fun n order hn hby => horders n order (horders' n order hn hby) hby, fun id row hid => ?_,
      fun sent hmem hc => hsent' sent (hsent sent hmem hc) hc⟩
    obtain ⟨row', hid', hevent⟩ := hrows id row hid
    obtain ⟨row'', hid'', hevent'⟩ := hrows' id row' hid'
    exact ⟨row'', hid'', hevent'.trans hevent⟩

variable {calls}

theorem settled_stable (t : T) : (deliveryLedger calls).Stable t (Settled t) := by
  intro w w' _ h hs n order hn hby
  obtain ⟨horders, hrows, hsent⟩ := hs.rely
  rcases h n order (horders n order hn hby) hby with ⟨id, row, hid, hevent, -⟩ | ⟨sent, hmem, hc, hevent⟩
  · obtain ⟨row', hid', hevent'⟩ := hrows id row hid
    by_cases hpub : row'.publishedAt = none
    · exact .inl ⟨id, row', hid', hevent'.trans hevent, hpub⟩
    · obtain ⟨sent, hmem, hc, hsent⟩ := hs.inv.marked id row' hid' hpub
      exact .inr ⟨sent, hmem, hc, hsent.trans (hevent'.trans hevent)⟩
  · exact .inr ⟨sent, hsent sent hmem hc, hc, hevent⟩

theorem deliveryLedger_allows {t : T} {w w' : ShopWorld T} (hi : EventLog calls w')
    (hc : w'.db.committed = w.db.committed) (hsent : ∀ sent ∈ w.env, sent.confirmed → sent ∈ w'.env) :
    (deliveryLedger calls).Allows t w w' := by
  refine ⟨hi, trivial, fun t' _ => ⟨fun n order hn _ => ?_, fun id row hid => ⟨row, ?_, rfl⟩, hsent⟩⟩
  · rw [← hc]
    exact hn
  · rw [hc]
    exact hid

theorem deliveryLedger_calm : Calm (deliveryLedger calls) where
  works hi hw := deliveryLedger_allows (EventLog.works hi hw) hw.committed fun _ h _ => h
  rollback hi := deliveryLedger_allows (EventLog.rollback hi _) Database.committed_rollback fun _ h _ => h
  crash {t w w'} hi hc hcrash := by
    obtain ⟨hdb, henv⟩ := hc
    have hr := EventLog.rollback hi t
    obtain ⟨db, env⟩ := w'
    simp only at hdb henv
    subst hdb
    have hi' : EventLog calls ⟨w.db.rollback t, env⟩ := by
      rcases henv with rfl | rfl
      · exact hr
      · exact hr.confirm t
    refine ⟨deliveryLedger_allows hi' Database.committed_rollback fun sent hmem hconfirmed => ?_, fun w'' hs => ?_⟩
    · rcases henv with rfl | rfl
      · exact hmem
      · exact confirm_mem hmem hconfirmed
    · exact settled_stable t _ _ hi' (hi'.settled hcrash) hs

theorem allows_confirm (t : T) {w : ShopWorld T} (hi : EventLog calls w) :
    (deliveryLedger calls).Allows t w ⟨w.db, confirm t w.env⟩ :=
  deliveryLedger_allows (hi.confirm t) rfl fun _ hmem hc => confirm_mem hmem hc

theorem deliveryLedger_relay {t : T} (ht : ¬(calls t).IsCheckout) : RelayRules (deliveryLedger calls) t where
  calm := deliveryLedger_calm
  starts hi _ := deliveryLedger_allows (EventLog.begin hi fun hcheckout => absurd hcheckout ht) rfl fun _ h _ => h
  sends hi _ _ _ _ := deliveryLedger_allows (EventLog.send hi fun hcheckout => absurd hcheckout ht) rfl
    fun _ h _ => List.mem_append_left _ h
  confirms hi := allows_confirm t hi
  commits {w ws c r rows} hi hat hws hmarked hsent _ := by
    have hc := hws.committed hmarked hat
    refine ⟨EventLog.commit_relay hi ht hc hsent, trivial, fun t' _ => ⟨fun n order hn _ => ?_, fun id row hid => ?_,
      fun _ h _ => h⟩⟩
    · exact (hc.others _ (by simp)).symm.trans hn
    · obtain ⟨row', hid', -, hevent, -⟩ := hc.keep_message id row hid
      exact ⟨row', hid', hevent⟩

def deliveryLedger_create {t : T} (ht : ¬(calls t).IsCheckout) (items : List CreateOrderItemInput) (key : String) :
    CreateRules (deliveryLedger calls) t items key (fun _ => True) fun _ _ => True where
  calm := deliveryLedger_calm
  reads := noReads _ t items key
  stable _ := .const
  failures _ _ := trivial
  bound _ _ _ _ := trivial
  starts hi := deliveryLedger_allows (EventLog.begin hi fun hcheckout => absurd hcheckout ht) rfl fun _ h _ => h
  replays {w row response c} hi hat _ := by
    have hsame := hat.committed_unchanged Workspace.set_empty_locked
    refine ⟨deliveryLedger_allows (EventLog.same_rows hi hsame ?_) hsame fun _ h _ => h, trivial⟩
    exact fun _ _ t' _ _ ht' hs => EventLog.status_commit ht ht' hs
  places {w r} placed lines hi hat hp _ _ _ := by
    have hc := PlacedOrder.committed hat hp.sorted
    have hpayload : placed.outbox.payload.eventId = placed.outbox.eventId := by
      obtain ⟨occurredAt, hpayload⟩ := hp.payload
      rw [hpayload]
      rfl
    refine ⟨⟨EventLog.commit_create hi ht hc hp.placedBy hp.eventId hpayload hp.publishedAt, trivial, fun t' hne =>
      ⟨fun n order hn hby => ?_, fun id row hid => ⟨row, hc.keep_message hid, rfl⟩, fun _ h _ => h⟩⟩, trivial⟩
    rcases hc.order_cases hn with hold | ⟨rfl, rfl⟩
    · exact hold
    · rw [hp.placedBy] at hby
      exact absurd (Option.some.inj hby) hne

def Unplaced (t : T) (w : ShopWorld T) : Prop :=
  ∀ n order, w.db.committed (.order n) = some order → order.placedBy ≠ some t

def PlacedOnly (t : T) (n : ℕ) (w : ShopWorld T) : Prop :=
  ∀ m order, w.db.committed (.order m) = some order → order.placedBy = some t → m = n

theorem unplaced_kept (t : T) : Kept (deliveryLedger calls) t (Unplaced t) where
  stable _ _ _ h hs n order hn hby := h n order (hs.rely.1 n order hn hby) hby
  works _ h hw n order hn := h n order (by rw [← hw.committed]; exact hn)

theorem placedOnly_stable (t : T) (n : ℕ) : (deliveryLedger calls).Stable t (PlacedOnly t n) :=
  fun _ _ _ h hs m order hm hby => h m order (hs.rely.1 m order hm hby) hby

theorem publish_checkout {t : T} {message : OrderPlacedMessage} {n : ℕ}
    (hm : message.eventId = orderPlacedEventId n) : (deliveryLedger calls).Triple t
      (fun w => PlacedOnly t n w ∧ outgoing t w.env = []) (publishOrderPlaced message)
      (fun _ => Settled t) fun _ => Settled t := by
  have hsent (sent : List (Sent T)) :
    (deliveryLedger calls).Stable t fun w => PlacedOnly t n w ∧ outgoing t w.env = sent :=
    (placedOnly_stable t n).and (outgoing_kept sent).stable
  refine publishOrderPlaced_spec deliveryLedger_calm
    (fun w => PlacedOnly t n w ∧ outgoing t w.env = [⟨t, message, false⟩])
    { before := hsent _
      sent := hsent _
      confirmed := settled_stable t
      broken := settled_stable t
      sends := fun w hi h => ⟨deliveryLedger_allows (EventLog.send hi ?_) rfl fun _ h _ => List.mem_append_left _ h,
        h.1, ?_⟩
      confirms := fun w hi h => ⟨allows_confirm t hi, EventLog.settled (hi.confirm t) ?_⟩
      fails := fun o w w' hi _ ha => EventLog.settled hi ?_ }
  · intro _ m order hm' hby
    rw [hm, h.1 m order hm' hby]
  · simp only [outgoing_append_self, h.2, List.nil_append]
  · intro hunconfirmed
    have hmem : (⟨t, message, true⟩ : Sent T) ∈ outgoing t (confirm t w.env) := by
      rw [outgoing_confirm_self, h.2]
      exact List.mem_singleton.mpr rfl
    have hfalse := hunconfirmed.sent _ (mem_outgoing.mp hmem).1 rfl
    cases hfalse
  · intro hunconfirmed
    obtain ⟨_, ha⟩ := ha hunconfirmed
    cases ha

theorem deliveryLedger_checkout {t : T} (ht : (calls t).IsCheckout) : CheckoutRules (deliveryLedger calls) t
    (fun w => Unplaced t w ∧ outgoing t w.env = []) (Settled t)
    (fun result w => PlacedOnly t result.orderId w ∧ outgoing t w.env = []) (fun _ => Settled t) where
  calm := deliveryLedger_calm
  kept := (unplaced_kept t).and (outgoing_kept [])
  broken := settled_stable t
  stable _ := (placedOnly_stable t _).and (outgoing_kept []).stable
  published _ := settled_stable t
  fails _ h n order hn hby := absurd hby (h.1 n order hn)
  starts hi h := ⟨deliveryLedger_allows (EventLog.begin hi fun _ => h.1) rfl fun _ h _ => h, h⟩
  aborts {w} _ h n order hn hby := by
    simp only [Database.committed_rollback] at hn
    simpa only [Delivered, Database.committed_rollback] using h n order hn hby
  commits {w r} placed hi hat hf _ _ _ ha := by
    have hc := PlacedCheckout.committed hat
    have hi' := EventLog.commit_checkout hi hat hc ht hf.2
    refine ⟨⟨hi', trivial, fun t' hne => ⟨fun n order hn hby => ?_, fun id row hid => ⟨row, ?_, rfl⟩, fun _ h _ => h⟩⟩,
      fun _ => ⟨fun m order hm hby => ?_, hf.2⟩, fun hr => hi'.settled fun hunconfirmed => ?_⟩
    · rcases hc.order_cases hn with hold | ⟨rfl, rfl⟩
      · exact hold
      · exact absurd (Option.some.inj hby) hne
    · exact (hc.messages id).trans hid
    · rcases hc.order_cases hm with hold | ⟨rfl, rfl⟩
      · exact absurd hby (hf.1 m order hold)
      · rfl
    · obtain ⟨_, ha⟩ := ha hunconfirmed
      rw [ha] at hr
      cases hr
  publishes _ _ hm := publish_checkout hm

theorem OrderCall.run_spec (t : T) : (deliveryLedger calls).Triple t
    (fun w => w.db.workspace t = Workspace.empty ∧ Unplaced t w ∧ outgoing t w.env = [])
    ((calls t).run t) (fun _ => Settled t) fun _ => Settled t := by
  have hother (ht : ¬(calls t).IsCheckout) (w : ShopWorld T) (hi : EventLog calls w) : Settled t w :=
    hi.settled fun h => ht h.checkout
  cases hcall : calls t with
  | create input key =>
    have ht : ¬(calls t).IsCheckout := by
      rw [hcall]
      exact fun h => h
    refine .bind (((create_spec (deliveryLedger_create ht _ key)).pre fun w _ h => h.1).conseq (fun _ _ h => h)
      (fun _ _ _ h => h) fun _ w hi _ => hother ht w hi) fun _ => ?_
    exact .pure (settled_stable t) fun w hi _ => hother ht w hi
  | checkout input =>
    have ht : (calls t).IsCheckout := by
      rw [hcall]
      trivial
    refine .bind (checkout_spec (deliveryLedger_checkout ht) input) fun _ => ?_
    exact .pure (settled_stable t) fun _ _ h => h
  | relay options =>
    have ht : ¬(calls t).IsCheckout := by
      rw [hcall]
      exact fun h => h
    refine .bind ((relayOutboxBatch_spec (deliveryLedger_relay ht) options).conseq (fun w _ h => ⟨h.1, h.2.2⟩)
      (fun _ _ _ h => h) fun _ w hi _ => hother ht w hi) fun _ => ?_
    exact .pure (settled_stable t) fun w hi _ => hother ht w hi

end Discipline

structure NothingOrdered (w : ShopWorld T) : Prop where
  quiescent : w.db.Quiescent
  orders : ∀ n order, w.db.committed (.order n) = some order → order.placedBy = none
  messages : ∀ id, w.db.committed (.outboxMessage id) = none
  log : w.env = []

omit [DecidableEq T] in
theorem NothingOrdered.eventLog {w : ShopWorld T} (hw : NothingOrdered w) (calls : T → OrderCall) :
    EventLog calls w where
  created n order t hn hby := by
    rw [hw.orders n order hn] at hby
    cases hby
  payload id row hid := by
    rw [hw.messages] at hid
    cases hid
  marked id row hid := by
    rw [hw.messages] at hid
    cases hid
  status n order t hn hby := by
    rw [hw.orders n order hn] at hby
    cases hby
  events sent hmem := by
    rw [hw.log] at hmem
    cases hmem

theorem order_events_delivered (calls : T → OrderCall) {w : ShopWorld T} (hw : NothingOrdered w)
    {c : ShopConfig T Unit} (h : (confirmingShop calls).Reachable (.start w fun t => (calls t).run t) c) {t : T}
    (ht : c.Ended t) {n : ℕ} {order : OrderRow T} (hn : c.shared.db.committed (.order n) = some order)
    (hby : order.placedBy = some t) : Delivered n c.shared := by
  have hstart (t : T) : w.db.workspace t = Workspace.empty ∧ Unplaced t w ∧ outgoing t w.env = [] := by
    refine ⟨hw.quiescent.workspace t, fun n order hn => ?_, by rw [hw.log]; rfl⟩
    rw [hw.orders n order hn]
    simp
  obtain ⟨-, hdone, hgone⟩ := Discipline.run_holds (D := deliveryLedger calls) (hw.eventLog calls) hstart
    OrderCall.run_spec h
  rcases ht with ht | ⟨r, hr⟩
  · exact hgone t ht n order hn hby
  · have hsettled := hdone t r hr
    cases r with
    | ok a => exact hsettled n order hn hby
    | error e => exact hsettled n order hn hby

def soldInput : CheckoutInput := ⟨1, 1, .integer 3⟩

def deliveredCalls : ℕ → OrderCall
  | 0 => .checkout soldInput
  | 1 => .create retriedInput "delivered"
  | _ => .relay ⟨none, false⟩

def deliveredSchedule : List (ℕ × Option (DatabaseMove ShopMove)) :=
  List.replicate 17 (0, some .go) ++ List.replicate 5 (0, some (.ext (.ok 5))) ++
    List.replicate 17 (1, some .go) ++ List.replicate 2 (1, some (.ext (.ok 6))) ++ List.replicate 8 (1, some .go) ++
    List.replicate 6 (2, some .go) ++ List.replicate 5 (2, some (.ext (.ok 7))) ++ List.replicate 4 (2, some .go)

@[reducible] def unfailingMoves (calls : T → OrderCall) : Moves (confirmingShop calls) :=
  (withDatabaseMoves shopMoves .database).restrict (fun _ _ _ r _ => isOk r) fun hr _ => isOk_iff.mp hr

omit [DecidableEq T] in
theorem seeded_nothingOrdered : NothingOrdered (ShopWorld.seeded (T := T)) where
  quiescent := ⟨fun _ => rfl, fun _ => rfl⟩
  orders _ _ h := nomatch h
  messages _ := rfl
  log := rfl

theorem order_events_delivered_relayed : ∃ c : ShopConfig ℕ Unit,
    (confirmingShop deliveredCalls).Reachable (.start .seeded fun t => (deliveredCalls t).run t) c ∧
      (∀ t ≤ 2, c.outcome t = some (.ok ())) ∧ Delivered 1 c.shared ∧ Delivered 2 c.shared := by
  have hrun : ∃ c : ShopConfig ℕ Unit, (confirmingShop deliveredCalls).Reachable
      (.start .seeded fun t => (deliveredCalls t).run t) c ∧ (∀ t ≤ 2, c.outcome t = some (.ok ())) ∧
      c.shared.db.committed (.order 1) = some ⟨1, .created, 300, some 0⟩ ∧
      c.shared.db.committed (.order 2) = some ⟨1, .created, 300, some 1⟩ := by
    apply exists_reachable (S := unfailingMoves deliveredCalls) deliveredSchedule
    decide
  obtain ⟨c, hc, hdone, hfirst, hsecond⟩ := hrun
  exact ⟨c, hc, hdone, order_events_delivered deliveredCalls seeded_nothingOrdered hc
    (.inr ⟨_, hdone 0 (by decide)⟩) hfirst rfl,
    order_events_delivered deliveredCalls seeded_nothingOrdered hc (.inr ⟨_, hdone 1 (by decide)⟩) hsecond rfl⟩

-- call 0 commits its order and then cannot reach the broker
def lostEventSchedule : List (ℕ × Option (DatabaseMove ShopMove)) :=
  List.replicate 17 (0, some .go) ++ [(0, some (.ext (.ok 5))), (0, some (.ext .fail))]

theorem checkout_event_lost : ∃ c : ShopConfig ℕ Unit,
    (ShopMachine ℕ).Reachable (.start .seeded fun t => (OrderCall.checkout soldInput).run t) c ∧ c.Ended 0 ∧
      ∃ n order, c.shared.db.committed (.order n) = some order ∧ order.placedBy = some 0 ∧ ¬Delivered n c.shared := by
  apply exists_reachable (S := withDatabaseMoves shopMoves .database) lostEventSchedule
  refine ⟨_, rfl, ?_, 1, ⟨1, .created, 300, some 0⟩, rfl, rfl, ?_⟩
  · exact .inr ⟨.error .broker, rfl⟩
  · rintro (⟨id, row, hid, -⟩ | ⟨sent, hmem, -⟩)
    · cases hid
    · cases hmem

end Marketplace
