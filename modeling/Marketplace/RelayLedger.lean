import Mathlib.Data.Finset.Card
import Mathlib.Data.Finset.Dedup
import Marketplace.OrderLedger
import Marketplace.RelayTransaction

namespace Marketplace

open Concurrent ReadCommitted

variable {T : Type} [DecidableEq T]

/-- The broker's log against `outbox_messages`. A relay that has not rolled back either still holds
the rows it published or has marked them. -/
structure RelayLog (isRelay : T → Prop) (w : ShopWorld T) : Prop where
  rows : ∀ id row, w.db.committed (.outboxMessage id) = some row →
    row.payload.eventId = row.eventId ∧ w.db.committed (.outboxEventId row.eventId) = some id
  sources : ∀ sent ∈ w.env, ∃ id row, w.db.committed (.outboxMessage id) = some row ∧
    sent.message = .payload row.payload
  marked : ∀ id row, w.db.committed (.outboxMessage id) = some row → row.publishedAt ≠ none →
    ∃ sent ∈ w.env, sent.message = .payload row.payload ∧ sent.confirmed
  senders : ∀ sent ∈ w.env, isRelay sent.sender
  started : ∀ sent ∈ w.env, (w.db.txn sent.sender).status ≠ .idle
  holding : ∀ sent ∈ w.env, (w.db.txn sent.sender).status = .inProgress → ∃ id old new,
    w.db.workspace sent.sender (.outboxMessage id) = some ⟨some old, new⟩ ∧ old.publishedAt = none ∧
    sent.message = .payload old.payload
  published : ∀ sent ∈ w.env, (w.db.txn sent.sender).status = .committed → ∃ id row,
    w.db.committed (.outboxMessage id) = some row ∧ row.publishedAt ≠ none ∧ sent.message = .payload row.payload
  once : ∀ m, ((w.env.filter fun sent => sent.message = m).map (·.sender)).Nodup
  single : ∀ sent ∈ w.env, ∀ sent' ∈ w.env, sent.message = sent'.message →
    (w.db.txn sent.sender).status ≠ .aborted → (w.db.txn sent'.sender).status ≠ .aborted →
    sent.sender = sent'.sender
  attempts : ∀ id row, w.db.committed (.outboxMessage id) = some row →
    row.attempts = if row.publishedAt = none then 0 else 1
  delivered : ∀ id row, w.db.committed (.outboxMessage id) = some row → row.publishedAt ≠ none →
    ∃ sent ∈ w.env, sent.message = .payload row.payload ∧ (w.db.txn sent.sender).status = .committed

abbrev ShopDatabase (T : Type) := Database T Serial Key (Row T)

inductive SenderStep (db db' : ShopDatabase T) (sent : Sent T) : Prop
  | aborted (h : (db.txn sent.sender).status = .inProgress) (h' : (db'.txn sent.sender).status = .aborted)
  | same (h : (db'.txn sent.sender).status = (db.txn sent.sender).status)
      (hold : ∀ id old new, db.workspace sent.sender (.outboxMessage id) = some ⟨some old, new⟩ →
        ∃ new', db'.workspace sent.sender (.outboxMessage id) = some ⟨some old, new'⟩)
  | committed (h : (db.txn sent.sender).status = .inProgress) (h' : (db'.txn sent.sender).status = .committed)
      (hmarked : ∃ id row, db'.committed (.outboxMessage id) = some row ∧ row.publishedAt ≠ none ∧
        sent.message = .payload row.payload)

theorem senderStep_of_frame {db db' : ShopDatabase T} {sent : Sent T} (h : db.Frame sent.sender db') :
    SenderStep db db' sent := by
  refine .same (by rw [h.txn]) fun id old new hw => ?_
  rw [h.workspace]
  exact ⟨new, hw⟩

namespace RelayLog

variable {isRelay : T → Prop} {w : ShopWorld T}

theorem step (h : RelayLog isRelay w) {db : ShopDatabase T}
    (hrows : ∀ id row, db.committed (.outboxMessage id) = some row →
      row.payload.eventId = row.eventId ∧ db.committed (.outboxEventId row.eventId) = some id)
    (hkeep : ∀ id row, w.db.committed (.outboxMessage id) = some row → ∃ row',
      db.committed (.outboxMessage id) = some row' ∧ row'.payload = row.payload ∧
      (row.publishedAt ≠ none → row'.publishedAt ≠ none))
    (hattempts : ∀ id row, db.committed (.outboxMessage id) = some row →
      row.attempts = if row.publishedAt = none then 0 else 1)
    (hmarked : ∀ id row', db.committed (.outboxMessage id) = some row' → row'.publishedAt ≠ none →
      w.db.committed (.outboxMessage id) = some row' ∨ ∃ sent ∈ w.env, sent.message = .payload row'.payload ∧
      sent.confirmed ∧ (db.txn sent.sender).status = .committed)
    (hsenders : ∀ sent ∈ w.env, SenderStep w.db db sent) : RelayLog isRelay ⟨db, w.env⟩ := by
  have hstatus : ∀ sent ∈ w.env, (db.txn sent.sender).status ≠ .aborted →
      (w.db.txn sent.sender).status ≠ .aborted := by
    intro sent hmem hne
    cases hsenders sent hmem with
    | aborted _ ha => exact absurd ha hne
    | same hs _ => exact hs ▸ hne
    | committed hp _ _ => simp [hp]
  refine ⟨hrows, ?_, ?_, h.senders, ?_, ?_, ?_, h.once, ?_, hattempts, ?_⟩
  · intro sent hmem
    obtain ⟨id, row, hrow, hm⟩ := h.sources sent hmem
    obtain ⟨row', hrow', hpayload, -⟩ := hkeep id row hrow
    exact ⟨id, row', hrow', by rw [hpayload, hm]⟩
  · intro id row' hrow' hpub
    rcases hmarked id row' hrow' hpub with hrow | hsent
    · exact h.marked id row' hrow hpub
    · obtain ⟨sent, hmem, hm, hconfirmed, -⟩ := hsent
      exact ⟨sent, hmem, hm, hconfirmed⟩
  · intro sent hmem
    cases hsenders sent hmem with
    | aborted _ ha => simp [ha]
    | same hs _ => exact hs ▸ h.started sent hmem
    | committed _ hc _ => simp [hc]
  · intro sent hmem hp
    cases hsenders sent hmem with
    | aborted _ ha => simp [ha] at hp
    | committed _ hc _ => simp [hc] at hp
    | same hs hold =>
      obtain ⟨id, old, new, hw, hpub, hm⟩ := h.holding sent hmem (hs ▸ hp)
      obtain ⟨new', hw'⟩ := hold id old new hw
      exact ⟨id, old, new', hw', hpub, hm⟩
  · intro sent hmem hc
    cases hsenders sent hmem with
    | aborted _ ha => simp [ha] at hc
    | committed _ _ hm => exact hm
    | same hs _ =>
      obtain ⟨id, row, hrow, hpub, hm⟩ := h.published sent hmem (hs ▸ hc)
      obtain ⟨row', hrow', hpayload, hpub'⟩ := hkeep id row hrow
      exact ⟨id, row', hrow', hpub' hpub, by rw [hpayload, hm]⟩
  · exact fun sent hmem sent' hmem' hm hne hne' =>
      h.single sent hmem sent' hmem' hm (hstatus sent hmem hne) (hstatus sent' hmem' hne')
  · intro id row' hrow' hpub
    rcases hmarked id row' hrow' hpub with hrow | ⟨sent, hmem, hm, -, hc⟩
    · obtain ⟨sent, hmem, hm, hc⟩ := h.delivered id row' hrow hpub
      refine ⟨sent, hmem, hm, ?_⟩
      cases hsenders sent hmem with
      | aborted hp _ => simp [hp] at hc
      | same hs _ => exact hs.trans hc
      | committed _ hc' _ => exact hc'
    · exact ⟨sent, hmem, hm, hc⟩

theorem same_rows (h : RelayLog isRelay w) {db : ShopDatabase T} (hc : db.committed = w.db.committed)
    (hsenders : ∀ sent ∈ w.env, SenderStep w.db db sent) : RelayLog isRelay ⟨db, w.env⟩ := by
  refine h.step ?_ ?_ ?_ ?_ hsenders
  · rw [hc]
    exact h.rows
  · intro id row hrow
    exact ⟨row, by rw [hc]; exact hrow, rfl, fun hp => hp⟩
  · rw [hc]
    exact h.attempts
  · intro id row hrow _
    exact .inl (by rw [← hc]; exact hrow)

theorem works (h : RelayLog isRelay w) {t : T} {db : ShopDatabase T} (hw : w.db.Works t db) :
    RelayLog isRelay ⟨db, w.env⟩ := by
  refine h.same_rows hw.committed fun sent _ => ?_
  by_cases ht : t = sent.sender
  · subst ht
    refine .same hw.status fun id old new hk => ?_
    obtain ⟨new', hk'⟩ := hw.own _ _ hk
    exact ⟨new', hk'⟩
  · exact senderStep_of_frame (hw.frame _ ht)

theorem rollback (h : RelayLog isRelay w) (t : T) : RelayLog isRelay ⟨w.db.rollback t, w.env⟩ := by
  refine h.same_rows Database.committed_rollback fun sent _ => ?_
  by_cases ht : t = sent.sender
  · subst ht
    by_cases hs : (w.db.txn sent.sender).status = .inProgress
    · exact .aborted hs (by rw [Database.txn_rollback hs])
    · rw [Database.rollback, if_neg hs]
      exact .same rfl fun _ _ new hk => ⟨new, hk⟩
  · exact senderStep_of_frame (Database.frame_rollback ht)

theorem begin (h : RelayLog isRelay w) {t : T} {x : Txn} (ht : ∀ sent ∈ w.env, sent.sender ≠ t) :
    RelayLog isRelay ⟨w.db.setTxn t x, w.env⟩ :=
  h.same_rows rfl fun sent hmem => senderStep_of_frame (Database.frame_setTxn (Ne.symm (ht sent hmem)))

theorem confirm_filter {t : T} {log : List (Sent T)} (m : OrderPlacedMessage) :
    ((confirm t log).filter fun sent => sent.message = m).map (·.sender) =
      (log.filter fun sent => sent.message = m).map (·.sender) := by
  induction log with
  | nil => rfl
  | cons sent log ih =>
    have hm : (if sent.sender = t then { sent with confirmed := true } else sent).message = sent.message := by
      split <;> rfl
    have hs : (if sent.sender = t then { sent with confirmed := true } else sent).sender = sent.sender := by
      split <;> rfl
    simp only [confirm, List.map_cons, List.filter_cons, hm] at ih ⊢
    split
    · rw [List.map_cons, List.map_cons, ih, hs]
    · exact ih

theorem confirm (h : RelayLog isRelay w) (t : T) : RelayLog isRelay ⟨w.db, confirm t w.env⟩ := by
  constructor
  · exact h.rows
  · intro sent hmem
    obtain ⟨sent', hmem', -, hm⟩ := mem_confirm hmem
    obtain ⟨id, row, hrow, hp⟩ := h.sources sent' hmem'
    exact ⟨id, row, hrow, hm ▸ hp⟩
  · intro id row hrow hpub
    obtain ⟨sent, hmem, hm, hc⟩ := h.marked id row hrow hpub
    exact ⟨sent, confirm_mem hmem hc, hm, hc⟩
  · intro sent hmem
    obtain ⟨sent', hmem', hs, -⟩ := mem_confirm hmem
    exact hs ▸ h.senders sent' hmem'
  · intro sent hmem
    obtain ⟨sent', hmem', hs, -⟩ := mem_confirm hmem
    exact hs ▸ h.started sent' hmem'
  · intro sent hmem
    obtain ⟨sent', hmem', hs, hm⟩ := mem_confirm hmem
    rw [← hs, ← hm]
    exact h.holding sent' hmem'
  · intro sent hmem
    obtain ⟨sent', hmem', hs, hm⟩ := mem_confirm hmem
    rw [← hs, ← hm]
    exact h.published sent' hmem'
  · intro m
    rw [confirm_filter]
    exact h.once m
  · intro sent hmem sent₂ hmem₂ hm
    obtain ⟨sent', hmem', hs, hm'⟩ := mem_confirm hmem
    obtain ⟨sent₂', hmem₂', hs₂, hm₂'⟩ := mem_confirm hmem₂
    rw [← hs, ← hs₂]
    exact h.single sent' hmem' sent₂' hmem₂' (by rw [hm', hm₂', hm])
  · exact h.attempts
  · intro id row hrow hpub
    obtain ⟨sent, hmem, hm, hc⟩ := h.delivered id row hrow hpub
    obtain ⟨sent', hmem', hs, hm'⟩ := confirm_of_mem (t := t) hmem
    exact ⟨sent', hmem', hm'.trans hm, hs ▸ hc⟩

theorem id_unique (h : RelayLog isRelay w) {id id' : ℕ} {row row' : OutboxMessageRow}
    (hrow : w.db.committed (.outboxMessage id) = some row) (hrow' : w.db.committed (.outboxMessage id') = some row')
    (hpayload : row'.payload = row.payload) : id' = id := by
  obtain ⟨hid, hindex⟩ := h.rows id row hrow
  obtain ⟨hid', hindex'⟩ := h.rows id' row' hrow'
  rw [← hid', hpayload, hid, hindex] at hindex'
  exact (Option.some.inj hindex').symm

theorem send (h : RelayLog isRelay w) {t : T} {ws : Workspace Key (Row T)} {c id : ℕ} {row new : OutboxMessageRow}
    (ht : isRelay t) (hat : At t ws c w) (hws : ws (.outboxMessage id) = some ⟨some row, new⟩)
    (hpub : row.publishedAt = none) (hfirst : ∀ sent ∈ outgoing t w.env, sent.message ≠ .payload row.payload) :
    RelayLog isRelay ⟨w.db, w.env ++ [⟨t, .payload row.payload, false⟩]⟩ := by
  have hrow : w.db.committed (.outboxMessage id) = some row := hat.committed_old hws
  have hheld : w.db.workspace t (.outboxMessage id) = some ⟨some row, new⟩ := by rw [hat.workspace, hws]
  -- whoever published this row before has rolled back
  have hothers : ∀ sent ∈ w.env, sent.message = .payload row.payload →
      (w.db.txn sent.sender).status ≠ .aborted → sent.sender = t := by
    intro sent hmem hm hne
    cases hs : (w.db.txn sent.sender).status with
    | idle => exact absurd hs (h.started sent hmem)
    | aborted => exact absurd hs hne
    | inProgress =>
      obtain ⟨id', old, new', hw', -, hm'⟩ := h.holding sent hmem hs
      have hpayload : old.payload = row.payload := by
        rw [hm] at hm'
        exact (OrderPlacedMessage.payload.inj hm').symm
      obtain rfl := h.id_unique hrow (Database.committed_of_workspace hw') hpayload
      exact Database.workspace_exclusive hw' hheld
    | committed =>
      obtain ⟨id', row', hrow', hpub', hm'⟩ := h.published sent hmem hs
      have hpayload : row'.payload = row.payload := by
        rw [hm] at hm'
        exact (OrderPlacedMessage.payload.inj hm').symm
      obtain rfl := h.id_unique hrow hrow' hpayload
      rw [hrow] at hrow'
      cases hrow'
      exact absurd hpub hpub'
  constructor
  · exact h.rows
  · intro sent hmem
    rcases List.mem_append.mp hmem with hmem | hmem
    · exact h.sources sent hmem
    · obtain rfl := List.mem_singleton.mp hmem
      exact ⟨id, row, hrow, rfl⟩
  · intro id' row' hrow' hpub'
    obtain ⟨sent, hmem, hsent⟩ := h.marked id' row' hrow' hpub'
    exact ⟨sent, List.mem_append_left _ hmem, hsent⟩
  · intro sent hmem
    rcases List.mem_append.mp hmem with hmem | hmem
    · exact h.senders sent hmem
    · obtain rfl := List.mem_singleton.mp hmem
      exact ht
  · intro sent hmem
    rcases List.mem_append.mp hmem with hmem | hmem
    · exact h.started sent hmem
    · obtain rfl := List.mem_singleton.mp hmem
      simp [hat.txn]
  · intro sent hmem hs
    rcases List.mem_append.mp hmem with hmem | hmem
    · exact h.holding sent hmem hs
    · obtain rfl := List.mem_singleton.mp hmem
      exact ⟨id, row, new, hheld, hpub, rfl⟩
  · intro sent hmem hs
    rcases List.mem_append.mp hmem with hmem | hmem
    · exact h.published sent hmem hs
    · obtain rfl := List.mem_singleton.mp hmem
      simp [hat.txn] at hs
  · intro m
    rw [List.filter_append, List.map_append]
    by_cases hm : m = .payload row.payload
    · subst hm
      simp only [List.filter_cons, decide_true, if_true, List.filter_nil, List.map_cons, List.map_nil]
      refine List.nodup_append.mpr ⟨h.once _, by simp, ?_⟩
      rintro t' ht' _ hmem rfl
      obtain rfl := List.mem_singleton.mp hmem
      obtain ⟨sent, hsent, hsender⟩ := List.mem_map.mp ht'
      obtain ⟨hmem', hm'⟩ := List.mem_filter.mp hsent
      refine hfirst sent ?_ (by simpa using hm')
      exact List.mem_filter.mpr ⟨hmem', by simpa using hsender⟩
    · simp only [List.filter_cons, Ne.symm hm, decide_false, Bool.false_eq_true, if_false, List.filter_nil,
        List.map_nil, List.append_nil]
      exact h.once m
  · intro sent hmem sent' hmem' hm hne hne'
    rcases List.mem_append.mp hmem with hmem | hmem
    · rcases List.mem_append.mp hmem' with hmem' | hmem'
      · exact h.single sent hmem sent' hmem' hm hne hne'
      · obtain rfl := List.mem_singleton.mp hmem'
        exact hothers sent hmem hm hne
    · obtain rfl := List.mem_singleton.mp hmem
      rcases List.mem_append.mp hmem' with hmem' | hmem'
      · exact (hothers sent' hmem' hm.symm hne').symm
      · obtain rfl := List.mem_singleton.mp hmem'
        rfl
  · exact h.attempts
  · intro id' row' hrow' hpub'
    obtain ⟨sent, hmem, hsent⟩ := h.delivered id' row' hrow' hpub'
    exact ⟨sent, List.mem_append_left _ hmem, hsent⟩

theorem commit_relay (h : RelayLog isRelay w) {t : T} {ws : Workspace Key (Row T)} {c : ℕ}
    {rows : List (ℕ × OutboxMessageRow)} (hat : At t ws c w) (hws : Relaying rows ws) (hmarked : Marked rows ws)
    (hsent : outgoing t w.env = publishedBy t rows) : RelayLog isRelay ⟨w.db.commit t, w.env⟩ := by
  have hc := hws.committed hmarked hat
  have hstatus : ((w.db.commit t).txn t).status = .committed := by rw [Database.txn_commit (by rw [hat.txn])]
  refine h.step ?_ ?_ ?_ ?_ ?_
  · intro id row hid
    rw [hc.others _ (by simp)]
    rcases hc.message_cases id row hid with ⟨p, -, -, hpayload, hevent, -, hold⟩ | hold
    · rw [← hpayload, ← hevent]
      exact h.rows id p.2 hold
    · exact h.rows id row hold
  · intro id row hold
    obtain ⟨row', hid, hpayload, -, hpub⟩ := hc.keep_message id row hold
    exact ⟨row', hid, hpayload, hpub⟩
  · intro id row hid
    rcases hc.message_cases id row hid with ⟨p, hp, rfl, -, -, hpub, hold⟩ | hold
    · obtain ⟨new, hnew, -, hattempts, -⟩ := hmarked p hp
      have hrow : (w.db.commit t).committed (.outboxMessage p.1) = some new := by
        rw [hat.committed_commit]
        exact Workspace.onto_of_some hnew
      rw [hid] at hrow
      cases hrow
      rw [hattempts, h.attempts p.1 p.2 hold, if_pos (hws.selected p hp).1, if_neg hpub, Int.zero_add]
    · exact h.attempts id row hold
  · intro id row hid _
    rcases hc.message_cases id row hid with ⟨p, hp, -, hpayload, -⟩ | hold
    · right
      have hmem : (⟨t, .payload p.2.payload, true⟩ : Sent T) ∈ outgoing t w.env := by
        rw [hsent]
        exact List.mem_map.mpr ⟨p, hp, rfl⟩
      exact ⟨_, (List.mem_filter.mp hmem).1, by rw [hpayload], rfl, hstatus⟩
    · exact .inl hold
  · intro sent hmem
    by_cases ht : t = sent.sender
    · subst ht
      have hmem' : sent ∈ outgoing sent.sender w.env := List.mem_filter.mpr ⟨hmem, by simp⟩
      rw [hsent] at hmem'
      obtain ⟨p, hp, hsent'⟩ := List.mem_map.mp hmem'
      obtain ⟨-, new, hnew', hpayload, -⟩ := hws.selected p hp
      obtain ⟨new', hnew'', hpub, -⟩ := hmarked p hp
      rw [hnew'] at hnew''
      cases hnew''
      have hnew : (w.db.commit sent.sender).committed (.outboxMessage p.1) = some new := by
        rw [hat.committed_commit]
        exact Workspace.onto_of_some hnew'
      exact .committed (by rw [hat.txn]) hstatus ⟨p.1, new, hnew, hpub, by rw [← hsent', hpayload]⟩
    · exact senderStep_of_frame (Database.frame_commit ht)

theorem commit_insert (h : RelayLog isRelay w) {t : T} (ht : ¬isRelay t)
    (hrows : ∀ id row, (w.db.commit t).committed (.outboxMessage id) = some row →
      w.db.committed (.outboxMessage id) = some row ∨ ((row.publishedAt = none ∧ row.attempts = 0) ∧
      row.payload.eventId = row.eventId ∧ (w.db.commit t).committed (.outboxEventId row.eventId) = some id))
    (hkeep : ∀ id row, w.db.committed (.outboxMessage id) = some row →
      (w.db.commit t).committed (.outboxMessage id) = some row)
    (hevents : ∀ e id, w.db.committed (.outboxEventId e) = some id →
      (w.db.commit t).committed (.outboxEventId e) = some id) : RelayLog isRelay ⟨w.db.commit t, w.env⟩ := by
  refine h.step ?_ ?_ ?_ ?_ ?_
  · intro id row hid
    rcases hrows id row hid with hold | ⟨-, hnew⟩
    · obtain ⟨hpayload, hindex⟩ := h.rows id row hold
      exact ⟨hpayload, hevents _ _ hindex⟩
    · exact hnew
  · intro id row hold
    exact ⟨row, hkeep id row hold, rfl, fun hp => hp⟩
  · intro id row hid
    rcases hrows id row hid with hold | ⟨⟨hnone, hattempts⟩, -⟩
    · exact h.attempts id row hold
    · rw [hattempts, if_pos hnone]
  · intro id row hid hpub
    rcases hrows id row hid with hold | ⟨⟨hnone, -⟩, -⟩
    · exact .inl hold
    · exact absurd hnone hpub
  · intro sent hmem
    refine senderStep_of_frame (Database.frame_commit ?_)
    rintro rfl
    exact ht (h.senders sent hmem)

end RelayLog

-- the transactions around `outbox_messages`; `write` is any transaction that inserts outbox rows
inductive OutboxCall
  | relay (options : RelayOptions)
  | create (input : CreateOrderInput) (idempotencyKey : String)
  | write (events : List OrderPlacedPayload)

def OutboxCall.IsRelay : OutboxCall → Prop
  | .relay _ => True
  | _ => False

section Code

omit [DecidableEq T]

def insertEvents : List OrderPlacedPayload → ShopCall T Unit
  | [] => pure ()
  | event :: events => do
    insertOrderPlacedOutbox event
    insertEvents events

def writeEvents (events : List OrderPlacedPayload) : ShopCall T Unit := do
  begin
  tryCatch (do
    insertEvents events
    commit)
    (fun error => do
      rollback
      throw error)

def OutboxCall.run (self : T) : OutboxCall → ShopCall T Unit
  | .relay options => do
    let _ ← relayOutboxBatch options
    pure ()
  | .create input idempotencyKey => do
    let _ ← Marketplace.create self input idempotencyKey
    pure ()
  | .write events => writeEvents events

end Code

section Discipline

variable (calls : T → OutboxCall)

def relayLedger : Discipline (ShopMachine T).unrestricted where
  inv := RelayLog fun t => (calls t).IsRelay
  always _ _ := True
  rely _ _ _ := True
  gone _ _ := True
  always_refl _ := trivial
  always_trans _ _ := trivial
  rely_refl _ _ := trivial
  rely_trans _ _ _ _ _ _ := trivial

theorem relayLedger_calm : Calm (relayLedger calls) where
  works hi hw := ⟨RelayLog.works hi hw, trivial, fun _ _ => trivial⟩
  rollback hi := ⟨RelayLog.rollback hi _, trivial, fun _ _ => trivial⟩
  crash {t w w'} hi hc _ := by
    obtain ⟨hdb, henv⟩ := hc
    have hr := RelayLog.rollback hi t
    obtain ⟨db, env⟩ := w'
    simp only at hdb henv
    subst hdb
    refine ⟨⟨?_, trivial, fun _ _ => trivial⟩, fun _ _ => trivial⟩
    rcases henv with rfl | rfl
    · exact hr
    · exact hr.confirm t

variable {calls}

theorem relayLedger_begin {t : T} {w : ShopWorld T} (hi : (relayLedger calls).inv w)
    (ht : ∀ sent ∈ w.env, sent.sender ≠ t) :
    (relayLedger calls).Allows t w ⟨w.db.setTxn t ⟨.inProgress, 0⟩, w.env⟩ :=
  ⟨RelayLog.begin hi ht, trivial, fun _ _ => trivial⟩

theorem relayLedger_relay {t : T} (ht : (calls t).IsRelay) : RelayRules (relayLedger calls) t where
  calm := relayLedger_calm calls
  starts {w} hi hsent := by
    refine relayLedger_begin hi fun sent hmem hs => ?_
    have hmem' : sent ∈ outgoing t w.env := List.mem_filter.mpr ⟨hmem, by simpa using hs⟩
    rw [hsent] at hmem'
    cases hmem'
  sends {w ws c rows processed p rest} hi hat hws hrows hsent := by
    obtain ⟨hpub, new, hp, -, -⟩ := hws.selected p (by simp [hrows])
    refine ⟨RelayLog.send hi ht hat hp hpub fun sent hmem hm => ?_, trivial, fun _ _ => trivial⟩
    rw [hsent] at hmem
    obtain ⟨q, hq, rfl⟩ := List.mem_map.mp hmem
    obtain ⟨-, new', hq', -, -⟩ := hws.selected q (by simp [hrows, hq])
    have hrow := RelayLog.rows hi p.1 p.2 (hat.committed_old hp)
    have hrow' := RelayLog.rows hi q.1 q.2 (hat.committed_old hq')
    have hevent : q.2.eventId = p.2.eventId := by
      rw [← hrow.1, ← hrow'.1, OrderPlacedMessage.payload.inj hm]
    have hid : p.1 = q.1 := by
      have hindex := hrow'.2
      rw [hevent, hrow.2] at hindex
      exact Option.some.inj hindex
    have hnodup := hws.nodup
    rw [hrows, List.map_append, List.map_cons, List.nodup_append] at hnodup
    exact hnodup.2.2 q.1 (List.mem_map_of_mem hq) p.1 (by simp) hid.symm
  confirms hi := ⟨RelayLog.confirm hi _, trivial, fun _ _ => trivial⟩
  commits hi hat hws hmarked hsent _ := ⟨RelayLog.commit_relay hi hat hws hmarked hsent, trivial, fun _ _ => trivial⟩

def relayLedger_create {t : T} (ht : ¬(calls t).IsRelay) (items : List CreateOrderItemInput) (key : String) :
    CreateRules (relayLedger calls) t items key (fun _ => True) fun _ _ => True where
  calm := relayLedger_calm calls
  reads := noReads _ t items key
  stable _ := .const
  failures _ _ := trivial
  bound _ _ _ _ := trivial
  starts hi := relayLedger_begin hi fun sent hmem hs => ht (hs ▸ RelayLog.senders hi sent hmem)
  replays {w row response c} hi hat _ := by
    have hsame := hat.committed_unchanged Workspace.set_empty_locked
    refine ⟨⟨RelayLog.same_rows hi hsame fun sent hmem => senderStep_of_frame (Database.frame_commit ?_),
      trivial, fun _ _ => trivial⟩, trivial⟩
    rintro rfl
    exact ht (RelayLog.senders hi sent hmem)
  places {w r} placed lines hi hat hp _ _ _ := by
    have hc := PlacedOrder.committed hat hp.sorted
    refine ⟨⟨RelayLog.commit_insert hi ht (fun id row hid => ?_) (fun _ _ => hc.keep_message)
      (fun _ _ => hc.keep_event), trivial, fun _ _ => trivial⟩, trivial⟩
    rcases hc.message_cases hid with hold | ⟨rfl, rfl⟩
    · exact .inl hold
    · obtain ⟨occurredAt, hpayload⟩ := hp.payload
      exact .inr ⟨⟨hp.publishedAt, hp.attempts⟩, by rw [hpayload]; rfl, hc.event⟩

structure Writing (n : ℕ) (ws : Workspace Key (Row T)) : Prop where
  fresh : ∀ id, n ≤ id → ws (.outboxMessage id) = none
  rows : ∀ id ch, ws (.outboxMessage id) = some ch → ch.old = none ∧ (ch.new.publishedAt = none ∧ ch.new.attempts = 0) ∧
    ch.new.payload.eventId = ch.new.eventId ∧ ws (.outboxEventId ch.new.eventId) = some ⟨none, id⟩
  events : ∀ e ch, ws (.outboxEventId e) = some ch → ch.old = none

omit [DecidableEq T] in
theorem Writing.insert {n id : ℕ} {ws : Workspace Key (Row T)} {row : OutboxMessageRow} (h : Writing n ws)
    (hid : n ≤ id) (hpub : row.publishedAt = none ∧ row.attempts = 0) (hpayload : row.payload.eventId = row.eventId)
    (hevent : ws (.outboxEventId row.eventId) = none) :
    Writing (id + 1) ((ws.set (.outboxMessage id) ⟨none, row⟩).set (.outboxEventId row.eventId) ⟨none, id⟩) := by
  refine ⟨fun j hj => ?_, fun j ch hj => ?_, fun e ch he => ?_⟩
  · apply (Workspace.set_of_ne (by simp)).trans
    exact (Workspace.set_of_ne (by simp; omega)).trans (h.fresh j (by omega))
  · rw [Workspace.set_of_ne (by simp)] at hj
    by_cases hne : j = id
    · subst hne
      rw [Workspace.set_self] at hj
      cases hj
      exact ⟨rfl, hpub, hpayload, Workspace.set_self⟩
    · rw [Workspace.set_of_ne (by simpa using hne)] at hj
      obtain ⟨hold, hpub', hpayload', hindex⟩ := h.rows j ch hj
      have hne' : ch.new.eventId ≠ row.eventId := by
        intro heq
        rw [heq, hevent] at hindex
        cases hindex
      refine ⟨hold, hpub', hpayload', ?_⟩
      apply (Workspace.set_of_ne (by simpa using hne')).trans
      exact (Workspace.set_of_ne (by simp)).trans hindex
  · by_cases hne : e = row.eventId
    · subst hne
      rw [Workspace.set_self] at he
      cases he
      rfl
    · rw [Workspace.set_of_ne (by simpa using hne), Workspace.set_of_ne (by simp)] at he
      exact h.events e ch he

theorem insertEvents_spec (t : T) (events : List OrderPlacedPayload) :
    (relayLedger calls).Triple t
      (fun w => ∃ ws n c, Writing n ws ∧ At t ws c w ∧ n ≤ w.db.seq .outboxMessages) (insertEvents events)
      (fun _ w => ∃ ws n c, Writing n ws ∧ At t ws c w ∧ True) fun _ _ => True := by
  have hD := relayLedger_calm calls
  induction events with
  | nil =>
    refine .pure (.exists fun _ => .exists fun _ => .exists fun _ => .and .const (At.stable.and .const)) ?_
    rintro w - ⟨ws, n, c, hws, hat, -⟩
    exact ⟨ws, n, c, hws, hat, trivial⟩
  | cons event events ih =>
    refine .exists_pre fun ws => .exists_pre fun n => .exists_pre fun c => .pure_pre fun hws => ?_
    refine .bind (insertOrderPlacedOutbox_spec (φ := fun _ => True) hD (.seq_le .outboxMessages n) trivial event
      (fun _ _ h => h) hws.fresh) fun _ => ih.pre ?_
    rintro w - ⟨id, row, ⟨hid, hevent, hpayload, hpub, hnone⟩, hat, -, hseq⟩
    exact ⟨_, id + 1, _, hws.insert hid hpub (by rw [hpayload, hevent]) hnone, hat, hseq⟩

theorem commit_writing {t : T} (ht : ¬(calls t).IsRelay) {w : ShopWorld T} {ws : Workspace Key (Row T)}
    {n c : ℕ} (hi : (relayLedger calls).inv w) (hws : Writing n ws) (hat : At t ws c w) :
    (relayLedger calls).Allows t w ⟨w.db.commit t, w.env⟩ := by
  have hnew {k : Key} {ch : Change (Row T k)} (hk : ws k = some ch) : (w.db.commit t).committed k = some ch.new := by
    rw [hat.committed_commit]
    exact Workspace.onto_of_some hk
  have hsame {k : Key} (hk : ws k = none) : (w.db.commit t).committed k = w.db.committed k := by
    rw [hat.committed_commit]
    exact Workspace.onto_of_none hk
  refine ⟨RelayLog.commit_insert hi ht (fun id row hid => ?_) (fun id row hid => ?_) fun e id he => ?_,
    trivial, fun _ _ => trivial⟩
  · cases hk : ws (.outboxMessage id) with
    | none => exact .inl ((hsame hk).symm.trans hid)
    | some ch =>
      rw [hnew hk] at hid
      cases hid
      obtain ⟨-, hpub, hpayload, hindex⟩ := hws.rows id ch hk
      exact .inr ⟨hpub, hpayload, hnew hindex⟩
  · cases hk : ws (.outboxMessage id) with
    | none => exact (hsame hk).trans hid
    | some ch =>
      rw [hat.committed_old hk, (hws.rows id ch hk).1] at hid
      cases hid
  · cases hk : ws (.outboxEventId e) with
    | none => exact (hsame hk).trans he
    | some ch =>
      rw [hat.committed_old hk, hws.events e ch hk] at he
      cases he

theorem writeEvents_spec {t : T} (ht : ¬(calls t).IsRelay) (events : List OrderPlacedPayload) :
    (relayLedger calls).Triple t (fun w => w.db.workspace t = Workspace.empty) (writeEvents events)
      (fun _ _ => True) fun _ _ => True := by
  have hD := relayLedger_calm calls
  have hstart := begin_spec (t := t) (F := fun _ => True) (Y := fun _ _ => True) hD .const
    (fun w hi _ => ⟨relayLedger_begin hi fun sent hmem hs => ht (hs ▸ RelayLog.senders hi sent hmem), trivial⟩)
    (fun _ _ _ => trivial) fun _ => .const
  refine (Discipline.Triple.bind hstart fun _ => ?_).pre fun w _ h => ⟨h, trivial⟩
  refine Discipline.Triple.handle (Y := fun _ _ => True) ?_ fun error =>
    rollback_throw_spec hD .const error (fun _ => .const) fun _ _ _ => ⟨trivial, trivial⟩
  refine .bind ((insertEvents_spec t events).pre ?_) fun _ => ?_
  · rintro w - ⟨hat, -⟩
    exact ⟨Workspace.empty, 0, 0, ⟨fun _ _ => rfl, fun _ _ h => (nomatch h), fun _ _ h => (nomatch h)⟩, hat,
      Nat.zero_le _⟩
  · refine .exists_pre fun ws => .exists_pre fun n => .exists_pre fun c => .pure_pre fun hws => ?_
    refine commit_spec hD .const (.const trivial) .const ?_
    exact fun w _ hi hat _ _ => ⟨commit_writing ht hi hws hat, fun _ => trivial, fun _ => trivial⟩

theorem OutboxCall.run_spec (t : T) :
    (relayLedger calls).Triple t (fun w => w.db.workspace t = Workspace.empty ∧ outgoing t w.env = [])
      ((calls t).run t) (fun _ _ => True) fun _ _ => True := by
  cases hcall : calls t with
  | relay options =>
    have ht : (calls t).IsRelay := by
      rw [hcall]
      trivial
    exact .bind (relayOutboxBatch_spec (relayLedger_relay ht) options) fun _ => .pure .const fun _ _ _ => trivial
  | create input key =>
    have ht : ¬(calls t).IsRelay := by
      rw [hcall]
      exact fun h => h
    refine .bind ((create_spec (relayLedger_create ht _ key)).pre fun w _ h => h.1) fun _ => ?_
    exact .pure .const fun _ _ _ => trivial
  | write events =>
    have ht : ¬(calls t).IsRelay := by
      rw [hcall]
      exact fun h => h
    exact (writeEvents_spec ht events).pre fun w _ h => h.1

end Discipline

def publishes (w : ShopWorld T) (row : OutboxMessageRow) : List (Sent T) :=
  w.env.filter fun sent => sent.message = .payload row.payload

def rolledBack (w : ShopWorld T) (row : OutboxMessageRow) : Finset T :=
  ((publishes w row).map (·.sender)).toFinset.filter fun t => (w.db.txn t).status = .aborted

theorem RelayLog.publishes_le {isRelay : T → Prop} {w : ShopWorld T} (h : RelayLog isRelay w)
    (row : OutboxMessageRow) : (publishes w row).length ≤ (rolledBack w row).card + 1 := by
  have honce : ((publishes w row).map (·.sender)).Nodup := h.once _
  have hcard : (publishes w row).length = ((publishes w row).map (·.sender)).toFinset.card := by
    rw [List.toFinset_card_of_nodup honce, List.length_map]
  have hlive : (((publishes w row).map (·.sender)).toFinset.filter
      fun t => ¬(w.db.txn t).status = .aborted).card ≤ 1 := by
    apply Finset.card_le_one.mpr
    intro t ht t' ht'
    obtain ⟨hmem, hne⟩ := Finset.mem_filter.mp ht
    obtain ⟨hmem', hne'⟩ := Finset.mem_filter.mp ht'
    obtain ⟨sent, hsent, rfl⟩ := List.mem_map.mp (List.mem_toFinset.mp hmem)
    obtain ⟨sent', hsent', rfl⟩ := List.mem_map.mp (List.mem_toFinset.mp hmem')
    obtain ⟨henv, hm⟩ := List.mem_filter.mp hsent
    obtain ⟨henv', hm'⟩ := List.mem_filter.mp hsent'
    simp only [decide_eq_true_eq] at hm hm'
    exact h.single sent henv sent' henv' (hm.trans hm'.symm) hne hne'
  rw [hcard, ← Finset.card_filter_add_card_filter_not fun t => (w.db.txn t).status = .aborted]
  exact Nat.add_le_add_left hlive _

structure OutboxEmpty (w : ShopWorld T) : Prop where
  quiescent : w.db.Quiescent
  messages : ∀ id, w.db.committed (.outboxMessage id) = none
  log : w.env = []

theorem OutboxEmpty.relayLog {w : ShopWorld T} (hw : OutboxEmpty w) (isRelay : T → Prop) : RelayLog isRelay w := by
  have hmem : ∀ sent, sent ∉ w.env := by
    intro sent
    rw [hw.log]
    exact List.not_mem_nil
  have hnone : ∀ id row, w.db.committed (.outboxMessage id) ≠ some row := by
    intro id row
    rw [hw.messages]
    simp
  exact ⟨fun id row h => absurd h (hnone id row), fun _ h => absurd h (hmem _),
    fun id row h => absurd h (hnone id row), fun _ h => absurd h (hmem _), fun _ h => absurd h (hmem _),
    fun _ h => absurd h (hmem _), fun _ h => absurd h (hmem _), fun m => by simp [hw.log],
    fun _ h => absurd h (hmem _), fun id row h => absurd h (hnone id row), fun id row h => absurd h (hnone id row)⟩

theorem relayLog_reachable (calls : T → OutboxCall) {w : ShopWorld T} (hw : OutboxEmpty w) {c : ShopConfig T Unit}
    (h : (ShopMachine T).Reachable (.start w fun t => (calls t).run t) c) :
    RelayLog (fun t => (calls t).IsRelay) c.shared := by
  have hstart (t : T) : w.db.workspace t = Workspace.empty ∧ outgoing t w.env = [] :=
    ⟨hw.quiescent.workspace t, by rw [hw.log]; rfl⟩
  exact (Discipline.run_holds (D := relayLedger calls) (hw.relayLog _) hstart OutboxCall.run_spec h.unrestricted).1

theorem relay_publishes_committed (calls : T → OutboxCall) {w : ShopWorld T} (hw : OutboxEmpty w)
    {c : ShopConfig T Unit} (h : (ShopMachine T).Reachable (.start w fun t => (calls t).run t) c) :
    (∀ sent ∈ c.shared.env, ∃ id row, c.shared.db.committed (.outboxMessage id) = some row ∧
      sent.message = .payload row.payload) ∧
      (∀ id row, c.shared.db.committed (.outboxMessage id) = some row → row.publishedAt ≠ none →
      ∃ sent ∈ c.shared.env, sent.message = .payload row.payload ∧ sent.confirmed) ∧
      (∀ id row, c.shared.db.committed (.outboxMessage id) = some row →
      ((publishes c.shared row).filter (·.confirmed)).length ≤ (rolledBack c.shared row).card + 1) ∧
      ∀ id row, c.shared.db.committed (.outboxMessage id) = some row → row.publishedAt ≠ none →
      rolledBack c.shared row = ∅ → (publishes c.shared row).length = 1 := by
  have hlog := relayLog_reachable calls hw h
  refine ⟨hlog.sources, hlog.marked, fun id row _ => ?_, fun id row hid hpub hnone => ?_⟩
  · exact (List.length_filter_le _ _).trans (hlog.publishes_le row)
  · have hle := hlog.publishes_le row
    rw [hnone, Finset.card_empty] at hle
    obtain ⟨sent, hmem, hm, -⟩ := hlog.marked id row hid hpub
    have hpos : 0 < (publishes c.shared row).length :=
      List.length_pos_of_mem (List.mem_filter.mpr ⟨hmem, by simpa using hm⟩)
    omega

def samplePayload : OrderPlacedPayload :=
  ⟨orderPlacedEventId 1, orderPlacedType, 5, ⟨1, 1, [⟨.integer 1, .integer 2⟩], 200⟩⟩

def crashedRelayCalls : ℕ → OutboxCall
  | 0 => .write [samplePayload]
  | 1 => .relay ⟨none, true⟩
  | _ => .relay ⟨none, false⟩

-- call 1 publishes and rolls back, call 2 publishes again
def crashedRelaySchedule : List (ℕ × Option (DatabaseMove ShopMove)) :=
  [(0, some .go), (0, some (.ext (.ok 5)))] ++ List.replicate 5 (0, some .go) ++
    List.replicate 6 (1, some .go) ++ List.replicate 4 (1, some (.ext (.ok 6))) ++ [(1, some .go)] ++
    List.replicate 6 (2, some .go) ++ List.replicate 5 (2, some (.ext (.ok 7))) ++ List.replicate 4 (2, some .go)

theorem relay_publishes_committed_crashed : ∃ c : ShopConfig ℕ Unit,
    (ShopMachine ℕ).Reachable (.start .empty fun t => (crashedRelayCalls t).run t) c ∧
      (c.outcome 1 = some (.error simulatedCrash) ∧ c.outcome 2 = some (.ok ())) ∧
      (∀ sent ∈ c.shared.env, ∃ id row, c.shared.db.committed (.outboxMessage id) = some row ∧
      sent.message = .payload row.payload) ∧
      (∀ id row, c.shared.db.committed (.outboxMessage id) = some row → row.publishedAt ≠ none →
      ∃ sent ∈ c.shared.env, sent.message = .payload row.payload ∧ sent.confirmed) ∧
      (∀ id row, c.shared.db.committed (.outboxMessage id) = some row →
      ((publishes c.shared row).filter (·.confirmed)).length ≤ (rolledBack c.shared row).card + 1) ∧
      ∀ id row, c.shared.db.committed (.outboxMessage id) = some row → row.publishedAt ≠ none →
      rolledBack c.shared row = ∅ → (publishes c.shared row).length = 1 := by
  have hrun : ∃ c : ShopConfig ℕ Unit, (ShopMachine ℕ).Reachable
      (.start .empty fun t => (crashedRelayCalls t).run t) c ∧
      c.outcome 1 = some (.error simulatedCrash) ∧ c.outcome 2 = some (.ok ()) := by
    apply exists_reachable (S := withDatabaseMoves shopMoves .database) crashedRelaySchedule
    decide
  obtain ⟨c, hc, hdone⟩ := hrun
  have hempty : OutboxEmpty (ShopWorld.empty (T := ℕ)) := ⟨ShopWorld.empty_quiescent, fun _ => rfl, rfl⟩
  exact ⟨c, hc, hdone, relay_publishes_committed crashedRelayCalls hempty hc⟩

end Marketplace
