import Marketplace.RelayLedger

namespace Marketplace

open Concurrent ReadCommitted

def shopEventsExchange : String := "shop.events"

def orderPlacedRoutingKey : String := "order.placed"

def orderPlacedQueue : String := "shop.order.placed"

def shopEventsDlx : String := "shop.events.dlx"

def orderPlacedDlqRoutingKey : String := "order.placed.dead"

def orderPlacedDlq : String := "shop.order.placed.dlq"

def orderPlacedPrefetch : ℕ := 10

-- the requests of a channel that sets up the broker; exchanges are durable topics, queues durable quorums
inductive Declaration
  | assertExchange (exchange : String)
  | assertQueue (queue : String) (deadLetterTo : Option (String × String))
  | bindQueue (queue exchange routingKey : String)
  | prefetch (count : ℕ)
  deriving DecidableEq, Repr

def assertOrderPlacedTopology : List Declaration :=
  [.assertExchange shopEventsExchange, .assertExchange shopEventsDlx, .assertQueue orderPlacedDlq none,
    .bindQueue orderPlacedDlq shopEventsDlx orderPlacedDlqRoutingKey,
    .assertQueue orderPlacedQueue (some (shopEventsDlx, orderPlacedDlqRoutingKey)),
    .bindQueue orderPlacedQueue shopEventsExchange orderPlacedRoutingKey, .prefetch orderPlacedPrefetch]

/-- What has been set up on the broker; a binding is a queue, an exchange and a routing key. -/
structure Topology where
  exchanges : List String
  queues : List String
  bindings : List (String × String × String)
  deriving DecidableEq, Repr

namespace Topology

def empty : Topology := ⟨[], [], []⟩

def declare (topology : Topology) : Declaration → Option Topology
  | .assertExchange exchange => some { topology with exchanges := exchange :: topology.exchanges }
  | .assertQueue queue _ => some { topology with queues := queue :: topology.queues }
  | .bindQueue queue exchange routingKey =>
    if queue ∈ topology.queues ∧ exchange ∈ topology.exchanges then
      some { topology with bindings := (queue, exchange, routingKey) :: topology.bindings }
    else none
  | .prefetch _ => some topology

-- no routing key here has a wildcard
def Routes (topology : Topology) : Prop :=
  (orderPlacedQueue, shopEventsExchange, orderPlacedRoutingKey) ∈ topology.bindings

instance (topology : Topology) : Decidable topology.Routes := by
  unfold Routes
  infer_instance

end Topology

/-- The relays and the writers of the outbox, with the broker they publish to and the runs `S` that set it up.
`enqueued` is all that has ever been put into `shop.order.placed`. -/
structure BrokerRun (T S : Type) where
  relays : ShopConfig T Unit
  topology : Topology
  setups : S → Option (List Declaration)
  enqueued : List OrderPlacedMessage

variable {T S : Type} [DecidableEq T] [DecidableEq S]

namespace BrokerRun

omit [DecidableEq T] [DecidableEq S] in
def start (w : ShopWorld T) (calls : T → OutboxCall) : BrokerRun T S :=
  ⟨.start w fun t => (calls t).run t, .empty, fun _ => some assertOrderPlacedTopology, []⟩

/-- A publish reaches the broker only if the exchange is there; a message that no binding takes is confirmed
like any other and discarded. -/
inductive Step : BrokerRun T S → BrokerRun T S → Prop
  | call {x : BrokerRun T S} {t : T} {o : Action Serial Key (Row T) ShopOp}
      {next : Except Failure (o.Res ShopOp.Res) → ShopCall T Unit} {r : Except Failure (o.Res ShopOp.Res)}
      {w : ShopWorld T} (hp : x.relays.prog t = some (.call o next)) (ho : ∀ m, o ≠ .ext (.publish m))
      (hs : (ShopMachine T).perform t o x.relays.shared r w) :
      Step x { x with relays := ⟨w, Function.update x.relays.prog t (some (next r))⟩ }
  | publish {x : BrokerRun T S} {t : T} {m : OrderPlacedMessage} {next : Except Failure Unit → ShopCall T Unit}
      {r : Except Failure Unit} (hp : x.relays.prog t = some (.call (.ext (.publish m)) next))
      (hexchange : shopEventsExchange ∈ x.topology.exchanges)
      (hs : ShopPerforms t (.publish m) x.relays.shared.env r (x.relays.shared.env ++ [⟨t, m, false⟩])) :
      Step x { x with
        relays := ⟨⟨x.relays.shared.db, x.relays.shared.env ++ [⟨t, m, false⟩]⟩,
          Function.update x.relays.prog t (some (next r))⟩
        enqueued := if x.topology.Routes then x.enqueued ++ [m] else x.enqueued }
  | refuse {x : BrokerRun T S} {t : T} {m : OrderPlacedMessage} {next : Except Failure Unit → ShopCall T Unit}
      (hp : x.relays.prog t = some (.call (.ext (.publish m)) next)) :
      Step x { x with
        relays := ⟨x.relays.shared, Function.update x.relays.prog t (some (next (.error .broker)))⟩ }
  | crash {x : BrokerRun T S} {t : T} {o : Action Serial Key (Row T) ShopOp}
      {next : Except Failure (o.Res ShopOp.Res) → ShopCall T Unit} {w : ShopWorld T}
      (hp : x.relays.prog t = some (.call o next)) (hs : (ShopMachine T).crash t x.relays.shared w) :
      Step x { x with relays := ⟨w, Function.update x.relays.prog t none⟩ }
  | declare {x : BrokerRun T S} {s : S} {declaration : Declaration} {rest : List Declaration} {topology : Topology}
      (hs : x.setups s = some (declaration :: rest)) (hdeclare : x.topology.declare declaration = some topology) :
      Step x { x with topology := topology, setups := Function.update x.setups s (some rest) }
  | stop {x : BrokerRun T S} (s : S) : Step x { x with setups := Function.update x.setups s none }

def Routed (x y : BrokerRun T S) : Prop :=
  x.relays.shared.env.length < y.relays.shared.env.length → x.topology.Routes

def Reachable : BrokerRun T S → BrokerRun T S → Prop := Relation.ReflTransGen Step

def ReachableRouted : BrokerRun T S → BrokerRun T S → Prop :=
  Relation.ReflTransGen fun x y => Step x y ∧ Routed x y

section Steps

variable {x y : BrokerRun T S}

theorem Step.relays (h : Step x y) : y.relays = x.relays ∨ (ShopMachine T).Step x.relays y.relays := by
  cases h with
  | call hp _ hs => exact .inr (.call hp hs)
  | publish hp _ hs => exact .inr (.call hp (.ext hs))
  | refuse hp => exact .inr (.call hp (.ext (.failed nofun)))
  | crash hp hs => exact .inr (.crash hp hs)
  | declare => exact .inl rfl
  | stop => exact .inl rfl

theorem ReachableRouted.relays (h : ReachableRouted x y) : (ShopMachine T).Reachable x.relays y.relays := by
  induction h with
  | refl => exact .refl
  | tail _ hs ih =>
    rcases hs.1.relays with heq | hstep
    · rw [heq]
      exact ih
    · exact ih.tail hstep

theorem messages_of_perform {t : T} {o : Action Serial Key (Row T) ShopOp} {r : Except Failure (o.Res ShopOp.Res)}
    {w w' : ShopWorld T} (ho : ∀ m, o ≠ .ext (.publish m)) (h : (ShopMachine T).perform t o w r w') :
    ∀ sent ∈ w'.env, ∃ sent' ∈ w.env, sent'.message = sent.message := by
  intro sent hsent
  cases h with
  | ext h =>
    cases h with
    | publish => exact absurd rfl (ho _)
    | lostPublish => exact absurd rfl (ho _)
    | waitForConfirms =>
      obtain ⟨sent', hmem, -, hmessage⟩ := mem_confirm hsent
      exact ⟨sent', hmem, hmessage⟩
    | lostConfirm =>
      obtain ⟨sent', hmem, -, hmessage⟩ := mem_confirm hsent
      exact ⟨sent', hmem, hmessage⟩
    | _ => exact ⟨sent, hsent, rfl⟩
  | _ => exact ⟨sent, hsent, rfl⟩

def Kept (x : BrokerRun T S) : Prop := ∀ sent ∈ x.relays.shared.env, sent.message ∈ x.enqueued

theorem Kept.step (h : Kept x) (hs : Step x y) (hrouted : Routed x y) : Kept y := by
  cases hs with
  | call hp ho hs =>
    intro sent hsent
    obtain ⟨sent', hmem, hmessage⟩ := messages_of_perform ho hs sent hsent
    exact hmessage ▸ h sent' hmem
  | @publish t m next r hp _ hs =>
    have hroutes : x.topology.Routes := hrouted (by simp)
    intro sent hsent
    simp only [hroutes, if_true]
    rcases List.mem_append.mp hsent with hold | hnew
    · exact List.mem_append_left _ (h sent hold)
    · rw [List.mem_singleton.mp hnew]
      exact List.mem_append_right _ (List.mem_singleton_self _)
  | refuse hp => exact h
  | crash hp hs =>
    intro sent hsent
    rcases hs.2 with heq | heq
    · rw [heq] at hsent
      exact h sent hsent
    · rw [heq] at hsent
      obtain ⟨sent', hmem, -, hmessage⟩ := mem_confirm hsent
      exact hmessage ▸ h sent' hmem
  | declare => exact h
  | stop => exact h

theorem ReachableRouted.kept (h : ReachableRouted x y) (hx : Kept x) : Kept y := by
  induction h with
  | refl => exact hx
  | tail _ hs ih => exact ih.step hs.1 hs.2

theorem Step.routes (h : Step x y) (hx : x.topology.Routes) : y.topology.Routes := by
  cases h with
  | @declare s declaration rest topology hs hdeclare =>
    cases declaration with
    | bindQueue queue exchange routingKey =>
      simp only [Topology.declare, Option.ite_none_right_eq_some] at hdeclare
      obtain ⟨-, hdeclare⟩ := hdeclare
      obtain rfl := Option.some.inj hdeclare
      exact List.mem_cons_of_mem _ hx
    | _ =>
      obtain rfl := Option.some.inj hdeclare
      exact hx
  | _ => exact hx

theorem Reachable.routed (h : Reachable x y) (hx : x.topology.Routes) : ReachableRouted x y := by
  have hroutes : y.topology.Routes ∧ ReachableRouted x y := by
    induction h with
    | refl => exact ⟨hx, .refl⟩
    | tail _ hs ih => exact ⟨hs.routes ih.1, ih.2.tail ⟨hs, fun _ => ih.1⟩⟩
  exact hroutes.2

theorem ReachableRouted.reachable (h : ReachableRouted x y) : Reachable x y :=
  Relation.ReflTransGen.mono (fun _ _ hs => hs.1) x y h

section Lift

variable {d : ShopConfig T Unit}

theorem exists_step (hexchange : shopEventsExchange ∈ x.topology.exchanges) (h : (ShopMachine T).Step x.relays d) :
    ∃ y, Step x y ∧ y.relays = d ∧ y.topology = x.topology ∧ (¬x.topology.Routes → y.enqueued = x.enqueued) := by
  cases h with
  | @call t o next r w hp hs =>
    by_cases ho : ∀ m, o ≠ .ext (.publish m)
    · exact ⟨_, .call hp ho hs, rfl, rfl, fun _ => rfl⟩
    · rw [not_forall] at ho
      obtain ⟨m, hm⟩ := ho
      obtain rfl := not_not.mp hm
      cases hs with
      | ext hs =>
        cases hs with
        | publish => exact ⟨_, .publish hp hexchange .publish, rfl, rfl, fun hroutes => by simp [hroutes]⟩
        | lostPublish => exact ⟨_, .publish hp hexchange .lostPublish, rfl, rfl, fun hroutes => by simp [hroutes]⟩
        | failed _ => exact ⟨_, .refuse hp, rfl, rfl, fun _ => rfl⟩
  | crash hp hs => exact ⟨_, .crash hp hs, rfl, rfl, fun _ => rfl⟩

theorem exists_run (hexchange : shopEventsExchange ∈ x.topology.exchanges)
    (h : (ShopMachine T).Reachable x.relays d) :
    ∃ y, Reachable x y ∧ y.relays = d ∧ y.topology = x.topology ∧
      (¬x.topology.Routes → y.enqueued = x.enqueued) := by
  induction h with
  | refl => exact ⟨x, .refl, rfl, rfl, fun _ => rfl⟩
  | tail _ hs ih =>
    obtain ⟨y, hrun, rfl, htopology, henqueued⟩ := ih
    obtain ⟨z, hstep, hrelays, htopology', henqueued'⟩ := exists_step (htopology ▸ hexchange) hs
    refine ⟨z, hrun.tail hstep, hrelays, htopology'.trans htopology, fun hroutes => ?_⟩
    rw [htopology] at henqueued'
    exact (henqueued' hroutes).trans (henqueued hroutes)

theorem setup_run (s : S) (first rest : List Declaration) {topology : Topology}
    (hs : x.setups s = some (first ++ rest)) (hdeclare : first.foldlM Topology.declare x.topology = some topology) :
    ReachableRouted x { x with topology := topology, setups := Function.update x.setups s (some rest) } := by
  induction first generalizing x with
  | nil =>
    obtain rfl : x.topology = topology := Option.some.inj hdeclare
    rw [List.nil_append] at hs
    rw [← hs, Function.update_eq_self]
    exact .refl
  | cons declaration first ih =>
    obtain ⟨topology', hfirst, hrest⟩ := Option.bind_eq_some_iff.mp hdeclare
    refine .head ⟨.declare hs hfirst, fun h => absurd h (Nat.lt_irrefl _)⟩ ?_
    have hrun := ih (x := { x with
      topology := topology'
      setups := Function.update x.setups s (some (first ++ rest)) }) (Function.update_self ..) hrest
    simp only [Function.update_idem] at hrun
    exact hrun

end Lift

end Steps

end BrokerRun

/-- If no message finds the exchange without the binding of the queue, a row that is marked has been in the queue. -/
theorem published_rows_enqueued (calls : T → OutboxCall) {w : ShopWorld T} (hw : OutboxEmpty w) {x : BrokerRun T S}
    (h : (BrokerRun.start w calls).ReachableRouted x) :
    ∀ id row, x.relays.shared.db.committed (.outboxMessage id) = some row → row.publishedAt ≠ none →
      .payload row.payload ∈ x.enqueued := by
  have hstart : (BrokerRun.start w calls : BrokerRun T S).Kept := by
    intro sent hsent
    have hsent' : sent ∈ w.env := hsent
    rw [hw.log] at hsent'
    exact absurd hsent' List.not_mem_nil
  have hkept : x.Kept := h.kept hstart
  intro id row hrow hpublished
  have hlog := relayLog_reachable calls hw h.relays
  obtain ⟨sent, hsent, hmessage, -⟩ := hlog.marked id row hrow hpublished
  exact hmessage ▸ hkept sent hsent

def onePublishCalls : ℕ → OutboxCall
  | 0 => .write [samplePayload]
  | _ => .relay ⟨none, false⟩

def onePublishSchedule : List (ℕ × Option (DatabaseMove ShopMove)) :=
  [(0, some .go), (0, some (.ext (.ok 5)))] ++ List.replicate 5 (0, some .go) ++
    List.replicate 6 (1, some .go) ++ List.replicate 5 (1, some (.ext (.ok 7))) ++ List.replicate 4 (1, some .go)

theorem onePublish_run : ∃ c : ShopConfig ℕ Unit,
    (ShopMachine ℕ).Reachable (.start .empty fun t => (onePublishCalls t).run t) c ∧
    (c.shared.db.committed (.outboxMessage 1)).map (fun row : OutboxMessageRow => (row.payload, row.publishedAt)) =
      some (samplePayload, some 7) := by
  apply exists_reachable (S := withDatabaseMoves shopMoves .database) onePublishSchedule
  decide

theorem onePublish_row {w : ShopWorld ℕ}
    (h : (w.db.committed (.outboxMessage 1)).map (fun row : OutboxMessageRow => (row.payload, row.publishedAt)) =
      some (samplePayload, some 7)) :
    ∃ row : OutboxMessageRow, w.db.committed (.outboxMessage 1) = some row ∧ row.payload = samplePayload ∧
      row.publishedAt ≠ none := by
  obtain ⟨row, hrow, hfields⟩ := Option.map_eq_some_iff.mp h
  obtain ⟨hpayload, hpublished⟩ := Prod.mk.inj hfields
  exact ⟨row, hrow, hpayload, by simp [hpublished]⟩

theorem onePublish_after (first rest : List Declaration) (hsetup : assertOrderPlacedTopology = first ++ rest)
    {topology : Topology} (hdeclare : first.foldlM Topology.declare .empty = some topology)
    (hexchange : shopEventsExchange ∈ topology.exchanges) :
    ∃ x : BrokerRun ℕ Unit, (BrokerRun.start .empty onePublishCalls).Reachable x ∧
      (topology.Routes → (BrokerRun.start .empty onePublishCalls).ReachableRouted x) ∧
      (¬topology.Routes → x.enqueued = []) ∧
      ∃ row : OutboxMessageRow, x.relays.shared.db.committed (.outboxMessage 1) = some row ∧
      row.payload = samplePayload ∧ row.publishedAt ≠ none := by
  have hfirst : (BrokerRun.start .empty onePublishCalls).ReachableRouted
      ⟨.start .empty fun t => (onePublishCalls t).run t, topology,
        Function.update (fun _ => some assertOrderPlacedTopology) () (some rest), []⟩ :=
    BrokerRun.setup_run () first rest (congrArg some hsetup) hdeclare
  obtain ⟨c, hc, hrow⟩ := onePublish_run
  obtain ⟨x, hrun, rfl, -, henqueued⟩ := BrokerRun.exists_run (x := ⟨.start .empty fun t => (onePublishCalls t).run t,
    topology, Function.update (fun _ => some assertOrderPlacedTopology) () (some rest), []⟩) hexchange hc
  exact ⟨x, hfirst.reachable.trans hrun, fun hroutes => hfirst.trans (hrun.routed hroutes), henqueued,
    onePublish_row hrow⟩

theorem published_rows_enqueued_setup : ∃ x : BrokerRun ℕ Unit,
    (BrokerRun.start .empty onePublishCalls).ReachableRouted x ∧ .payload samplePayload ∈ x.enqueued := by
  obtain ⟨x, -, hrun, -, row, hrow, hpayload, hpublished⟩ :=
    onePublish_after assertOrderPlacedTopology [] rfl rfl (by decide)
  have hrouted := hrun (by decide)
  have henqueued := published_rows_enqueued onePublishCalls ⟨ShopWorld.empty_quiescent, fun _ => rfl, rfl⟩ hrouted 1 row
    hrow hpublished
  exact ⟨x, hrouted, hpayload ▸ henqueued⟩

/-- The relay runs between the declaration of the exchange and the binding of the queue. -/
theorem published_row_discarded : ∃ x : BrokerRun ℕ Unit, (BrokerRun.start .empty onePublishCalls).Reachable x ∧
    ∃ row : OutboxMessageRow, x.relays.shared.db.committed (.outboxMessage 1) = some row ∧ row.publishedAt ≠ none ∧
      .payload row.payload ∉ x.enqueued := by
  obtain ⟨x, hrun, -, hnothing, row, hrow, -, hpublished⟩ :=
    onePublish_after [.assertExchange shopEventsExchange] _ rfl rfl (by decide)
  refine ⟨x, hrun, row, hrow, hpublished, ?_⟩
  rw [hnothing (by decide)]
  exact List.not_mem_nil

end Marketplace
