import Marketplace.EventPipeline
import Marketplace.PlacementLocks

namespace Marketplace

open Concurrent ReadCommitted

variable {T : Type}

-- the relay's SELECT locks its rows FOR UPDATE
def serviceLocks : LockScheme Key (Row T) where
  mode
    | .idempotencyKey _ | .outboxMessage _ => .update
    | _ => .noKeyUpdate
  references := Row.references

def serviceRank : Key → ℕ ×ₗ ℕ
  | .orderEventEffect _ => toLex (9, 0)
  | k => lockRank k

theorem serviceRank_lt {j k : Key} (h : lockRank j < lockRank k) : serviceRank j < serviceRank k := by
  cases j <;> cases k <;> simp_all [serviceRank, lockRank, Prod.Lex.toLex_lt_toLex]

theorem serviceLocks_unreferenced (k : Key) (row : Row T k) :
    ∀ j ∈ serviceLocks.references k row, (serviceLocks (T := T).mode j).conflicts .keyShare = false := by
  intro j hj
  cases k <;> simp only [serviceLocks, Row.references, List.mem_cons, List.not_mem_nil, or_false, List.mem_map] at hj
  case order => subst hj; rfl
  case orderItem => rcases hj with rfl | rfl <;> rfl
  case postProcessingTask => subst hj; rfl
  case idempotencyKey =>
    obtain ⟨id, -, rfl⟩ := hj
    rfl
  case refreshToken => subst hj; rfl

abbrev servicePolicy (T : Type) : Policy Serial Key (Row T) ShopOp Unit := .of (fun _ _ => ()) (InOrder serviceRank)

abbrev ServedInOrder {α : Type} (P : Phase Serial Key Unit → Prop) (p : ShopCall T α)
    (G : α → Phase Serial Key Unit → Prop) :
    Prop :=
  Obeys (servicePolicy T) P p G

section Statements

variable {α : Type} {P : Phase Serial Key Unit → Prop}

theorem Ordered.served {p : ShopCall T α} {G : α → Phase Serial Key Unit → Prop} (h : Ordered P p G) :
    ServedInOrder P p G := by
  refine fun z hz => (h z hz).weaken fun z a ha k hk => ?_
  rcases ha k hk with hheld | hlower
  · exact .inl hheld
  · exact .inr fun j hj => serviceRank_lt (hlower j hj)

theorem requestless_served {z : Phase Serial Key Unit} {a : Action Serial Key (Row T) ShopOp}
    (ha : a.requests = none) : (servicePolicy T).Permits z a := by
  intro k hk
  rw [ha] at hk
  cases hk

theorem begin_served : ServedInOrder P (begin : ShopCall T Unit) fun _ => P := by
  refine .perform (fun _ _ => requestless_served rfl) (fun _ _ => trivial) fun z _ z' hz hz' => ?_
  cases hz'
  exact hz

theorem abandon_served {G : α → Phase Serial Key Unit → Prop} (error : Failure) :
    ServedInOrder (fun _ => True) (do
      rollback
      throw error : ShopCall T α) G :=
  .bind rollback_ordered.served fun _ => .throw

end Statements

section Relay

variable {P : Phase Serial Key Unit → Prop}

def RowsHeld (rows : List (ℕ × OutboxMessageRow)) (z : Phase Serial Key Unit) : Prop :=
  ∀ id row, (id, row) ∈ rows → z.held (.outboxMessage id)

theorem lockUnpublished_served (hP : ∀ z k, P z → P (z.take k ())) (ids : List ℕ) (n : ℕ) :
    ServedInOrder P (lockUnpublished ids n : ShopCall T _) fun rows z => P z ∧ RowsHeld rows z := by
  induction ids generalizing n P with
  | nil => exact .pure fun z hz => ⟨hz, nofun⟩
  | cons id ids ih =>
    cases n with
    | zero => exact .pure fun z hz => ⟨hz, nofun⟩
    | succ n =>
      refine .bind (tryLock_obeys (G := fun locked z => P z ∧ (locked ≠ none → z.held (.outboxMessage id)))
        (fun _ _ => requestless_served rfl) (fun z hz => ⟨hz, nofun⟩) fun z row hz => ⟨hP z _ hz, fun _ => .inl rfl⟩)
        fun locked => ?_
      cases hrow : locked.filter fun row => row.publishedAt.isNone with
      | none => exact (ih hP (n + 1)).pre fun z hz => hz.1
      | some row =>
        obtain ⟨hlocked, -⟩ := Option.filter_eq_some_iff.mp hrow
        have htake : ∀ z k, P z ∧ z.held (.outboxMessage id) →
            P (z.take k ()) ∧ (z.take k ()).held (.outboxMessage id) :=
          fun z k hz => ⟨hP z k hz.1, .inr hz.2⟩
        refine .bind ((ih htake n).pre fun z hz => ⟨hz.1, hz.2 (hlocked ▸ nofun)⟩) fun rows => .pure fun z hz => ?_
        refine ⟨hz.1.1, fun i r hi => ?_⟩
        rcases List.mem_cons.mp hi with heq | hi
        · cases heq
          exact hz.1.2
        · exact hz.2 i r hi

theorem selectUnpublished_served (batchSize : JsNumber) :
    ServedInOrder (fun _ => True) (selectUnpublished batchSize : ShopCall T _) RowsHeld := by
  unfold selectUnpublished
  split
  · refine .bind (G := fun _ _ => True) (.perform (fun _ _ => requestless_served rfl) (fun _ _ => trivial)
      fun _ _ _ _ _ => trivial) fun view => ?_
    exact (lockUnpublished_served (fun _ _ _ => trivial) _ _).post fun rows z hz => hz.2
  · exact .throw

theorem update_rowsHeld {rows : List (ℕ × OutboxMessageRow)} {id : ℕ} {row : OutboxMessageRow}
    (hid : (id, row) ∈ rows) {p : OutboxMessageRow → Bool} {f : OutboxMessageRow → OutboxMessageRow} :
    ServedInOrder (RowsHeld rows) (update (Key.outboxMessage id) p f : ShopCall T _) fun _ => RowsHeld rows := by
  have htake : ∀ z, RowsHeld rows z → RowsHeld rows (z.take (.outboxMessage id) ()) :=
    fun z hz i r hi => .inr (hz i r hi)
  apply updateWhere_obeys (k := Key.outboxMessage id) (f := f) (fun _ => requestless_served rfl) (fun _ _ h => h)
    fun _ => rfl
  · intro z hz j hj
    cases hj
    exact .inl (hz id row hid)
  · exact fun _ _ _ => requestless_served rfl
  · exact fun _ hz => hz
  · exact fun z _ hz => htake z hz

theorem publishOrderPlaced_held (message : OrderPlacedMessage) :
    ServedInOrder P (publishOrderPlaced message : ShopCall T Unit) fun _ => P := by
  refine .bind (external_ordered _).served fun _ => .bind (G := fun _ => P) ?_ fun _ => (external_ordered _).served
  refine .handle (.bind (external_ordered _).served fun _ => (external_ordered _).served) fun error => ?_
  exact .bind (external_ordered _).served fun _ => .throw

theorem relayRows_served (crashAfterPublish : Bool) (rows : List (ℕ × OutboxMessageRow)) (stats : RelayStats) :
    ServedInOrder (RowsHeld rows) (relayRows crashAfterPublish rows stats : ShopCall T RelayStats) fun _ _ => True := by
  induction rows generalizing stats with
  | nil => exact .pure fun _ _ => trivial
  | cons entry rows ih =>
    obtain ⟨id, row⟩ := entry
    refine .bind (update_rowsHeld List.mem_cons_self) fun _ => .bind (publishOrderPlaced_held _) fun _ => ?_
    split
    · exact .throw
    · refine .bind (external_ordered _).served fun now => .bind (update_rowsHeld List.mem_cons_self) fun _ => ?_
      exact (ih _).pre fun z hz i r hi => hz i r (List.mem_cons_of_mem _ hi)

theorem relayOutboxBatch_served (options : RelayOptions) :
    ServedInOrder (fun _ => True) (relayOutboxBatch options : ShopCall T RelayStats) fun _ _ => True := by
  refine .bind begin_served fun _ => .handle ?_ abandon_served
  refine .bind (selectUnpublished_served _) fun rows => .bind (relayRows_served _ rows _) fun stats => ?_
  exact .bind commit_ordered.served fun _ => .pure fun _ _ => trivial

end Relay

abbrev NothingLocked : Phase Serial Key Unit → Prop := Locked (fun _ => False) (toLex (0, 0))

section Consumer

variable {event : ConsumedEvent}

-- the marker is the first row that the consumer holds
def MarkerHeld (z : Phase Serial Key Unit) : Prop := ∀ k, z.held k → ∃ m, k = .processedMessage m consumerName

theorem insertMarker_served (self : T) :
    ServedInOrder NothingLocked (insertMarker self event : ShopCall T Bool)
      fun marked z => marked = true → MarkerHeld z := by
  have hfree : ∀ z, NothingLocked z → ∀ k, ¬z.held k := fun z hz k hk => by
    have hlt := hz.below k hk
    cases k <;> simp [lockRank, Prod.Lex.toLex_lt_toLex] at hlt
  unfold insertMarker
  split
  · exact .throw
  · refine insertOrSkip_obeys (fun _ => requestless_served rfl) (fun _ _ h => ⟨h.own, h.below⟩) ?_ ?_
      fun _ _ hmarked => absurd hmarked Bool.false_ne_true
    · exact fun z hz k _ => .inr fun j hj => absurd hj (hfree z hz j)
    · rintro z hz - k (rfl | hk)
      · exact ⟨_, rfl⟩
      · exact absurd hk (hfree z hz k)

theorem insertEffect_served :
    ServedInOrder MarkerHeld (insertEffect event : ShopCall T Bool) fun _ _ => True := by
  unfold insertEffect
  split
  · refine insertOrSkip_obeys (fun _ => requestless_served rfl) (fun _ _ h => h) ?_ (fun _ _ => trivial)
      fun _ _ => trivial
    intro z hz k hk
    cases hk
    refine .inr fun j hj => ?_
    obtain ⟨m, rfl⟩ := hz j hj
    simp [serviceRank, lockRank, Prod.Lex.toLex_lt_toLex]
  · exact .throw

theorem processOrderPlacedEvent_served (self : T) (event : ConsumedEvent) :
    ServedInOrder NothingLocked (processOrderPlacedEvent self event : ShopCall T ProcessResult) fun _ _ => True := by
  refine .bind begin_served fun _ => .handle ?_ abandon_served
  refine .bind (insertMarker_served self) fun marked => ?_
  cases marked with
  | true =>
    refine .bind (insertEffect_served.pre fun z hz => hz rfl) fun _ => ?_
    exact .bind commit_ordered.served fun _ => .pure fun _ _ => trivial
  | false => exact .bind commit_ordered.served fun _ => .pure fun _ _ => trivial

end Consumer

theorem ServiceCall.run_served (parameters : Parameters) (self : T) (call : ServiceCall) :
    ServedInOrder NothingLocked (call.run parameters self) fun _ _ => True := by
  cases call with
  | deliver message =>
    refine .bind (G := fun _ _ => True) ?_ fun _ => .pure fun _ _ => trivial
    unfold Marketplace.deliver
    split
    · exact .throw
    · exact processOrderPlacedEvent_served self _
  | order call =>
    refine .bind (G := fun _ _ => True) ?_ fun _ => .pure fun _ _ => trivial
    cases call with
    | create input idempotencyKey =>
      exact .bind (create_ordered self input idempotencyKey).served fun _ => .pure fun _ _ => trivial
    | checkout input => exact .bind (checkout_ordered self input).served fun _ => .pure fun _ _ => trivial
    | relay options =>
      refine .bind ((relayOutboxBatch_served options).pre fun _ _ => trivial) fun _ => .pure fun _ _ => trivial

variable [DecidableEq T]

/-- Orders, checkouts, relays and consumers never wait for each other in a circle. -/
theorem service_never_deadlocks (parameters : Parameters) (calls : T → ServiceCall) {w : ShopWorld T}
    (hw : w.db.Quiescent) {c : ShopConfig T (Option ProcessResult)}
    (h : (ShopMachine T).Reachable (.start w fun t => (calls t).run parameters t) c) :
    Acyclic (WaitsFor serviceLocks c) :=
  acyclic_of_inOrder hw serviceLocks_unreferenced (fun t => (calls t).run_served parameters t _ .start) h

-- calls 0 and 1 send the same Idempotency-Key, calls 2 and 3 handle two deliveries of one event
def contendingCalls : ℕ → ServiceCall
  | 0 | 1 => .order (.create retriedInput "key")
  | _ => .deliver (.payload placedPayload)

def contendingPrograms : ℕ → ShopCall ℕ (Option ProcessResult)
  | 2 => do
    let result ← processOrderPlacedEvent 2 ⟨orderPlacedEventId 1, orderPlacedType, some 1⟩
    pure (some result)
  | 3 => do
    let result ← processOrderPlacedEvent 3 ⟨orderPlacedEventId 1, orderPlacedType, some 1⟩
    pure (some result)
  | t => (contendingCalls t).run castParameters t

theorem contendingPrograms_eq : (fun t => (contendingCalls t).run castParameters t) = contendingPrograms := by
  funext t
  by_cases ht : t = 2 ∨ t = 3
  · rcases ht with rfl | rfl <;> simp only [contendingCalls, ServiceCall.run, deliver_placedPayload] <;> rfl
  · obtain ⟨h2, h3⟩ := not_or.mp ht
    simp only [contendingPrograms]

def contendingSchedule : List (ℕ × Option (DatabaseMove ShopMove)) :=
  List.replicate 3 (0, some .go) ++ List.replicate 2 (1, some .go) ++ List.replicate 3 (2, some .go) ++
    List.replicate 2 (3, some .go)

theorem service_never_deadlocks_contending : ∃ c : ShopConfig ℕ (Option ProcessResult),
    (ShopMachine ℕ).Reachable (.start .seeded fun t => (contendingCalls t).run castParameters t) c ∧
      (WaitsFor serviceLocks c 1 0 ∧ WaitsFor serviceLocks c 3 2) ∧ Acyclic (WaitsFor serviceLocks c) := by
  have hrun : ∃ c : ShopConfig ℕ (Option ProcessResult),
      (ShopMachine ℕ).Reachable (.start .seeded fun t => (contendingCalls t).run castParameters t) c ∧
        WaitsFor serviceLocks c 1 0 ∧ WaitsFor serviceLocks c 3 2 := by
    rw [contendingPrograms_eq]
    apply exists_reachable (S := withDatabaseMoves shopMoves .database) contendingSchedule
    refine ⟨_, rfl, ?_, ?_⟩
    · exact .row rfl rfl rfl ⟨_, rfl⟩
    · exact .row rfl rfl rfl ⟨_, rfl⟩
  obtain ⟨c, hc, hwaits⟩ := hrun
  exact ⟨c, hc, hwaits, service_never_deadlocks castParameters contendingCalls ⟨fun _ => rfl, fun _ => rfl⟩ hc⟩

end Marketplace
