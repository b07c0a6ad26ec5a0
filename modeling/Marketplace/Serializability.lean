import Marketplace.Concurrent.History
import Marketplace.OutboxQueue
import Marketplace.SequentialShop
import Marketplace.StockLedger

/-!
The service calls are serializable although the database only gives them READ COMMITTED: every run has one order of
its calls that explains, at each of its moments, the tables and the answers.
-/

namespace Marketplace

open Concurrent ReadCommitted

variable {T : Type}

def HasCommitted (t : T) (w : ShopWorld T) : Prop := (w.db.txn t).status = .committed

structure Explains (requests : T → ShopRequest) (w : ShopWorld T) (calls : List (T × ShopAnswer)) (w' : ShopWorld T) :
    Prop where
  serves : ServesAll requests w.db.committed calls w'.db.committed
  nodup : (calls.map Prod.fst).Nodup
  callers : ∀ t, t ∈ calls.map Prod.fst ↔ ¬HasCommitted t w ∧ HasCommitted t w'

structure Progress (requests : T → ShopRequest) (w w' : ShopWorld T) : Prop where
  commits : ∀ t, HasCommitted t w → HasCommitted t w'
  explains : ∃ calls, Explains requests w calls w'

section Orders

variable {requests : T → ShopRequest} {w w' w'' : ShopWorld T} {calls calls' : List (T × ShopAnswer)}
  {old new : Tables T}

theorem ServesAll.keeps (h : ServesAll requests old calls new) : Keeps old new := by
  induction h with
  | nil tables => exact .refl tables
  | cons h _ ih => exact h.keeps.trans ih

theorem ServesAll.createdAt_kept (h : ServesAll requests old calls new) {id : ℕ} {row : OutboxMessageRow}
    (hold : old (.outboxMessage id) = some row) :
    ∃ row', new (.outboxMessage id) = some row' ∧ row'.createdAt = row.createdAt := by
  induction h generalizing row with
  | nil => exact ⟨row, hold, rfl⟩
  | cons h _ ih =>
    obtain ⟨row', hrow', hcreated'⟩ := h.createdAt_kept hold
    obtain ⟨row'', hrow'', hcreated''⟩ := ih hrow'
    exact ⟨row'', hrow'', hcreated''.trans hcreated'⟩

theorem Explains.same (hc : w'.db.committed = w.db.committed) (ht : ∀ t, HasCommitted t w' ↔ HasCommitted t w) :
    Explains requests w [] w' where
  serves := hc ▸ .nil _
  nodup := .nil
  callers t := by simp [ht]

theorem Explains.single {t : T} {answer : ShopAnswer}
    (h : Serves t (requests t) w.db.committed answer w'.db.committed) (ht : ¬HasCommitted t w)
    (ht' : HasCommitted t w') (hothers : ∀ u, t ≠ u → (HasCommitted u w' ↔ HasCommitted u w)) :
    Explains requests w [(t, answer)] w' where
  serves := .cons h (.nil _)
  nodup := by simp
  callers u := by
    by_cases hu : t = u
    · subst hu
      simp [ht, ht']
    · simp [Ne.symm hu, hothers u hu]

theorem Explains.append (h : Explains requests w calls w') (h' : Explains requests w' calls' w'')
    (hp : ∀ t, HasCommitted t w → HasCommitted t w') (hp' : ∀ t, HasCommitted t w' → HasCommitted t w'') :
    Explains requests w (calls ++ calls') w'' where
  serves := h.serves.append h'.serves
  nodup := by
    rw [List.map_append, List.nodup_append]
    refine ⟨h.nodup, h'.nodup, ?_⟩
    rintro t ht u hu rfl
    exact ((h'.callers t).mp hu).1 ((h.callers t).mp ht).2
  callers t := by
    rw [List.map_append, List.mem_append, h.callers, h'.callers]
    have h₁ := hp t
    have h₂ := hp' t
    tauto

theorem Progress.refl (w : ShopWorld T) : Progress requests w w := ⟨fun _ h => h, [], .same rfl fun _ => .rfl⟩

theorem Progress.trans (h : Progress requests w w') (h' : Progress requests w' w'') : Progress requests w w'' := by
  obtain ⟨calls, hcalls⟩ := h.explains
  obtain ⟨calls', hcalls'⟩ := h'.explains
  exact ⟨fun t ht => h'.commits t (h.commits t ht), _, hcalls.append hcalls' h.commits h'.commits⟩

theorem Progress.keeps (h : Progress requests w w') : Keeps w.db.committed w'.db.committed := by
  obtain ⟨_, hcalls⟩ := h.explains
  exact hcalls.serves.keeps

end Orders

structure ShopSound (initial : Tables T) (states : List (ShopWorld T)) (w : ShopWorld T) : Prop where
  referenced : Referenced w.db.committed w.db.seq
  paired : Paired w.db.committed
  catalog : SameCatalog initial w.db.committed
  passed : ∃ s ∈ states, s.db.committed = w.db.committed

def ServedIn (requests : T → ShopRequest) (states : List (ShopWorld T)) (t : T) (answer : ShopAnswer) : Prop :=
  ∃ w w', [w, w'] <:+: states ∧ (¬HasCommitted t w ∧ HasCommitted t w') ∧
    Serves t (requests t) w.db.committed answer w'.db.committed

variable [DecidableEq T]

def serial (requests : T → ShopRequest) (initial : Tables T) (states : List (ShopWorld T)) :
    Discipline ((ShopMachine T).along states) where
  inv := ShopSound initial states
  always := Progress requests
  rely _ _ _ := True
  gone _ _ := True
  always_refl := .refl
  always_trans := .trans
  rely_refl _ _ := trivial
  rely_trans _ _ _ _ _ _ := trivial

section Rules

variable {requests : T → ShopRequest} {initial : Tables T} {states : List (ShopWorld T)} {t : T}
  {w w' : ShopWorld T}

theorem serial_same (hi : (serial requests initial states).inv w) (hc : w'.db.committed = w.db.committed)
    (hseq : ∀ q, w.db.seq q ≤ w'.db.seq q) (ht : ∀ u, HasCommitted u w' ↔ HasCommitted u w) :
    (serial requests initial states).Allows t w w' where
  inv := by
    refine ⟨?_, hc ▸ hi.paired, hc ▸ hi.catalog, hc ▸ hi.passed⟩
    rw [hc]
    exact ⟨hi.referenced.keys, hi.referenced.items, fun id row hid =>
      Nat.lt_of_lt_of_le (hi.referenced.drawn id row hid) (hseq _)⟩
  always := ⟨fun u => (ht u).mpr, [], .same hc ht⟩
  rely _ _ := trivial

theorem serial_calm : Calm (serial requests initial states) where
  works {t w db} hi hw := by
    refine serial_same hi hw.committed hw.seq fun u => ?_
    by_cases hu : t = u
    · subst hu
      simp only [HasCommitted, hw.status]
    · simp only [HasCommitted, (hw.frame u hu).txn]
  rollback hi := serial_same hi Database.committed_rollback (fun q => Nat.le_of_eq (by rw [Database.seq_rollback]))
    fun _ => Database.status_rollback
  crash {t w w'} hi hc _ := by
    refine ⟨serial_same hi ?_ (fun q => Nat.le_of_eq ?_) fun u => ?_, fun _ _ => trivial⟩
    · rw [hc.1, Database.committed_rollback]
    · rw [hc.1, Database.seq_rollback]
    · simp only [HasCommitted, hc.1]
      exact Database.status_rollback

theorem serial_start (hi : (serial requests initial states).inv w) (ht : ¬HasCommitted t w) :
    (serial requests initial states).Allows t w ⟨w.db.setTxn t ⟨.inProgress, 0⟩, w.env⟩ ∧
      ¬HasCommitted t (⟨w.db.setTxn t ⟨.inProgress, 0⟩, w.env⟩ : ShopWorld T) := by
  have hstarted : ¬HasCommitted t (⟨w.db.setTxn t ⟨.inProgress, 0⟩, w.env⟩ : ShopWorld T) := by
    simp [HasCommitted]
  refine ⟨serial_same hi rfl (fun _ => Nat.le_refl _) fun u => ?_, hstarted⟩
  by_cases hu : t = u
  · subst hu
    exact iff_of_false hstarted ht
  · simp only [HasCommitted, Database.txn_setTxn_of_ne hu]

theorem serial_env (hi : (serial requests initial states).inv w) (env : List (Sent T)) :
    (serial requests initial states).Allows t w ⟨w.db, env⟩ :=
  serial_same hi rfl (fun _ => Nat.le_refl _) fun _ => .rfl

theorem uncommitted_kept (t : T) : Kept (serial requests initial states) t fun w => ¬HasCommitted t w where
  stable w w' _ h hs := by
    simp only [HasCommitted, hs.frame.db.txn]
    exact h
  works _ h hw := by
    simp only [HasCommitted, hw.status]
    exact h

def IsServed (requests : T → ShopRequest) (states : List (ShopWorld T)) (t : T) (answer : ShopAnswer)
    (w : ShopWorld T) : Prop := HasCommitted t w ∧ ServedIn requests states t answer

theorem isServed_stable (answer : ShopAnswer) :
    (serial requests initial states).Stable t (IsServed requests states t answer) :=
  fun _ _ _ h hs => ⟨hs.always.commits t h.1, h.2⟩

theorem serial_commit {ws : Workspace Key (Row T)} {c : ℕ} {answer : ShopAnswer}
    (hi : (serial requests initial states).inv w) (hat : At t ws c w)
    (h : Serves t (requests t) w.db.committed answer (w.db.commit t).committed)
    (hdrawn : ∀ id row, (w.db.commit t).committed (.orderItem id) = some row →
      w.db.committed (.orderItem id) = some row ∨ id < w.db.seq .orderItems)
    (ha : [w, ⟨w.db.commit t, w.env⟩] <:+: states) :
    (serial requests initial states).Allows t w ⟨w.db.commit t, w.env⟩ ∧
      IsServed requests states t answer ⟨w.db.commit t, w.env⟩ := by
  have hbefore : ¬HasCommitted t w := by simp [HasCommitted, hat.txn]
  have hafter : HasCommitted t (⟨w.db.commit t, w.env⟩ : ShopWorld T) := by
    rw [HasCommitted, Database.txn_commit (by rw [hat.txn])]
  have hothers (u : T) (hu : t ≠ u) : HasCommitted u (⟨w.db.commit t, w.env⟩ : ShopWorld T) ↔ HasCommitted u w := by
    simp only [HasCommitted, Database.txn_commit_of_ne hu]
  have hexplains : Explains requests w [(t, answer)] ⟨w.db.commit t, w.env⟩ :=
    .single h hbefore hafter hothers
  refine ⟨⟨⟨?_, h.paired hi.paired, hi.catalog.trans h.catalog, ?_⟩, ⟨fun u hu => ?_, _, hexplains⟩,
    fun _ _ => trivial⟩, hafter, w, _, ha, ⟨hbefore, hafter⟩, h⟩
  · refine hi.referenced.step h.keeps (Nat.le_of_eq (by rw [Database.seq_commit])) h.references.1 fun id row hid => ?_
    rcases h.references.2 id row hid with hold | hnew
    · exact .inl hold
    · refine (hdrawn id row hid).imp_right fun hlt => ⟨hnew, ?_⟩
      rw [Database.seq_commit]
      exact hlt
  · exact ⟨_, ha.subset (by simp), rfl⟩
  · by_cases hne : t = u
    · exact hne ▸ hafter
    · exact (hothers u hne).mpr hu

theorem serial_read {ws : Workspace Key (Row T)} {c : ℕ} {answer : ShopAnswer}
    (hi : (serial requests initial states).inv w) (hat : At t ws c w)
    (h : Serves t (requests t) w.db.committed answer w.db.committed)
    (hsame : (w.db.commit t).committed = w.db.committed) (ha : [w, ⟨w.db.commit t, w.env⟩] <:+: states) :
    (serial requests initial states).Allows t w ⟨w.db.commit t, w.env⟩ ∧
      IsServed requests states t answer ⟨w.db.commit t, w.env⟩ :=
  serial_commit hi hat (by rw [hsame]; exact h) (fun id row hid => .inl (by rw [← hsame]; exact hid)) ha

-- tables of the run by which a checkout has to be refused
def RefusedIn (states : List (ShopWorld T)) (input : CheckoutInput) (e : Failure) : Prop :=
  ∃ s ∈ states, Refuses input s.db.committed e

def Denied (states : List (ShopWorld T)) (t : T) (input : CheckoutInput) (e : Failure) (w : ShopWorld T) : Prop :=
  e = insufficientStock ∨ e = insufficientBalance → ¬HasCommitted t w ∧ RefusedIn states input e

theorem denied_stable (input : CheckoutInput) (e : Failure) :
    (serial requests initial states).Stable t (Denied states t input e) :=
  fun _ _ hi h hs he => ⟨(uncommitted_kept t).stable _ _ hi (h he).1 hs, (h he).2⟩

theorem serial_refusals {input : CheckoutInput} {quantity : ℤ} (hinput : input.quantity = .integer quantity) :
    RefusalRules (serial requests initial states) t input quantity (fun w => ¬HasCommitted t w)
      (fun _ => RefusedIn states input insufficientStock) (fun _ _ => True)
      (fun _ _ => RefusedIn states input insufficientBalance) (Denied states t input) where
  short := .const
  product _ := .const
  poor _ := .const
  lacks hi _ h := by
    obtain ⟨s, hs, hsame⟩ := hi.passed
    exact ⟨s, hs, .stock hinput (hsame ▸ h)⟩
  takes _ _ _ := trivial
  owes hi _ hproduct hstock h := by
    obtain ⟨s, hs, hsame⟩ := hi.passed
    exact ⟨s, hs, .balance hinput (hsame ▸ hproduct) hstock (hsame ▸ h)⟩
  refusesStock _ ht h _ := ⟨ht, h⟩
  refusesBalance _ ht _ h _ := ⟨ht, h⟩

theorem serial_checkout {input : CheckoutInput} (ht : requests t = .checkout input) :
    CheckoutSteps (serial requests initial states) t input (fun w => ¬HasCommitted t w) (Denied states t input)
      (fun result => IsServed requests states t (.checkout result))
      fun result => IsServed requests states t (.checkout result) where
  calm := serial_calm
  kept := uncommitted_kept t
  broken := denied_stable input
  stable result := isServed_stable _
  published result := isServed_stable _
  fails _ _ he := absurd he (by decide)
  rejects _ _ he := absurd he (by decide)
  refuses _ hinput := ⟨_, _, _, serial_refusals hinput⟩
  starts := serial_start
  aborts _ h := ⟨fun he => ⟨fun hc => (h he).1 (Database.status_rollback.mp hc), (h he).2⟩,
    fun he => absurd he (by decide)⟩
  commits {w r quantity} placed hinput hof hi hat _ hpos _ hitem ha := by
    have hserves : Serves t (requests t) w.db.committed (.checkout placed.result) (w.db.commit t).committed := by
      rw [ht]
      exact .sold hinput (hof.quantity ▸ hpos) hof hat.commits
    have hdrawn (id : ℕ) (row : OrderItemRow) (hid : (w.db.commit t).committed (.orderItem id) = some row) :
        w.db.committed (.orderItem id) = some row ∨ id < w.db.seq .orderItems := by
      refine ((PlacedCheckout.committed hat).item_cases hid).imp_right ?_
      rintro ⟨rfl, -⟩
      exact hitem
    obtain ⟨hall, hserved⟩ := serial_commit hi hat hserves hdrawn ha
    exact ⟨hall, fun _ => hserved, fun _ he => absurd he (by decide)⟩
  publishes quantity result occurredAt _ := by
    have hserved : (serial requests initial states).Stable t (IsServed requests states t (.checkout result)) :=
      isServed_stable _
    have hrules : PublishRules (serial requests initial states) t
        (.event (createOrderPlacedEvent input quantity result occurredAt))
        (IsServed requests states t (.checkout result))
        (IsServed requests states t (.checkout result)) (IsServed requests states t (.checkout result)) fun _ => True :=
      { before := hserved
        sent := hserved
        confirmed := hserved
        broken := .const
        sends := fun _ hi h => ⟨serial_env hi _, h⟩
        confirms := fun _ hi h => ⟨serial_env hi _, h⟩
        fails := fun _ _ _ _ _ _ => trivial }
    refine (publishOrderPlaced_broker_spec serial_calm _ hrules).conseq (fun _ _ h => h) (fun _ _ _ h => h) ?_
    rintro e w - ⟨rfl, -⟩ he
    exact absurd he (by decide)

-- what the two loops of a `create` call read is what is on sale
def serialReads (requests : T → ShopRequest) (initial : Tables T) (states : List (ShopWorld T)) (t : T)
    (items : List CreateOrderItemInput) (key : String) :
    PriceReads (serial requests initial states) t items key where
  seen _ p price _ := OrderLine.Listed initial p price
  agree p price price' := price' = price ∧ OrderLine.Listed initial p price
  kept _ _ _ := .const
  first hi _ _ _ hrow hactive := hi.catalog.listed.mp ⟨_, hrow, hactive, rfl⟩
  second hi _ _ hrow hseen := by
    obtain ⟨product, hproduct, -, hprice⟩ := hi.catalog.listed.mpr hseen
    cases hproduct.symm.trans hrow
    exact ⟨hprice, hseen⟩

omit [DecidableEq T] in
theorem firstUser_least {view : View T} {n : ℕ} (h : firstUser view = some n) : FirstUser view.row n := by
  obtain ⟨huser, -, hnone⟩ := List.find?_range_eq_some.mp h
  refine ⟨huser, fun u hu => ?_⟩
  by_contra hlt
  have := hnone u (Nat.lt_of_not_le hlt)
  simp [hu] at this

theorem serialReads_rows {items : List CreateOrderItemInput} {key : String} {n : ℕ} {lines : List OrderLine}
    {stored : List (ℕ × OrderItemRow)}
    (h : List.Forall₂ ((serialReads requests initial states t items key).Stores n) lines stored) :
    stored.map Prod.snd = lines.map (OrderLine.row n) ∧
      ∀ line ∈ lines, OrderLine.Listed initial line.productId line.price := by
  induction h with
  | nil => exact ⟨rfl, by simp⟩
  | @cons line s lines stored hs _ ih =>
    obtain ⟨hprice, hlisted⟩ := hs.price
    have hrow : s.2 = line.row n := by
      rw [OrderLine.row, ← hs.orderId, ← hs.productId, ← hs.quantity, ← hprice]
    exact ⟨by rw [List.map_cons, List.map_cons, ih.1, hrow], List.forall_mem_cons.mpr ⟨hlisted, ih.2⟩⟩

def serial_place {input : CreateOrderInput} {key : String} {items : List CreateOrderItemInput}
    (ht : requests t = .create input key) (haccepted : input.Accepted key items) :
    PlaceSteps (serial requests initial states) t items key (fun _ => True)
      fun response => IsServed requests states t (.create response) where
  calm := serial_calm
  reads := serialReads requests initial states t items key
  stable _ := isServed_stable _
  failures _ _ := trivial
  buyer := FirstUser initial
  chooses hi h := hi.catalog.firstUser.mp (firstUser_least h)
  places {w r} placed lines hi hat hp hbuyer hdrawn _ ha := by
    obtain ⟨hstored, hlisted⟩ := serialReads_rows hp.stored
    have hplaced : placed.For t items key lines w.db.committed :=
      { bound := hp.bound
        key := hp.key
        input := hp.input
        priced := fun line hline => ⟨hp.quantities line hline, hi.catalog.listed.mpr (hlisted line hline)⟩
        buyer := hi.catalog.firstUser.mpr hbuyer
        order := by rw [← hp.status, ← hp.total, ← hp.placedBy]
        stored := hstored
        sorted := hp.sorted
        eventId := hp.eventId
        payload := by
          rw [← hp.eventId, ← hp.total]
          exact hp.payload
        waiting := ⟨hp.publishedAt, hp.attempts⟩ }
    have hserves : Serves t (requests t) w.db.committed (.create ⟨placed.orderId, items, placed.order.totalAmount,
        .created⟩) (w.db.commit t).committed := by
      rw [ht, hp.total]
      exact .placed haccepted hplaced hat.commits
    refine serial_commit hi hat hserves (fun id row hid => ?_) ha
    exact ((PlacedOrder.committed hat hp.sorted).item_cases hid).imp_right (hdrawn _)

theorem serial_reads (t : T) : ReadRules (serial requests initial states) t where
  calm := serial_calm
  reads _ :=
    { stable := fun _ _ _ h hs => h.keeps hs.always.keeps
      works := fun _ h hw => hw.committed ▸ h }
  referenced hi := hi.referenced

theorem serial_create {input : CreateOrderInput} {key : String} (ht : requests t = .create input key) :
    (serial requests initial states).Triple t
      (fun w => w.db.workspace t = Workspace.empty ∧ ¬HasCommitted t w) (create t input key)
      (fun response => IsServed requests states t (.create response)) fun _ _ => True := by
  refine create_spec_of (φ := fun _ => True) serial_calm (uncommitted_kept t) trivial (fun w => serial_start)
    (fun _ _ => trivial) (fun items stored haccepted hstored => ?_) fun items stored haccepted hstored => ?_
  · exact ((serial_place ht haccepted).placeOrder_spec hstored).pre fun w _ h => ⟨h.1, trivial⟩
  · refine ((serial_reads t).replayOrder_spec hstored (fun response => isServed_stable _) ?_).pre
      fun w _ h => ⟨h.1, h.2.2⟩
    intro response w r c hkept hi hat hreads ha
    refine serial_read hi hat ?_ (hat.committed_unchanged Workspace.set_empty_locked) ha
    rw [ht]
    exact .replayed haccepted hkept (hat.committed_old (k := Key.idempotencyKey key) Workspace.set_self) hreads

def Remains (view : View T) (tables : Tables T) : Prop :=
  ∀ id row, view.row (.outboxMessage id) = some row →
    ∃ row', tables (.outboxMessage id) = some row' ∧ row'.createdAt = row.createdAt

theorem remains_stable (view : View T) :
    (serial requests initial states).Stable t fun w => Remains view w.db.committed := by
  intro w w' _ h hs id row hid
  obtain ⟨row', hrow', hcreated'⟩ := h id row hid
  obtain ⟨_, hcalls⟩ := hs.always.explains
  obtain ⟨row'', hrow'', hcreated''⟩ := hcalls.serves.createdAt_kept hrow'
  exact ⟨row'', hrow'', hcreated''.trans hcreated'⟩

omit [DecidableEq T] in
theorem RelayOptions.Takes.ordered {options : RelayOptions} {view : View T} {tables : Tables T}
    {rows : List (ℕ × OutboxMessageRow)} (h : options.Takes view rows) (hremains : Remains view tables)
    (hrows : ∀ p ∈ rows, tables (.outboxMessage p.1) = some p.2) : rows.Pairwise Earlier := by
  have hqueue : ((View.queue view).map Prod.fst).Pairwise fun i j => ∀ x y,
      tables (.outboxMessage i) = some x → tables (.outboxMessage j) = some y → Earlier (i, x) (j, y) := by
    refine List.pairwise_map.mpr (queue_ordered.imp_of_mem ?_)
    rintro ⟨i, x⟩ ⟨j, y⟩ hi hj hearlier x' y' hx' hy'
    obtain ⟨_, hx, hxcreated⟩ := hremains i x (mem_queue.mp hi).2.1
    obtain ⟨_, hy, hycreated⟩ := hremains j y (mem_queue.mp hj).2.1
    cases hx'.symm.trans hx
    cases hy'.symm.trans hy
    simpa only [Earlier, hxcreated, hycreated] using hearlier
  have hsublist := h.order
  rw [unpublished_eq] at hsublist
  refine (List.pairwise_map.mp (hqueue.sublist hsublist)).imp_of_mem fun {p q} hp hq hpq => ?_
  exact hpq p.2 q.2 (hrows p hp) (hrows q hq)

theorem serial_relay {options : RelayOptions} (ht : requests t = .relayOutboxBatch options) :
    RelaySteps (serial requests initial states) t options (fun w => ¬HasCommitted t w) Remains
      fun stats => IsServed requests states t (.relayOutboxBatch stats) where
  calm := serial_calm
  before := (uncommitted_kept t).stable
  seen := remains_stable
  stable stats := isServed_stable _
  starts hi h _ := serial_start hi h
  sends hi _ _ _ _ := serial_env hi _
  confirms hi := serial_env hi _
  reads _ hview id row hid := ⟨row, hview ▸ hid, rfl⟩
  commits {w ws c r rows view} hi hat hws hmarked _ hremains htakes hcrash ha := by
    refine serial_commit hi hat ?_ (fun id row hid => .inl ?_) ha
    · rw [ht]
      obtain ⟨limit, hlimit, hlength⟩ := htakes.limit
      have hrows (p : ℕ × OutboxMessageRow) (hp : p ∈ rows) : w.db.committed (.outboxMessage p.1) = some p.2 := by
        obtain ⟨_, hnew, -⟩ := hmarked p hp
        exact hat.commits.old_eq hnew
      exact .relayed hlimit hlength (htakes.ordered hremains hrows) hcrash hws hmarked hat.commits
    · rw [← (hws.committed hmarked hat).others (.orderItem id) (by simp)]
      exact hid

theorem serial_process {event : ConsumedEvent} (ht : requests t = .processOrderPlacedEvent event) :
    ProcessSteps (serial requests initial states) t event (fun w => ¬HasCommitted t w)
      fun result => IsServed requests states t (.processOrderPlacedEvent result) where
  calm := serial_calm
  paired hi := hi.paired
  before := (uncommitted_kept t).stable
  stable result := isServed_stable _
  starts := serial_start
  applies {w r messageId effect} hmessage heffect hi hat ha := by
    refine serial_commit hi hat ?_ (fun id row hid => .inl ?_) ha
    · rw [ht]
      exact .applied hmessage heffect hat.commits
    · rw [← hid]
      exact (hat.commits.same ((Workspace.set_of_ne (by simp)).trans (Workspace.set_of_ne (by simp)))).symm
  skips {w r messageId} hmessage hi hat hmarker ha := by
    refine serial_read hi hat ?_ (hat.committed_unchanged fun _ _ h => nomatch h) ha
    rw [ht]
    exact .skipped hmessage hmarker

def Failed (requests : T → ShopRequest) (states : List (ShopWorld T)) (t : T) (e : Failure) (w : ShopWorld T) : Prop :=
  ∀ input, requests t = .checkout input → Denied states t input e w

theorem ShopRequest.run_spec (t : T) :
    (serial requests initial states).Triple t
      (fun w => w.db.workspace t = Workspace.empty ∧ ¬HasCommitted t w ∧ outgoing t w.env = [])
      ((requests t).run t) (IsServed requests states t) (Failed requests states t) := by
  have hother (h : ∀ input, requests t ≠ .checkout input) (e : Failure) (w : ShopWorld T) :
      Failed requests states t e w := fun input ht => absurd ht (h input)
  cases ht : requests t with
  | create input key =>
    refine .bind (R := fun response => IsServed requests states t (.create response)) ?_ fun response =>
      .pure (isServed_stable _) fun _ _ h => h
    exact (serial_create ht).conseq (fun _ _ h => ⟨h.1, h.2.1⟩) (fun _ _ _ h => h) fun e w _ _ =>
      hother (by simp [ht]) e w
  | checkout input =>
    refine .bind (R := fun result => IsServed requests states t (.checkout result)) ?_ fun result =>
      .pure (isServed_stable _) fun _ _ h => h
    refine (checkout_steps_spec (serial_checkout ht)).conseq (fun _ _ h => ⟨h.1, h.2.1⟩) (fun _ _ _ h => h) ?_
    intro e w _ h input' ht'
    cases ht.symm.trans ht'
    exact h
  | relayOutboxBatch options =>
    refine .bind (R := fun stats => IsServed requests states t (.relayOutboxBatch stats)) ?_ fun stats =>
      .pure (isServed_stable _) fun _ _ h => h
    exact (relayOutboxBatch_steps_spec (serial_relay ht)).conseq (fun _ _ h => h) (fun _ _ _ h => h)
      fun e w _ _ => hother (by simp [ht]) e w
  | processOrderPlacedEvent event =>
    refine .bind (R := fun result => IsServed requests states t (.processOrderPlacedEvent result)) ?_ fun result =>
      .pure (isServed_stable _) fun _ _ h => h
    exact (serial_process ht).processOrderPlacedEvent_spec.conseq (fun _ _ h => ⟨h.1, h.2.1⟩) (fun _ _ _ h => h)
      fun e w _ _ => hother (by simp [ht]) e w

end Rules

-- the calls that have returned in the end have these answers
def Agrees (outcomes : T → Option (Except Failure ShopAnswer)) (calls : List (T × ShopAnswer)) : Prop :=
  ∀ t answer answer', (t, answer) ∈ calls → outcomes t = some (.ok answer') → answer = answer'

section Order

variable {requests : T → ShopRequest} {states : List (ShopWorld T)} {w w' : ShopWorld T}
  {outcomes : T → Option (Except Failure ShopAnswer)}

theorem exists_segment (hserved : ∀ t answer, outcomes t = some (.ok answer) → ServedIn requests states t answer)
    (hstates : states.IsChain fun x y => ∀ t, HasCommitted t x → HasCommitted t y) (hpair : [w, w'] <:+: states)
    (hp : Progress requests w w') {u : T} (hframe : ∀ t, u ≠ t → w'.db.txn t = w.db.txn t) :
    ∃ calls, Explains requests w calls w' ∧ Agrees outcomes calls := by
  obtain ⟨calls, hcalls⟩ := hp.explains
  have honly (t : T) (ht : t ∈ calls.map Prod.fst) : t = u := by
    by_contra hne
    obtain ⟨hbefore, hafter⟩ := (hcalls.callers t).mp ht
    rw [HasCommitted, hframe t (Ne.symm hne)] at hafter
    exact hbefore hafter
  match calls, hcalls, honly with
  | [], hcalls, _ => exact ⟨[], hcalls, by simp [Agrees]⟩
  | (t, answer) :: (t', answer') :: rest, hcalls, honly =>
    have hsame : t = t' := (honly t (by simp)).trans (honly t' (by simp)).symm
    have hnodup := hcalls.nodup
    simp [hsame] at hnodup
  | [(t, answer)], hcalls, honly =>
    by_cases hanswer : ∃ answer', outcomes t = some (.ok answer')
    · obtain ⟨answer', hanswer⟩ := hanswer
      obtain ⟨x, y, hxy, ⟨hx, hy⟩, hserves⟩ := hserved t answer' hanswer
      obtain ⟨hbefore, hafter⟩ := (hcalls.callers t).mp (by simp)
      -- a call commits only once
      have honce := isChain_once (P := HasCommitted t) (hstates.imp fun _ _ h => h t) hxy hpair hx hy hbefore hafter
      obtain ⟨rfl, rfl⟩ := honce
      refine ⟨[(t, answer')], .single hserves hbefore hafter fun v hv => ?_, ?_⟩
      · have hu : u ≠ v := fun h => hv ((honly t (by simp)).trans h)
        simp only [HasCommitted, hframe v hu]
      · intro v answer₁ answer₂ hmem hv
        cases List.mem_singleton.mp hmem
        cases hanswer.symm.trans hv
        rfl
    · refine ⟨[(t, answer)], hcalls, fun v answer₁ answer₂ hmem hv => ?_⟩
      cases List.mem_singleton.mp hmem
      exact absurd ⟨_, hv⟩ hanswer

omit [DecidableEq T] in
theorem exists_order {rest : List (ShopWorld T)} (h : (w :: rest).IsChain fun x y =>
      (∀ t, HasCommitted t x → HasCommitted t y) ∧ ∃ calls, Explains requests x calls y ∧ Agrees outcomes calls) :
    ∃ calls, Agrees outcomes calls ∧ (∀ z, (w :: rest).getLast? = some z → Explains requests w calls z) ∧
      ∀ x ∈ w :: rest, ∃ before, before <+: calls ∧ Explains requests w before x := by
  induction rest generalizing w with
  | nil =>
    have hself : Explains requests w [] w := .same rfl fun _ => .rfl
    refine ⟨[], by simp [Agrees], fun z hz => ?_, fun x hx => ⟨[], List.prefix_rfl, ?_⟩⟩
    · cases hz
      exact hself
    · rw [List.mem_singleton.mp hx]
      exact hself
  | cons w' rest ih =>
    obtain ⟨⟨hcommits, first, hfirst, hagree⟩, htail⟩ := List.isChain_cons_cons.mp h
    obtain ⟨calls, hagree', hlast, hall⟩ := ih htail
    have hlater (x : ShopWorld T) (hx : x ∈ w' :: rest) (t : T) (ht : HasCommitted t w') : HasCommitted t x :=
      isChain_forall (htail.imp fun _ _ h => h.1 t) ht x hx
    refine ⟨first ++ calls, fun t answer answer' hmem => ?_, fun z hz => ?_, fun x hx => ?_⟩
    · rcases List.mem_append.mp hmem with hmem | hmem
      · exact hagree t answer answer' hmem
      · exact hagree' t answer answer' hmem
    · rw [List.getLast?_cons_cons] at hz
      exact hfirst.append (hlast z hz) hcommits (hlater z (List.mem_of_getLast? hz))
    · rcases List.mem_cons.mp hx with rfl | hx
      · exact ⟨[], List.nil_prefix, .same rfl fun _ => .rfl⟩
      · obtain ⟨before, hbefore, hexplains⟩ := hall x hx
        exact ⟨first ++ before, (List.prefix_append_right_inj first).mpr hbefore,
          hfirst.append hexplains hcommits (hlater x hx)⟩

end Order

structure ShopReady (w : ShopWorld T) : Prop extends OrdersAtRest w where
  paired : Paired w.db.committed

/-- These calls, served one after the other, give the tables of `d` and every answer that is there, and none of them
has yet to begin. -/
structure Accounts (requests : T → ShopRequest) (w : ShopWorld T) (calls : List (T × ShopAnswer))
    (d : ShopConfig T ShopAnswer) : Prop extends Explains requests w calls d.shared where
  answered : ∀ t answer, d.outcome t = some (.ok answer) → (t, answer) ∈ calls
  begun : ∀ t, d.prog t = some ((requests t).run t) → t ∉ calls.map Prod.fst

section Runs

variable {requests : T → ShopRequest} {w : ShopWorld T} {run : List (ShopConfig T ShopAnswer)}
  {c d : ShopConfig T ShopAnswer} {t : T}

omit [DecidableEq T] in
theorem ShopReady.uncommitted (hw : ShopReady w) (t : T) : ¬HasCommitted t w := by
  simp [HasCommitted, hw.quiescent.txn t]

variable (hw : ShopReady w) (h : (ShopMachine T).History (.start w fun t => (requests t).run t) run c)

include hw h

theorem run_starts : (serial requests w.db.committed (run.map Config.shared)).inv w ∧
    ∀ t, (serial requests w.db.committed (run.map Config.shared)).Holds t
      (Discipline.Post (IsServed requests (run.map Config.shared) t) (Failed requests (run.map Config.shared) t)) w
      (some ((requests t).run t)) := by
  have hmem : w ∈ run.map Config.shared := List.mem_map_of_mem (List.mem_of_mem_head? h.head)
  have hsound : ShopSound w.db.committed (run.map Config.shared) w :=
    ⟨hw.referenced, hw.paired, .refl _, w, hmem, rfl⟩
  exact ⟨hsound, fun t => ShopRequest.run_spec t w hsound
    ⟨hw.quiescent.workspace t, hw.uncommitted t, by rw [hw.log]; rfl⟩⟩

theorem run_post (hd : d ∈ run) {r : Except Failure ShopAnswer} (hr : d.outcome t = some r) :
    Discipline.Post (IsServed requests (run.map Config.shared) t) (Failed requests (run.map Config.shared) t) r
      d.shared := by
  obtain ⟨hsound, hstart⟩ := run_starts hw h
  obtain ⟨hi, -, hall⟩ := Discipline.reachable_holds hsound hstart (h.along.of_mem hd).1
  have hsafe := hall t
  rw [Config.outcome_eq_some.mp hr] at hsafe
  exact hsafe.outcome hi

theorem run_segments : (run.map Config.shared).IsChain fun x y => (∀ t, HasCommitted t x → HasCommitted t y) ∧
    ∃ calls, Explains requests x calls y ∧ Agrees c.outcome calls := by
  obtain ⟨hsound, hstart⟩ := run_starts hw h
  have hchain := Discipline.history_holds hsound hstart h.along
  refine List.isChain_iff_forall_rel_of_append_cons_cons.mpr fun x y before after heq => ?_
  obtain ⟨hp, u, hframe⟩ := List.isChain_iff_forall_rel_of_append_cons_cons.mp hchain heq
  have hpair : [x, y] <:+: run.map Config.shared := ⟨before, after, by rw [heq]; simp⟩
  exact ⟨hp.commits, exists_segment (fun t answer hr => (run_post hw h (List.mem_of_getLast? h.getLast) hr).2)
    (hchain.imp fun _ _ h => h.1.commits) hpair hp fun t hne => (hframe t hne).db.txn⟩

theorem accounts_of_explains (hd : d ∈ run) {calls before : List (T × ShopAnswer)} (hagree : Agrees c.outcome calls)
    (hbefore : before <+: calls) (hexplains : Explains requests w before d.shared) :
    Accounts requests w before d := by
  obtain ⟨hreach, hleft⟩ := h.of_mem hd
  refine ⟨hexplains, fun t answer hr => ?_, fun t hprog hmem => hw.uncommitted t ?_⟩
  · have hmem := (hexplains.callers t).mpr ⟨hw.uncommitted t, (run_post hw h hd hr).1⟩
    obtain ⟨⟨t', answer'⟩, hcall, rfl⟩ := List.mem_map.mp hmem
    rw [← hagree t' answer' answer (hbefore.subset hcall) (hleft.outcome hr)]
    exact hcall
  · rw [HasCommitted, ← (hreach.unstarted hprog).db.txn]
    exact ((hexplains.callers t).mp hmem).2

end Runs

/-- One order of the calls accounts for a whole run: at every moment a first part of it for what has happened so
far, so that a call that has returned before another begins also comes before it. A checkout is refused for too
little stock or balance only if tables of the run ask for it, and such a call is not in the order. -/
theorem calls_serializable (requests : T → ShopRequest) {w : ShopWorld T} (hw : ShopReady w)
    {run : List (ShopConfig T ShopAnswer)} {c : ShopConfig T ShopAnswer}
    (h : (ShopMachine T).History (.start w fun t => (requests t).run t) run c) :
    ∃ calls, Accounts requests w calls c ∧
      (∀ d ∈ run, ∃ before, before <+: calls ∧ Accounts requests w before d) ∧
      ∀ t input e, requests t = .checkout input → c.outcome t = some (.error e) →
      e = insufficientStock ∨ e = insufficientBalance →
      t ∉ calls.map Prod.fst ∧ ∃ d ∈ run, Refuses input d.shared.db.committed e := by
  have hc : c ∈ run := List.mem_of_getLast? h.getLast
  obtain ⟨rest, hrest⟩ := List.head?_eq_some_iff.mp h.head
  have hsegments := run_segments hw h
  rw [hrest] at hsegments
  obtain ⟨calls, hagree, hlast, hall⟩ := exists_order hsegments
  have hexplains : Explains requests w calls c.shared := by
    refine hlast _ ?_
    have hstates := congrArg (List.map Config.shared) hrest
    rw [List.map_cons] at hstates
    exact hstates ▸ (by rw [List.getLast?_map, h.getLast]; rfl)
  refine ⟨calls, accounts_of_explains hw h hc hagree List.prefix_rfl hexplains, fun d hd => ?_,
    fun t input e ht hr he => ?_⟩
  · have hmem : d.shared ∈ run.map Config.shared := List.mem_map_of_mem hd
    rw [hrest] at hmem
    obtain ⟨before, hbefore, hd'⟩ := hall d.shared hmem
    exact ⟨before, hbefore, accounts_of_explains hw h hd hagree hbefore hd'⟩
  · obtain ⟨hrefused, s, hs, hrefuses⟩ := run_post hw h hc hr input ht he
    obtain ⟨d, hd, rfl⟩ := List.mem_map.mp hs
    exact ⟨fun hmem => hrefused ((hexplains.callers t).mp hmem).2, d, hd, hrefuses⟩

omit [DecidableEq T] in
theorem seeded_shopReady : ShopReady (ShopWorld.seeded (T := T)) where
  toOrdersAtRest := seeded_ordersAtRest
  paired _ := ⟨fun ⟨_, h⟩ => (nomatch h), fun ⟨_, h⟩ => nomatch h⟩

def mixedRequests : ℕ → ShopRequest
  | 0 | 1 => .checkout raceInput
  | 2 => .create retriedInput "mixed"
  | _ => .relayOutboxBatch ⟨none, false⟩

-- call 1 finds too little stock after call 0, then call 2 places an order and call 3 relays its event
def mixedSchedule : List (ℕ × Option (DatabaseMove ShopMove)) :=
  raceSchedule ++ placeMoves 2 ++ List.replicate 6 (3, some .go) ++ List.replicate 5 (3, some (.ext (.ok 7))) ++
    List.replicate 4 (3, some .go)

theorem calls_serializable_mixed : ∃ (run : List (ShopConfig ℕ ShopAnswer)) (c : ShopConfig ℕ ShopAnswer)
    (calls : List (ℕ × ShopAnswer)),
    (ShopMachine ℕ).History (.start .seeded fun t => (mixedRequests t).run t) run c ∧
      (c.outcome 1 = some (.error insufficientStock) ∧ c.outcome 3 = some (.ok (.relayOutboxBatch ⟨1, 1, 1⟩))) ∧
      Accounts mixedRequests .seeded calls c ∧ (0, .checkout ⟨1, 300, 2⟩) ∈ calls ∧ 1 ∉ calls.map Prod.fst ∧
      ∃ d ∈ run, Refuses raceInput d.shared.db.committed insufficientStock := by
  have hrun : ∃ c : ShopConfig ℕ ShopAnswer,
      (ShopMachine ℕ).Reachable (.start .seeded fun t => (mixedRequests t).run t) c ∧
      c.outcome 0 = some (.ok (.checkout ⟨1, 300, 2⟩)) ∧ c.outcome 1 = some (.error insufficientStock) ∧
      c.outcome 3 = some (.ok (.relayOutboxBatch ⟨1, 1, 1⟩)) := by
    apply exists_reachable (S := withDatabaseMoves shopMoves .database) mixedSchedule
    decide
  obtain ⟨c, hc, hsold, hrefused, hrelayed⟩ := hrun
  obtain ⟨run, hrun⟩ := Machine.History.exists_of_reachable hc
  obtain ⟨calls, haccounts, -, hdenied⟩ := calls_serializable mixedRequests seeded_shopReady hrun
  obtain ⟨hnone, hpassed⟩ := hdenied 1 raceInput insufficientStock rfl hrefused (.inl rfl)
  exact ⟨run, c, calls, hrun, ⟨hrefused, hrelayed⟩, haccounts, haccounts.answered 0 _ hsold, hnone, hpassed⟩

end Marketplace
