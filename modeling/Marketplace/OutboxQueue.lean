import Marketplace.CheckoutFaults
import Marketplace.OutboxRelay
import Marketplace.ReadCommitted.Session
import Marketplace.Relational.Ordering

namespace Marketplace

open Concurrent ReadCommitted

variable {T : Type}

theorem Earlier.asymm (x y : ℕ × OutboxMessageRow) (h : Earlier x y) : ¬Earlier y x := by
  unfold Earlier at *
  omega

def View.queue (view : View T) : List (ℕ × OutboxMessageRow) :=
  ((List.range (view.seq .outboxMessages)).filterMap fun id =>
    ((view.row (.outboxMessage id)).filter fun row => row.publishedAt.isNone).map fun row => (id, row)).insertionSort
      fun x y => x.2.createdAt ≤ y.2.createdAt

section Queue

variable {view : View T} {id : ℕ} {row : OutboxMessageRow}

theorem mem_queue : (id, row) ∈ View.queue view ↔
    id < view.seq .outboxMessages ∧ view.row (.outboxMessage id) = some row ∧ row.publishedAt = none := by
  rw [View.queue, (List.perm_insertionSort _ _).mem_iff]
  simp only [List.mem_filterMap, List.mem_range, Option.map_eq_some_iff, Option.filter_eq_some_iff, Prod.mk.injEq,
    Option.isNone_iff_eq_none]
  constructor
  · rintro ⟨_, hid, _, ⟨hrow, hnone⟩, rfl, rfl⟩
    exact ⟨hid, hrow, hnone⟩
  · rintro ⟨hid, hrow, hnone⟩
    exact ⟨id, hid, row, ⟨hrow, hnone⟩, rfl, rfl⟩

theorem queue_ordered : (View.queue view).Pairwise Earlier := by
  have hids : ((List.range (view.seq .outboxMessages)).filterMap fun id =>
      ((view.row (.outboxMessage id)).filter fun row => row.publishedAt.isNone).map fun row => (id, row)).Pairwise
        fun x y => x.1 < y.1 := by
    refine List.Pairwise.filterMap _ (fun i j hij x hx y hy => ?_) List.pairwise_lt_range
    obtain ⟨_, -, rfl⟩ := Option.map_eq_some_iff.mp hx
    obtain ⟨_, -, rfl⟩ := Option.map_eq_some_iff.mp hy
    exact hij
  have : Std.Total fun x y : ℕ × OutboxMessageRow => x.2.createdAt ≤ y.2.createdAt := ⟨fun _ _ => Nat.le_total _ _⟩
  have : IsTrans (ℕ × OutboxMessageRow) fun x y => x.2.createdAt ≤ y.2.createdAt := ⟨fun _ _ _ => Nat.le_trans⟩
  refine (Relational.insertionSort_stable hids).imp fun hxy => ?_
  obtain ⟨hle, hids⟩ := hxy
  rcases Nat.lt_or_eq_of_le hle with hlt | heq
  · exact .inl hlt
  · exact .inr ⟨heq, hids heq.ge⟩

theorem queue_ids_nodup : ((View.queue view).map Prod.fst).Nodup := by
  refine List.pairwise_map.mpr (queue_ordered.imp_of_mem fun {x y} hx hy hxy heq => ?_)
  obtain ⟨id, row⟩ := x
  obtain ⟨id', row'⟩ := y
  obtain rfl : id = id' := heq
  obtain ⟨-, hrow, -⟩ := mem_queue.mp hx
  obtain ⟨-, hrow', -⟩ := mem_queue.mp hy
  cases hrow.symm.trans hrow'
  exact Earlier.asymm _ _ hxy hxy

theorem unpublished_eq : View.unpublished view = (View.queue view).map Prod.fst := by
  have hrows : ((List.range (view.seq .outboxMessages)).filterMap fun id =>
      ((view.row (.outboxMessage id)).filter fun row => row.publishedAt.isNone).map fun row => (row.createdAt, id)) =
      ((List.range (view.seq .outboxMessages)).filterMap fun id =>
        ((view.row (.outboxMessage id)).filter fun row => row.publishedAt.isNone).map fun row => (id, row)).map
          fun x => (x.2.createdAt, x.1) := by
    simp only [List.map_filterMap, Option.map_map, Function.comp_def]
  unfold View.unpublished View.queue
  dsimp only
  rw [hrows, ← List.map_insertionSort (r := fun x y : ℕ × OutboxMessageRow => x.2.createdAt ≤ y.2.createdAt)
    (s := fun x y : ℕ × ℕ => x.1 ≤ y.1) _ _ fun _ _ _ _ => Iff.rfl, List.map_map]
  rfl

end Queue

structure RowsPublished (rows : List (ℕ × OutboxMessageRow)) (old new : Tables T) : Prop where
  published : ∀ id row, (id, row) ∈ rows →
    ∃ now, new (.outboxMessage id) = some { row with attempts := row.attempts + 1, publishedAt := some now }
  others : ∀ k, (∀ id row, (id, row) ∈ rows → k ≠ .outboxMessage id) → new k = old k

def messages (log : List (Sent T)) : List OrderPlacedMessage := log.map (·.message)

def payloads (rows : List (ℕ × OutboxMessageRow)) : List OrderPlacedMessage :=
  rows.map fun row => .payload row.2.payload

@[simp] theorem messages_confirm [DecidableEq T] {t : T} {log : List (Sent T)} :
    messages (confirm t log) = messages log := by
  simp only [messages, confirm, List.map_map]
  refine List.map_congr_left fun sent _ => ?_
  simp only [Function.comp_apply]
  split <;> rfl

@[simp] theorem messages_append {log log' : List (Sent T)} : messages (log ++ log') = messages log ++ messages log' :=
  List.map_append

/-- How the broker and the clock answer during one run of the relay. -/
abbrev Broker (T : Type) := (o : ShopOp) → List (Sent T) → Except Failure o.Res × List (Sent T)

def Broker.Healthy (broker : Broker T) : Prop := ∀ o log, ∃ r, (broker o log).1 = .ok r

variable [DecidableEq T] {t : T} {broker : Broker T} {base current : Tables T} {seq : Serial → ℕ}

def Broker.Performs (broker : Broker T) (t : T) : Prop :=
  ∀ o log, shop.perform t o log (broker o log).1 (broker o log).2

section Selecting

variable {C : Failure → ShopWorld T → Prop}

theorem lockUnpublished_alone {queue : List (ℕ × OutboxMessageRow)}
    (hqueue : ∀ id row, (id, row) ∈ queue → current (.outboxMessage id) = some row ∧ row.publishedAt = none) (n : ℕ) :
    Prog.Solo (stepAlone broker .database t) (Session t base seq current) (lockUnpublished (queue.map Prod.fst) n)
      (fun rows w => rows = queue.take n ∧ Session t base seq current w) C := by
  induction queue generalizing n with
  | nil => exact .pure fun _ h => ⟨List.take_nil.symm, h⟩
  | cons entry queue ih =>
    obtain ⟨id, row⟩ := entry
    obtain ⟨hrow, hnone⟩ := hqueue id row List.mem_cons_self
    cases n with
    | zero => exact .pure fun _ h => ⟨rfl, h⟩
    | succ n =>
      refine .bind_eq (a := some row) (tryLock_solo.conseq (fun _ h => h) (fun r w h => ⟨h.1.trans hrow, h.2⟩)
        fun _ _ h => h) ?_
      simp only [Option.filter_some, hnone, Option.isNone_none, if_true]
      refine .bind_eq (ih (fun id row h => hqueue id row (List.mem_cons_of_mem _ h)) n) ?_
      exact .pure fun _ h => ⟨rfl, h⟩

theorem selectUnpublished_alone {batchSize : JsNumber} {n : ℕ} (h : limitParameter batchSize = some n) :
    Prog.Solo (stepAlone broker .database t) (Session t base seq base) (selectUnpublished batchSize)
      (fun rows w => rows = (View.queue ⟨base, seq⟩).take n ∧ Session t base seq base w) C := by
  simp only [selectUnpublished, h]
  refine .bind_eq statement_solo ?_
  rw [unpublished_eq]
  refine lockUnpublished_alone (fun id row h => ?_) n
  exact (mem_queue.mp h).2

end Selecting

section Publishing

variable {P : ShopWorld T → Prop} {ms : List OrderPlacedMessage}

def OfDatabase (P : ShopWorld T → Prop) : Prop := ∀ w log, P w → P ⟨w.db, log⟩

def sentBy : ShopOp → List OrderPlacedMessage
  | .publish m => [m]
  | _ => []

/-- A broker operation may fail before or after it has sent its message. -/
def Interrupted (broker : Broker T) (P : ShopWorld T → Prop) (ms sent : List OrderPlacedMessage) (w : ShopWorld T) :
    Prop :=
  P w ∧ (∃ prior, prior <+: sent ∧ messages w.env = ms ++ prior) ∧ ¬broker.Healthy

theorem performs_sent {o : ShopOp} {log log' : List (Sent T)} {r : Except Failure o.Res}
    (h : shop.perform t o log r log') : (∀ a, r = .ok a → messages log' = messages log ++ sentBy o) ∧
      ∃ prior, prior <+: sentBy o ∧ messages log' = messages log ++ prior := by
  cases h with
  | publish => exact ⟨fun _ _ => messages_append, _, List.prefix_rfl, messages_append⟩
  | lostPublish => exact ⟨nofun, _, List.prefix_rfl, messages_append⟩
  | waitForConfirms => exact ⟨fun _ _ => by simp [sentBy], [], List.nil_prefix, by simp⟩
  | lostConfirm => exact ⟨nofun, [], List.nil_prefix, by simp⟩
  | failed => exact ⟨nofun, [], List.nil_prefix, (List.append_nil _).symm⟩
  | _ => exact ⟨fun _ _ => (List.append_nil _).symm, [], List.nil_prefix, (List.append_nil _).symm⟩

theorem external_alone (hP : OfDatabase P) (hbroker : broker.Performs t) (o : ShopOp) :
    Prog.Solo (stepAlone broker .database t) (fun w => P w ∧ messages w.env = ms) (external o)
      (fun _ w => P w ∧ messages w.env = ms ++ sentBy o) fun _ => Interrupted broker P ms (sentBy o) := by
  refine .perform fun w ⟨hw, hms⟩ => ?_
  obtain ⟨hok, hprior⟩ := performs_sent (hbroker o w.env)
  have hsick : ∀ error, (broker o w.env).1 = .error error → ¬broker.Healthy := by
    rintro error herror hhealthy
    obtain ⟨r, hr⟩ := hhealthy o w.env
    cases herror.symm.trans hr
  simp only [stepAlone]
  rw [hms] at hok hprior
  generalize (broker o w.env).1 = r at hok hsick ⊢
  cases r with
  | ok a => exact ⟨hP w _ hw, hok a rfl⟩
  | error error => exact ⟨hP w _ hw, hprior, hsick error rfl⟩

theorem silent_alone (hP : OfDatabase P) (hbroker : broker.Performs t) {o : ShopOp} (ho : sentBy o = [])
    {m : OrderPlacedMessage} : Prog.Solo (stepAlone broker .database t) (Interrupted broker P ms [m]) (external o)
      (fun _ => Interrupted broker P ms [m]) fun _ => Interrupted broker P ms [m] := by
  rintro w ⟨hw, ⟨prior, hprior, hms⟩, hsick⟩
  refine (external_alone hP hbroker o w ⟨hw, hms⟩).conseq ?_ ?_
  · rintro _ w ⟨hw, hms⟩
    exact ⟨hw, ⟨prior, hprior, by simpa [ho] using hms⟩, hsick⟩
  · rintro _ w ⟨hw, ⟨more, hmore, hms⟩, -⟩
    rw [ho, List.prefix_nil] at hmore
    exact ⟨hw, ⟨prior, hprior, by simpa [hmore] using hms⟩, hsick⟩

theorem publishOrderPlaced_alone (hP : OfDatabase P) (hbroker : broker.Performs t) (m : OrderPlacedMessage) :
    Prog.Solo (stepAlone broker .database t) (fun w => P w ∧ messages w.env = ms) (publishOrderPlaced m)
      (fun _ w => P w ∧ messages w.env = ms ++ [m]) fun _ => Interrupted broker P ms [m] := by
  have hearly : ∀ w, Interrupted broker P ms [] w → Interrupted broker P ms [m] w := by
    rintro w ⟨hw, ⟨prior, hprior, hms⟩, hsick⟩
    exact ⟨hw, ⟨prior, hprior.trans (List.nil_prefix), hms⟩, hsick⟩
  have hlate : ∀ w, Interrupted broker P (ms ++ [m]) [] w → Interrupted broker P ms [m] w := by
    rintro w ⟨hw, ⟨prior, hprior, hms⟩, hsick⟩
    rw [List.prefix_nil] at hprior
    exact ⟨hw, ⟨[m], List.prefix_rfl, by simpa [hprior] using hms⟩, hsick⟩
  have hafter (o : ShopOp) (ho : sentBy o = []) : Prog.Solo (stepAlone broker .database t)
      (fun w => P w ∧ messages w.env = ms ++ [m]) (external o) (fun _ w => P w ∧ messages w.env = ms ++ [m])
      fun _ => Interrupted broker P ms [m] := by
    have h : Prog.Solo (stepAlone broker .database t) (fun w => P w ∧ messages w.env = ms ++ [m]) (external o)
        (fun _ w => P w ∧ messages w.env = ms ++ [m] ++ sentBy o)
        fun _ => Interrupted broker P (ms ++ [m]) (sentBy o) :=
      external_alone hP hbroker o
    rw [ho, List.append_nil] at h
    exact h.conseq (fun _ h => h) (fun _ _ h => h) fun _ w h => hlate w h
  refine .bind (Q := fun _ w => P w ∧ messages w.env = ms) ?_ fun _ => .bind
    (Q := fun _ w => P w ∧ messages w.env = ms ++ [m]) (.handle (Y := fun _ => Interrupted broker P ms [m]) ?_ ?_)
    fun _ => hafter .close rfl
  · refine (external_alone hP hbroker .connectToBroker).conseq (fun _ h => h) (fun _ w h => ?_) fun _ w h => hearly w h
    simpa [sentBy] using h
  · exact .bind (external_alone hP hbroker (.publish m)) fun _ => hafter .waitForConfirms rfl
  · exact fun error => .bind (silent_alone hP hbroker rfl) fun _ => .throw fun _ h => h

end Publishing

section Batch

variable {ms : List OrderPlacedMessage} {rows : List (ℕ × OutboxMessageRow)}

omit [DecidableEq T] in
theorem session_ofDatabase : OfDatabase (Session t base seq current) :=
  fun _ _ h => ⟨h.committed, h.seq, h.status, h.rows⟩

theorem solo_messages {α : Type} {P : ShopWorld T → Prop} {p : ShopCall T α} {G : α → ShopWorld T → Prop}
    {C : Failure → ShopWorld T → Prop} (hp : p.Uses OnDatabase) (h : Prog.Solo (stepAlone broker .database t) P p G C) :
    Prog.Solo (stepAlone broker .database t) (fun w => P w ∧ messages w.env = ms) p
      (fun a w => G a w ∧ messages w.env = ms) fun error w => C error w ∧ messages w.env = ms :=
  solo_with_env hp h (H := (messages · = ms))

theorem update_alone {id : ℕ} {row : OutboxMessageRow} {f : OutboxMessageRow → OutboxMessageRow}
    (hrow : current (.outboxMessage id) = some row) (hvalid : fitsInt4 (f row).attempts = true) :
    Prog.Solo (stepAlone broker .database t) (fun w => Session t base seq current w ∧ messages w.env = ms)
      (update (Key.outboxMessage id) (fun _ => true) f)
      (fun _ w => Session t base seq (Function.update current (.outboxMessage id) (some (f row))) w ∧
      messages w.env = ms) fun _ _ => False := by
  have huses : (update (Key.outboxMessage id) (fun _ => true) f : ShopCall T _).Uses OnDatabase :=
    uses_updateWhere (onDatabase_sql _) (onDatabase_sql _) fun _ => onDatabase_sql _
  exact (solo_messages huses (updateWhere_solo (C := fun _ _ => False) hrow rfl hvalid)).conseq (fun _ h => h)
    (fun _ w h => ⟨h.1.2, h.2⟩) fun _ _ h => h.1

def BatchFailed (broker : Broker T) (crashAfterPublish : Bool) (P : ShopWorld T → Prop)
    (ms sent : List OrderPlacedMessage) (w : ShopWorld T) : Prop :=
  P w ∧ (∃ prior, prior <+: sent ∧ messages w.env = ms ++ prior) ∧ (crashAfterPublish = true ∨ ¬broker.Healthy)

theorem relayRows_alone (hbroker : broker.Performs t) (crashAfterPublish : Bool) (hids : (rows.map Prod.fst).Nodup)
    (hrows : ∀ id row, (id, row) ∈ rows → current (.outboxMessage id) = some row ∧ fitsInt4 (row.attempts + 1) = true)
    (stats : RelayStats) :
    Prog.Solo (stepAlone broker .database t) (fun w => Session t base seq current w ∧ messages w.env = ms)
      (relayRows crashAfterPublish rows stats)
      (fun result w => result = ⟨stats.selected, stats.published + rows.length, stats.markedPublished + rows.length⟩ ∧
      (∃ new, RowsPublished rows current new ∧ Session t base seq new w) ∧ messages w.env = ms ++ payloads rows)
      fun _ => BatchFailed broker crashAfterPublish (fun w => ∃ new, Session t base seq new w) ms (payloads rows) := by
  induction rows generalizing current ms stats with
  | nil =>
    refine .pure fun w h => ⟨rfl, ⟨current, ⟨fun _ _ h => (List.not_mem_nil h).elim, fun _ _ => rfl⟩, h.1⟩, ?_⟩
    simpa [payloads] using h.2
  | cons entry rows ih =>
    obtain ⟨id, row⟩ := entry
    obtain ⟨hid, hids⟩ := List.nodup_cons.mp hids
    obtain ⟨hrow, hvalid⟩ := hrows id row List.mem_cons_self
    have hne : ∀ id' row', (id', row') ∈ rows → id' ≠ id := by
      rintro id' row' hmem rfl
      exact hid (List.mem_map.mpr ⟨_, hmem, rfl⟩)
    refine .bind ((update_alone hrow hvalid).conseq (fun _ h => h) (fun _ _ h => h) fun _ _ h => h.elim) fun _ => ?_
    refine .bind ((publishOrderPlaced_alone session_ofDatabase hbroker _).conseq (fun _ h => h) (fun _ _ h => h) ?_)
      fun _ => ?_
    · rintro _ w ⟨hw, ⟨prior, hprior, hms⟩, hsick⟩
      exact ⟨⟨_, hw⟩, ⟨prior, hprior.trans (List.prefix_append [_] (payloads rows)), hms⟩, .inr hsick⟩
    cases crashAfterPublish with
    | true =>
      exact .throw fun w h => ⟨⟨_, h.1⟩, ⟨_, List.prefix_append [_] (payloads rows), h.2⟩, .inl rfl⟩
    | false =>
      refine .bind ((external_alone session_ofDatabase hbroker .clock).conseq (fun _ h => h) (fun _ _ h => h) ?_)
        fun now => ?_
      · rintro _ w ⟨hw, ⟨prior, hprior, hms⟩, hsick⟩
        obtain rfl := List.prefix_nil.mp hprior
        exact ⟨⟨_, hw⟩, ⟨_, List.prefix_append [_] (payloads rows), by simpa using hms⟩, .inr hsick⟩
      refine .bind ((update_alone (f := fun row => { row with publishedAt := some now })
        (Function.update_self ..) hvalid).conseq (fun _ h => ⟨h.1, by simpa [sentBy] using h.2⟩) (fun _ _ h => h)
          fun _ _ h => h.elim) fun _ => ?_
      refine (ih hids (fun id' row' hmem => ?_) _).conseq (fun _ h => h) ?_ ?_
      · have hkey : Key.outboxMessage id' ≠ .outboxMessage id := by simpa using hne id' row' hmem
        rw [Function.update_of_ne hkey, Function.update_of_ne hkey]
        exact hrows id' row' (List.mem_cons_of_mem _ hmem)
      · rintro _ w ⟨rfl, ⟨new, hnew, hw⟩, hms⟩
        refine ⟨by simp; omega, ⟨new, ⟨fun id' row' hmem => ?_, fun k hk => ?_⟩, hw⟩, by simpa [payloads] using hms⟩
        · rcases List.mem_cons.mp hmem with heq | hmem
          · cases heq
            refine ⟨now, (hnew.others _ fun id' row' hmem heq => ?_).trans (Function.update_self ..)⟩
            exact hne id' row' hmem (Key.outboxMessage.inj heq).symm
          · exact hnew.published id' row' hmem
        · have hkey : k ≠ .outboxMessage id := hk id row List.mem_cons_self
          rw [hnew.others k fun id' row' hmem => hk id' row' (List.mem_cons_of_mem _ hmem), Function.update_of_ne hkey,
            Function.update_of_ne hkey]
      · rintro _ w ⟨hw, ⟨prior, hprior, hms⟩, hcause⟩
        refine ⟨hw, ⟨_, List.cons_prefix_cons.mpr ⟨rfl, hprior⟩, ?_⟩, hcause⟩
        simpa using hms

def RelayOptions.batch (options : RelayOptions) (queue : List (ℕ × OutboxMessageRow)) : List (ℕ × OutboxMessageRow) :=
  queue.take (options.limit.getD 0)

/-- No row of the queue has been attempted so often that the count no longer fits its column. -/
def Attemptable (queue : List (ℕ × OutboxMessageRow)) : Prop :=
  ∀ id row, (id, row) ∈ queue → fitsInt4 (row.attempts + 1) = true

omit [DecidableEq T] in
theorem lockUnpublished_onDatabase (ids : List ℕ) (n : ℕ) :
    (lockUnpublished ids n : ShopCall T (List (ℕ × OutboxMessageRow))).Uses OnDatabase := by
  induction ids generalizing n with
  | nil => trivial
  | cons id ids ih =>
    cases n with
    | zero => trivial
    | succ n =>
      refine .bind (.perform (onDatabase_sql _)) fun locked => ?_
      split
      · exact ih (n + 1)
      · exact .bind (ih n) fun _ => trivial

theorem commit_alone {C : Failure → ShopWorld T → Prop} : Prog.Solo (stepAlone broker .database t)
    (fun w => Session t base seq current w ∧ messages w.env = ms) commit
      (fun _ w => Free current seq w ∧ messages w.env = ms) C :=
  (solo_messages (.perform (onDatabase_sql _)) (commit_solo (C := fun _ _ => False))).conseq (fun _ h => h)
    (fun _ _ h => h) fun _ _ h => h.1.elim

theorem rollback_alone {C : Failure → ShopWorld T → Prop} : Prog.Solo (stepAlone broker .database t)
    (fun w => Session t base seq current w ∧ messages w.env = ms) rollback
      (fun _ w => Free base seq w ∧ messages w.env = ms) C :=
  (solo_messages (.perform (onDatabase_sql _)) (rollback_solo (C := fun _ _ => False))).conseq (fun _ h => h)
    (fun _ _ h => h) fun _ _ h => h.1.elim

structure RelayOptions.Succeeds (options : RelayOptions) (broker : Broker T) : Prop where
  limit : options.limit ≠ none
  crash : options.crashAfterPublish = false
  healthy : broker.Healthy

theorem relayOutboxBatch_alone (hbroker : broker.Performs t) (options : RelayOptions)
    (hvalid : Attemptable (View.queue ⟨base, seq⟩)) :
    Prog.Solo (stepAlone broker .database t) (fun w => Free base seq w ∧ messages w.env = ms) (relayOutboxBatch options)
      (fun stats w => stats.published = (options.batch (View.queue ⟨base, seq⟩)).length ∧
      (∃ new, RowsPublished (options.batch (View.queue ⟨base, seq⟩)) base new ∧ Free new seq w) ∧
      messages w.env = ms ++ payloads (options.batch (View.queue ⟨base, seq⟩)))
      fun _ w => Free base seq w ∧ (∃ prior, prior <+: payloads (options.batch (View.queue ⟨base, seq⟩)) ∧
      messages w.env = ms ++ prior) ∧ ¬options.Succeeds broker := by
  refine .bind ((solo_messages (.perform (onDatabase_sql _)) (begin_solo (C := fun _ _ => False))).conseq
    (fun _ h => h) (fun _ _ h => h) fun _ _ h => h.1.elim) fun _ => ?_
  refine .handle (Y := fun _ w => (∃ new, Session t base seq new w) ∧
    (∃ prior, prior <+: payloads (options.batch (View.queue ⟨base, seq⟩)) ∧ messages w.env = ms ++ prior) ∧
    ¬options.Succeeds broker) ?_ ?_
  · cases hlimit : options.limit with
    | none =>
      have hselect : (selectUnpublished (options.batchSize.getD defaultBatchSize) : ShopCall T _) =
          throw .database := by
        rw [selectUnpublished, ← RelayOptions.limit, hlimit]
      rw [hselect]
      refine .throw fun w h => ⟨⟨base, h.1⟩, ⟨[], List.nil_prefix, by simpa using h.2⟩, fun hs => hs.limit hlimit⟩
    | some n =>
      have hbatch : options.batch (View.queue ⟨base, seq⟩) = (View.queue ⟨base, seq⟩).take n := by
        simp [RelayOptions.batch, hlimit]
      rw [hbatch]
      have huses : (selectUnpublished (options.batchSize.getD defaultBatchSize) : ShopCall T _).Uses OnDatabase := by
        rw [selectUnpublished, ← RelayOptions.limit, hlimit]
        exact .bind (.perform (onDatabase_sql _)) fun _ => lockUnpublished_onDatabase _ _
      refine .bind_eq (a := (View.queue ⟨base, seq⟩).take n)
        (S := fun w => Session t base seq base w ∧ messages w.env = ms)
        ((solo_messages huses (selectUnpublished_alone (C := fun _ _ => False) hlimit)).conseq (fun _ h => h)
          (fun _ _ h => ⟨h.1.1, h.1.2, h.2⟩) fun _ _ h => h.1.elim) ?_
      have hnodup : (((View.queue ⟨base, seq⟩).take n).map Prod.fst).Nodup :=
        queue_ids_nodup.sublist ((List.take_sublist _ _).map _)
      refine .bind ((relayRows_alone hbroker options.crashAfterPublish hnodup (fun id row hmem => ?_) _).conseq
        (fun _ h => h) (fun _ _ h => h) ?_) fun stats => ?_
      · have hqueue := List.mem_of_mem_take hmem
        exact ⟨(mem_queue.mp hqueue).2.1, hvalid id row hqueue⟩
      · rintro _ w ⟨hw, hprior, hcause⟩
        refine ⟨hw, hprior, fun hs => ?_⟩
        rcases hcause with hcrash | hsick
        · exact absurd hs.crash (by simp [hcrash])
        · exact hsick hs.healthy
      · rintro w ⟨rfl, ⟨new, hnew, hw⟩, hms⟩
        refine Prog.Solo.bind commit_alone (fun _ => .pure fun w h => ?_) w ⟨hw, hms⟩
        exact ⟨by simp, ⟨new, hnew, h.1⟩, h.2⟩
  · rintro error w ⟨⟨new, hw⟩, ⟨prior, hprior, hms⟩, hcause⟩
    refine Prog.Solo.bind rollback_alone (fun _ => .throw fun w h => ?_) w ⟨hw, hms⟩
    exact ⟨h.1, ⟨prior, hprior, h.2⟩, hcause⟩

end Batch

section Abstract

def publishedCount : Except Failure RelayStats → ℕ
  | .ok stats => stats.published
  | .error _ => 0

/-- What one run of a relay is for: it takes rows off the front of the queue and sends them, or it fails
and has sent what comes first. -/
inductive QueueStep (queue : List (ℕ × OutboxMessageRow)) :
    Except Failure RelayStats → List OrderPlacedMessage → List (ℕ × OutboxMessageRow) → Prop
  | relayed {stats k} (h : stats.published = (queue.take k).length) :
      QueueStep queue (.ok stats) (payloads (queue.take k)) (queue.drop k)
  | failed {error prior} (h : prior <+: payloads queue) : QueueStep queue (.error error) prior queue

inductive QueueRun : List (ℕ × OutboxMessageRow) → List (Except Failure RelayStats) → List OrderPlacedMessage →
    List (ℕ × OutboxMessageRow) → Prop
  | nil {queue} : QueueRun queue [] [] queue
  | cons {queue next last result results sent sent'} (h : QueueStep queue result sent next)
      (hrest : QueueRun next results sent' last) : QueueRun queue (result :: results) (sent ++ sent') last

variable {queue next last : List (ℕ × OutboxMessageRow)} {result : Except Failure RelayStats}
  {results : List (Except Failure RelayStats)} {sent : List OrderPlacedMessage}

omit [DecidableEq T]

theorem QueueStep.drop (h : QueueStep queue result sent next) : next = queue.drop (publishedCount result) := by
  cases h with
  | @relayed stats k h =>
    have hk : (queue.take k).length = min k queue.length := List.length_take
    rw [publishedCount, h, hk]
    rcases Nat.le_total k queue.length with hle | hle
    · rw [Nat.min_eq_left hle]
    · rw [Nat.min_eq_right hle, List.drop_of_length_le hle, List.drop_length]
  | failed => rfl

theorem QueueStep.length (h : QueueStep queue result sent next) :
    publishedCount result + next.length = queue.length := by
  cases h with
  | relayed h =>
    simp only [publishedCount, h, List.length_take, List.length_drop]
    omega
  | failed => simp [publishedCount]

theorem QueueStep.attemptable (h : QueueStep queue result sent next) (hqueue : Attemptable queue) :
    Attemptable next := by
  intro id row hmem
  rw [h.drop] at hmem
  exact hqueue id row (List.mem_of_mem_drop hmem)

theorem QueueStep.sends (h : QueueStep queue result sent next) :
    payloads (queue.take (publishedCount result)) <+: sent ∧ sent <+: payloads queue ∧
      ((∃ stats, result = .ok stats) → sent = payloads (queue.take (publishedCount result))) := by
  cases h with
  | @relayed stats k h =>
    have hk : queue.take (publishedCount (.ok stats)) = queue.take k := by
      rw [publishedCount, h, List.length_take, ← List.take_take, List.take_length]
    rw [hk]
    exact ⟨List.prefix_rfl, (List.take_prefix _ _).map _, fun _ => rfl⟩
  | failed h => exact ⟨List.nil_prefix, h, fun ⟨_, h⟩ => by cases h⟩

theorem payloads_append {rows rows' : List (ℕ × OutboxMessageRow)} :
    payloads (rows ++ rows') = payloads rows ++ payloads rows' := List.map_append

theorem QueueRun.sends (h : QueueRun queue results sent last) :
    last = queue.drop (results.map publishedCount).sum ∧
      (payloads (queue.take (results.map publishedCount).sum)).Sublist sent ∧ (∀ m ∈ sent, m ∈ payloads queue) ∧
      ((∀ result ∈ results, ∃ stats, result = .ok stats) →
      sent = payloads (queue.take (results.map publishedCount).sum)) := by
  induction h with
  | nil => exact ⟨rfl, .refl _, fun _ h => (List.not_mem_nil h).elim, fun _ => rfl⟩
  | @cons queue next last result results sent sent' hstep hrest ih =>
    obtain ⟨hlast, hsublist, hmem, hall⟩ := ih
    obtain ⟨hfirst, hprefix, hok⟩ := hstep.sends
    obtain rfl := hstep.drop
    have htake : queue.take (publishedCount result + (results.map publishedCount).sum) =
        queue.take (publishedCount result) ++
          (queue.drop (publishedCount result)).take (results.map publishedCount).sum :=
      List.take_add ..
    simp only [List.map_cons, List.sum_cons, htake, payloads_append]
    refine ⟨by rw [hlast, List.drop_drop], hfirst.sublist.append hsublist, fun m hm => ?_, fun hresults => ?_⟩
    · rcases List.mem_append.mp hm with hm | hm
      · exact hprefix.subset hm
      · obtain ⟨row, hrow, rfl⟩ := List.mem_map.mp (hmem m hm)
        exact List.mem_map_of_mem (List.mem_of_mem_drop hrow)
    · rw [hok (hresults _ List.mem_cons_self), hall fun r hr => hresults r (List.mem_cons_of_mem _ hr)]

end Abstract

section Runs

structure RelayRun (T : Type) where
  options : RelayOptions
  broker : Broker T

def RelayRun.exec (t : T) (run : RelayRun T) (w : ShopWorld T) : Except Failure RelayStats × ShopWorld T :=
  (relayOutboxBatch run.options).run (stepAlone run.broker .database t) w

def relayRuns (t : T) : List (RelayRun T) → ShopWorld T → List (Except Failure RelayStats) × ShopWorld T
  | [], w => ([], w)
  | run :: runs, w =>
    let (result, w') := run.exec t w
    let (results, w'') := relayRuns t runs w'
    (result :: results, w'')

def waiting (w : ShopWorld T) : List (ℕ × OutboxMessageRow) := View.queue ⟨w.db.committed, w.db.seq⟩

omit [DecidableEq T] in
theorem queue_published {k : ℕ} {old new : Tables T}
    (h : RowsPublished ((View.queue ⟨old, seq⟩).take k) old new) :
    View.queue ⟨new, seq⟩ = (View.queue ⟨old, seq⟩).drop k := by
  refine Relational.eq_of_strictly_ordered Earlier.asymm queue_ordered
    (queue_ordered.sublist (List.drop_sublist ..)) ?_
  have hids : ((View.queue (⟨old, seq⟩ : View T)).map Prod.fst).Nodup := queue_ids_nodup
  rw [← List.take_append_drop k (View.queue ⟨old, seq⟩), List.map_append, List.nodup_append] at hids
  rintro ⟨id, row⟩
  constructor
  · intro hmem
    obtain ⟨hid, hrow, hnone⟩ := mem_queue.mp hmem
    have hnot : ∀ id' row', (id', row') ∈ (View.queue ⟨old, seq⟩).take k →
        Key.outboxMessage id ≠ .outboxMessage id' := by
      rintro id' row' hmem' heq
      cases heq
      obtain ⟨now, hpublished⟩ := h.published id row' hmem'
      cases hrow.symm.trans hpublished
      cases hnone
    have hqueue : (id, row) ∈ View.queue ⟨old, seq⟩ :=
      mem_queue.mpr ⟨hid, (h.others _ hnot).symm.trans hrow, hnone⟩
    rw [← List.take_append_drop k (View.queue ⟨old, seq⟩)] at hqueue
    exact (List.mem_append.mp hqueue).resolve_left fun htake => hnot id row htake rfl
  · intro hmem
    obtain ⟨hid, hrow, hnone⟩ := mem_queue.mp (List.mem_of_mem_drop hmem)
    refine mem_queue.mpr ⟨hid, (h.others _ ?_).trans hrow, hnone⟩
    rintro id' row' hmem' heq
    cases heq
    exact hids.2.2 id (List.mem_map_of_mem hmem') id (List.mem_map_of_mem hmem) rfl

variable {w : ShopWorld T}

theorem RelayRun.exec_spec (run : RelayRun T) (hbroker : run.broker.Performs t) (hw : ∀ k, w.db.held k = none)
    (hvalid : Attemptable (waiting w)) :
    (∀ k, (run.exec t w).2.db.held k = none) ∧
      (∃ sent, messages (run.exec t w).2.env = messages w.env ++ sent ∧
      QueueStep (waiting w) (run.exec t w).1 sent (waiting (run.exec t w).2)) ∧
      (run.options.Succeeds run.broker →
      publishedCount (run.exec t w).1 = min (run.options.limit.getD 0) (waiting w).length) := by
  have hends := relayOutboxBatch_alone hbroker run.options hvalid w ⟨⟨rfl, rfl, hw⟩, rfl⟩
  unfold RelayRun.exec
  generalize (relayOutboxBatch run.options).run (stepAlone run.broker .database t) w = x at hends ⊢
  obtain ⟨r, w'⟩ := x
  cases r with
  | ok stats =>
    obtain ⟨hstats, ⟨new, hnew, hfree⟩, hms⟩ := hends
    have hqueue : waiting w' = (waiting w).drop (run.options.limit.getD 0) := by
      unfold waiting
      rw [hfree.committed, hfree.seq]
      exact queue_published hnew
    refine ⟨hfree.held, ⟨_, hms, ?_⟩, fun _ => hstats.trans List.length_take⟩
    rw [hqueue]
    exact .relayed hstats
  | error error =>
    obtain ⟨hfree, ⟨prior, hprior, hms⟩, hcause⟩ := hends
    have hqueue : waiting w' = waiting w := by
      unfold waiting
      rw [hfree.committed, hfree.seq]
    refine ⟨hfree.held, ⟨prior, hms, ?_⟩, fun hs => absurd hs hcause⟩
    rw [hqueue]
    exact .failed (hprior.trans ((List.take_prefix _ _).map _))

theorem relayRuns_spec (runs : List (RelayRun T)) (hbrokers : ∀ run ∈ runs, run.broker.Performs t)
    (hw : ∀ k, w.db.held k = none) (hvalid : Attemptable (waiting w)) :
    (∃ sent, messages (relayRuns t runs w).2.env = messages w.env ++ sent ∧
      QueueRun (waiting w) (relayRuns t runs w).1 sent (waiting (relayRuns t runs w).2)) ∧
      ∀ sure : List (RelayRun T), sure.Sublist runs → (∀ run ∈ sure, run.options.Succeeds run.broker) →
      min (waiting w).length (sure.map fun run => run.options.limit.getD 0).sum ≤
    ((relayRuns t runs w).1.map publishedCount).sum := by
  induction runs generalizing w with
  | nil =>
    refine ⟨⟨[], (List.append_nil _).symm, .nil⟩, fun sure hsure _ => ?_⟩
    rw [List.sublist_nil.mp hsure]
    simp
  | cons run runs ih =>
    obtain ⟨hheld, ⟨sent, hms, hstep⟩, hsucceeds⟩ := run.exec_spec (hbrokers run List.mem_cons_self) hw hvalid
    obtain ⟨⟨sent', hms', hrun⟩, hsure⟩ := ih (w := (run.exec t w).2)
      (fun run hrun => hbrokers run (List.mem_cons_of_mem _ hrun)) hheld (hstep.attemptable hvalid)
    refine ⟨⟨sent ++ sent', ?_, .cons hstep hrun⟩, fun sure hsublist hall => ?_⟩
    · simp only [relayRuns]
      rw [hms', hms, List.append_assoc]
    · have hlength := hstep.length
      simp only [relayRuns, List.map_cons, List.sum_cons]
      cases hsublist with
      | cons _ hsublist =>
        have := hsure sure hsublist hall
        omega
      | @cons_cons sure _ _ hsublist =>
        have hfirst := hsucceeds (hall run List.mem_cons_self)
        have := hsure sure hsublist fun run hrun => hall run (List.mem_cons_of_mem _ hrun)
        simp only [List.map_cons, List.sum_cons]
        omega

/-- Relays that run one after the other, whatever fails, drain the outbox in the order of its rows, each row
sent before it leaves, and none more than once if no run fails. -/
theorem relays_drain_in_order (runs : List (RelayRun T)) (hbrokers : ∀ run ∈ runs, run.broker.Performs t)
    (hw : w.db.Quiescent) (hvalid : Attemptable (waiting w)) :
    ∃ n sent, waiting (relayRuns t runs w).2 = (waiting w).drop n ∧
      (∀ sure : List (RelayRun T), sure.Sublist runs → (∀ run ∈ sure, run.options.Succeeds run.broker) →
      min (waiting w).length (sure.map fun run => run.options.limit.getD 0).sum ≤ n) ∧
      messages (relayRuns t runs w).2.env = messages w.env ++ sent ∧
      (payloads ((waiting w).take n)).Sublist sent ∧ (∀ m ∈ sent, m ∈ payloads (waiting w)) ∧
      ((∀ result ∈ (relayRuns t runs w).1, ∃ stats, result = .ok stats) → sent = payloads ((waiting w).take n)) := by
  obtain ⟨⟨sent, hms, hrun⟩, hsure⟩ := relayRuns_spec runs hbrokers hw.held hvalid
  obtain ⟨hlast, hsends⟩ := hrun.sends
  exact ⟨_, sent, hlast, hsure, hms, hsends⟩

end Runs

-- loses its connections once it has been sent a message
def flakyBroker : Broker ℕ
  | .connectToBroker, log => (if log.isEmpty then .ok () else .error .broker, log)
  | o, log => brokerAt 0 true 10 o log

def waitingRow (orderId createdAt : ℕ) : OutboxMessageRow :=
  ⟨orderPlacedEventId orderId, "order", Nat.repr orderId, orderPlacedType,
    toOrderPlacedEvent ⟨orderPlacedEventId orderId, orderId, 1, [⟨.integer 1, .integer 1⟩], 100⟩ createdAt, createdAt,
      none, 0⟩

-- the row with the greater id was created first
def twoWaiting : ShopWorld ℕ where
  db := { (ShopWorld.seeded (T := ℕ)).db with
    committed := fun
      | .outboxMessage 1 => some (waitingRow 1 6)
      | .outboxMessage 2 => some (waitingRow 2 5)
      | k => (ShopWorld.seeded (T := ℕ)).db.committed k
    seq := fun
      | .outboxMessages => 3
      | _ => 1 }
  env := []

def flakyRuns : List (RelayRun ℕ) := [⟨⟨none, false⟩, flakyBroker⟩, ⟨⟨none, false⟩, brokerAt 0 true 10⟩]

theorem relays_drain_in_order_flaky : ∃ n sent, 2 ≤ n ∧
    waiting (relayRuns 0 flakyRuns twoWaiting).2 = (waiting twoWaiting).drop n ∧
    messages (relayRuns 0 flakyRuns twoWaiting).2.env = sent ∧
    (payloads ((waiting twoWaiting).take n)).Sublist sent := by
  have hbrokers : ∀ run ∈ flakyRuns, run.broker.Performs 0 := by
    intro run hrun o log
    simp only [flakyRuns, List.mem_cons, List.not_mem_nil, or_false] at hrun
    rcases hrun with rfl | rfl
    · cases o with
      | connectToBroker =>
        cases log with
        | nil => exact .connectToBroker
        | cons _ _ => exact .failed nofun
      | clock => exact .clock 10
      | publish m => exact .publish
      | waitForConfirms => exact .waitForConfirms
      | close => exact .close
    · exact brokerAt_performs _ _ o log
  have hvalid : Attemptable (waiting twoWaiting) := by
    intro id row hmem
    obtain ⟨-, hrow, -⟩ := mem_queue.mp hmem
    have hattempts : row.attempts = 0 := by
      change twoWaiting.db.committed (.outboxMessage id) = some row at hrow
      match id with
      | 0 | _ + 3 => cases hrow
      | 1 | 2 => cases hrow; rfl
    rw [hattempts]
    decide
  obtain ⟨n, sent, hqueue, hsure, hms, hsublist, -⟩ :=
    relays_drain_in_order flakyRuns hbrokers ⟨fun _ => rfl, fun _ => rfl⟩ hvalid
  have htwo := hsure [⟨⟨none, false⟩, brokerAt 0 true 10⟩] (.cons _ (.refl _)) fun run hrun => by
    rw [List.mem_singleton.mp hrun]
    refine ⟨nofun, rfl, fun o log => ?_⟩
    cases o <;> exact ⟨_, rfl⟩
  have hlength : (waiting twoWaiting).length = 2 := by decide
  rw [hlength] at htwo
  exact ⟨n, sent, htwo, hqueue, hms, hsublist⟩

end Marketplace
