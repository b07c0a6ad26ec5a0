import Mathlib.Data.Prod.Lex
import Marketplace.Checkout
import Marketplace.Orders
import Marketplace.ReadCommitted.WaitFor

namespace Marketplace

open Concurrent ReadCommitted

variable {T : Type}

inductive PlacementCall
  | create (input : CreateOrderInput) (idempotencyKey : String)
  | checkout (input : CheckoutInput)

def PlacementCall.run (self : T) : PlacementCall → ShopCall T Unit
  | .create input idempotencyKey => do
    let _ ← Marketplace.create self input idempotencyKey
    pure ()
  | .checkout input => do
    let _ ← Marketplace.checkout self input
    pure ()

-- the UPDATEs change no key column; a taken Idempotency-Key is locked FOR UPDATE
def placementLocks : LockScheme Key (Row T) where
  mode
    | .idempotencyKey _ => .update
    | _ => .noKeyUpdate
  references := Row.references

def lockRank : Key → ℕ ×ₗ ℕ
  | .idempotencyKey _ => toLex (0, 0)
  | .product _ => toLex (1, 0)
  | .user _ => toLex (2, 0)
  | .order _ => toLex (3, 0)
  | .orderItem id => toLex (4, id)
  | .postProcessingTask _ => toLex (5, 0)
  | .outboxMessage _ => toLex (6, 0)
  | .outboxEventId _ => toLex (7, 0)
  | _ => toLex (8, 0)

theorem placementLocks_unreferenced (k : Key) (row : Row T k) :
    ∀ j ∈ placementLocks.references k row, (placementLocks (T := T).mode j).conflicts .keyShare = false := by
  intro j hj
  cases k <;> simp only [placementLocks, Row.references, List.mem_cons, List.not_mem_nil, or_false, List.mem_map] at hj
  case order => subst hj; rfl
  case orderItem => rcases hj with rfl | rfl <;> rfl
  case postProcessingTask => subst hj; rfl
  case idempotencyKey =>
    obtain ⟨id, -, rfl⟩ := hj
    rfl
  case refreshToken => subst hj; rfl

structure Locked (own : Key → Prop) (r : ℕ ×ₗ ℕ) (z : Phase Serial Key Unit) : Prop where
  own : ∀ k, own k → z.held k
  below : ∀ k, z.held k → lockRank k < r

namespace Locked

variable {own : Key → Prop} {r s : ℕ ×ₗ ℕ} {z : Phase Serial Key Unit} {k : Key}

theorem start : Locked (fun _ => False) r .start := ⟨fun _ hk => hk.elim, fun _ hk => hk.elim⟩

theorem mono (h : Locked own r z) (hr : r ≤ s) : Locked own s z :=
  ⟨h.own, fun k hk => (h.below k hk).trans_le hr⟩

theorem take (h : Locked own r z) (hr : r ≤ s) (hk : lockRank k < s) : Locked own s (z.take k ()) := by
  refine ⟨fun j hj => .inr (h.own j hj), ?_⟩
  rintro j (rfl | hj)
  · exact hk
  · exact (h.below j hj).trans_le hr

theorem insert (h : Locked own r z) (hr : r ≤ s) (hk : lockRank k < s) : Locked own s (z.insert k ()) :=
  ⟨(h.take hr hk).own, (h.take hr hk).below⟩

theorem draw (h : Locked own r z) {ids : Serial → ℕ → Option Key} (q : Serial) (n : ℕ) :
    Locked own r (z.draw ids q n) :=
  ⟨h.own, h.below⟩

theorem inOrder (h : Locked own r z) (hk : r ≤ lockRank k) {a : Action Serial Key (Row T) ShopOp}
    (ha : a.requests = some k) : InOrder lockRank z a := by
  intro j hj
  rw [ha] at hj
  cases hj
  exact .inr fun i hi => (h.below i hi).trans_le hk

end Locked

section Statements

abbrev placementPolicy (T : Type) : Policy Serial Key (Row T) ShopOp Unit := .of (fun _ _ => ()) (InOrder lockRank)

abbrev Ordered {α : Type} (P : Phase Serial Key Unit → Prop) (p : ShopCall T α) (G : α → Phase Serial Key Unit → Prop) :
    Prop :=
  Obeys (placementPolicy T) P p G

variable {own : Key → Prop} {r s : ℕ ×ₗ ℕ} {P : Phase Serial Key Unit → Prop}

theorem statement_inOrder {z : Phase Serial Key Unit} : (placementPolicy T).Permits z (.sql .statement) := by
  intro k hk
  cases hk

theorem nextval_inOrder {z : Phase Serial Key Unit} {q : Serial} :
    (placementPolicy T).Permits z (.sql (.nextval q)) := by
  intro k hk
  cases hk

theorem update_ordered {k : Key} {p : Row T k → Bool} {f : Row T k → Row T k} (hr : r ≤ lockRank k)
    (hk : lockRank k < s) : Ordered (Locked own r) (update k p f) fun _ => Locked own s := by
  have hle : r ≤ s := hr.trans hk.le
  apply updateWhere_obeys (f := f) (fun _ => statement_inOrder) (fun _ _ h => ⟨h.own, h.below⟩) fun _ => rfl
  · exact fun z h => h.inOrder hr rfl
  · exact fun _ _ _ => nofun
  · exact fun z h => h.mono hle
  · exact fun z _ h => h.take hle hk

theorem insertReturningId_ordered {q : Serial} {key : ℕ → Key} {row : (id : ℕ) → Row T (key id)}
    (hr : ∀ n, r ≤ lockRank (key n)) (hk : ∀ n, lockRank (key n) < s) :
    Ordered (Locked own r) (insertReturningId q key row) fun _ => Locked own s := by
  apply insertWithId_obeys (fun _ => statement_inOrder) (fun _ _ h => ⟨h.own, h.below⟩) fun _ => nextval_inOrder
  · exact fun z n h _ => (h.draw q n).inOrder (hr n) rfl
  · exact fun z n h _ => (h.draw q n).insert ((hr n).trans (hk n).le) (hk n)

theorem update_held_ordered {k : Key} {p : Row T k → Bool} {f : Row T k → Row T k} (hk : own k) :
    Ordered (Locked own r) (update k p f) fun _ => Locked own r := by
  have htake : ∀ z, Locked own r z → Locked own r (z.take k ()) := fun z h => h.take le_rfl (h.below k (h.own k hk))
  apply updateWhere_obeys (f := f) (fun _ => statement_inOrder) (fun _ _ h => ⟨h.own, h.below⟩) fun _ => rfl
  · intro z h j hj
    cases hj
    exact .inl (h.own k hk)
  · exact fun _ _ _ => nofun
  · exact fun _ h => h
  · exact fun z _ h => htake z h

theorem statement_ordered (hsee : ∀ z (view : View T), P z → P (z.see (fun _ _ => ()) view)) :
    Ordered P (statement : ShopCall T (View T)) fun _ => P :=
  statement_kept (fun _ => statement_inOrder) hsee

theorem external_ordered (o : ShopOp) : Ordered P (external o : ShopCall T o.Res) fun _ => P := by
  refine .perform (fun _ _ => nofun) (fun _ _ => trivial) fun z a z' hz hz' => ?_
  cases hz'
  exact hz

theorem ended_ordered {a : Action Serial Key (Row T) ShopOp} (ha : a.requests = none)
    (hkeeps : ∀ z : Phase Serial Key Unit, z.Keeps (fun (k : Key) (_ : Row T k) => ()) a) :
    Ordered P (Prog.perform a) fun _ _ => True := by
  refine .perform (fun z _ k hk => ?_) (fun z _ => hkeeps z) fun _ _ _ _ _ => trivial
  rw [ha] at hk
  cases hk

theorem commit_ordered : Ordered P (commit : ShopCall T Unit) fun _ _ => True := ended_ordered rfl fun _ => trivial

theorem rollback_ordered : Ordered P (rollback : ShopCall T Unit) fun _ _ => True := ended_ordered rfl fun _ => trivial

theorem publishOrderPlaced_ordered (message : OrderPlacedMessage) :
    Ordered P (publishOrderPlaced message : ShopCall T Unit) fun _ _ => True := by
  refine .bind (external_ordered _) fun _ => .bind (G := fun _ _ => True) ?_ fun _ => external_ordered _
  apply Obeys.handle
  · exact .bind (external_ordered _) fun _ => .perform (fun _ _ => nofun) (fun _ _ => trivial) fun _ _ _ _ _ => trivial
  · exact fun error => .bind (external_ordered _) fun _ => .throw

theorem int4Parameter_ordered {n : ℤ} : Ordered P (int4Parameter n : ShopCall T Unit) fun _ => P := by
  unfold int4Parameter
  split
  · exact .pure fun _ h => h
  · exact .throw

end Statements

section Checkout

theorem executeCheckout_ordered (self : T) (input : CheckoutInput) (quantity : ℤ) :
    Ordered (Locked (fun _ => False) (toLex (1, 0))) (executeCheckout self input quantity) fun _ _ => True := by
  refine .bind int4Parameter_ordered fun _ => .bind (update_ordered (s := toLex (2, 0)) ?_ ?_) fun updated => ?_
  · exact le_refl _
  · simp [lockRank, Prod.Lex.toLex_lt_toLex]
  cases updated with
  | none => exact .throw
  | some product =>
    refine .bind int4Parameter_ordered fun _ => .bind (update_ordered (s := toLex (3, 0)) ?_ ?_) fun charged => ?_
    · exact le_refl _
    · simp [lockRank, Prod.Lex.toLex_lt_toLex]
    cases charged with
    | none => exact .throw
    | some user =>
      refine .bind (insertReturningId_ordered (s := toLex (4, 0)) ?_ ?_) fun orderId => ?_
      · exact fun _ => le_refl _
      · exact fun _ => by simp [lockRank, Prod.Lex.toLex_lt_toLex]
      refine .bind (insertReturningId_ordered (s := toLex (5, 0)) ?_ ?_) fun _ => ?_
      · exact fun n => by simp [lockRank, Prod.Lex.toLex_le_toLex]
      · exact fun n => by simp [lockRank, Prod.Lex.toLex_lt_toLex]
      refine .bind (insertReturningId_ordered (s := toLex (6, 0)) ?_ ?_) fun _ => .pure fun _ _ => trivial
      · exact fun _ => le_refl _
      · exact fun _ => by simp [lockRank, Prod.Lex.toLex_lt_toLex]

theorem checkout_ordered (self : T) (input : CheckoutInput) :
    Ordered (Locked (fun _ => False) (toLex (0, 0))) (checkout self input) fun _ _ => True := by
  unfold checkout
  split
  · exact .throw
  split
  · exact .throw
  refine .bind (G := fun _ => Locked (fun _ => False) (toLex (0, 0))) ?_ fun _ => .bind (G := fun _ _ => True) ?_
    fun result => .bind (external_ordered _) fun _ => .bind (publishOrderPlaced_ordered _) fun _ => .pure
        fun _ _ => trivial
  · refine .perform (fun _ _ => nofun) (fun _ _ => trivial) fun z _ _ hz hz' => ?_
    cases hz'
    exact hz
  · apply Obeys.handle
    · refine .bind ((executeCheckout_ordered self input _).pre fun z h => h.mono (by decide)) fun _ =>
        .bind commit_ordered fun _ => .pure fun _ _ => trivial
    · exact fun error => .bind rollback_ordered fun _ => .throw

end Checkout

section Create

variable {own : Key → Prop} {P : Phase Serial Key Unit → Prop}

theorem selectProduct_ordered (hsee : ∀ z (view : View T), P z → P (z.see (fun _ _ => ()) view)) {activeOnly : Bool}
    {productId : JsNumber} : Ordered P (selectProduct activeOnly productId : ShopCall T ProductRow) fun _ => P := by
  unfold selectProduct
  split
  · split
    · refine .bind (statement_ordered hsee) fun view => ?_
      dsimp only
      split
      · exact .throw
      · exact .pure fun _ h => h
    · exact .throw
  · exact .throw

theorem totalAmount_ordered (hsee : ∀ z (view : View T), P z → P (z.see (fun _ _ => ()) view))
    (items : List CreateOrderItemInput) (total : ℤ) :
    Ordered P (totalAmount items total : ShopCall T ℤ) fun _ => P := by
  induction items generalizing total with
  | nil => exact .pure fun _ h => h
  | cons item items ih =>
    unfold totalAmount
    split
    · exact .throw
    · exact .bind (selectProduct_ordered hsee) fun product => ih _

/-- The order items come last, each with a greater id than those before. -/
def ItemsLocked (own : Key → Prop) (z : Phase Serial Key Unit) : Prop := Locked own (toLex (4, z.drawn .orderItems)) z

theorem insertOrderItems_ordered (orderId : ℕ) (items : List CreateOrderItemInput) :
    Ordered (ItemsLocked own) (insertOrderItems orderId items : ShopCall T Unit) fun _ => ItemsLocked own := by
  induction items with
  | nil => exact .pure fun _ h => h
  | cons item items ih =>
    refine .bind (selectProduct_ordered fun _ _ h => ⟨h.own, h.below⟩) fun product => ?_
    split
    · refine .bind (insertWithId_obeys (fun _ => statement_inOrder) (fun _ _ h => ⟨h.own, h.below⟩)
        (fun _ => nextval_inOrder) ?_ ?_) fun _ => ih
      · intro z n h hn
        have hle : toLex (4, z.drawn .orderItems) ≤ lockRank (.orderItem n) := by
          simp [lockRank, Prod.Lex.toLex_le_toLex, hn]
        exact Locked.inOrder (Locked.draw h .orderItems n) hle rfl
      · intro z n h hn
        have hle : toLex (4, z.drawn .orderItems) ≤ (toLex (4, n + 1) : ℕ ×ₗ ℕ) := by
          simp [Prod.Lex.toLex_le_toLex]
          omega
        have hlt : lockRank (.orderItem n) < toLex (4, n + 1) := by simp [lockRank, Prod.Lex.toLex_lt_toLex]
        have hdrawn : (z.draw (placementPolicy T).ids .orderItems n).drawn .orderItems = n + 1 := by simp [Phase.draw]
        unfold ItemsLocked
        exact hdrawn ▸ Locked.insert (Locked.draw h .orderItems n) hle hlt
    · exact .throw

theorem insertOrderPlacedOutbox_ordered (event : OrderPlacedPayload) :
    Ordered (Locked own (toLex (5, 0))) (insertOrderPlacedOutbox event : ShopCall T Unit) fun _ => Locked own
    (toLex (8, 0)) := by
  refine .bind (external_ordered _) fun createdAt => .bind (insertReturningId_ordered (s := toLex (7, 0)) ?_ ?_)
    fun id => ?_
  · exact fun _ => by simp [lockRank, Prod.Lex.toLex_le_toLex]
  · exact fun _ => by simp [lockRank, Prod.Lex.toLex_lt_toLex]
  apply insertOrFail_obeys
  · exact fun z h => h.inOrder le_rfl rfl
  · exact fun z h => h.insert (by simp [Prod.Lex.toLex_le_toLex]) (by simp [lockRank, Prod.Lex.toLex_lt_toLex])

theorem updateKey_ordered {s : ℕ ×ₗ ℕ} {idempotencyKey stored : String}
    (hstored : storedKey idempotencyKey = some stored) (orderId : ℕ) :
    Ordered (Locked (· = .idempotencyKey stored) s) (updateKey idempotencyKey orderId : ShopCall T Unit)
      fun _ => Locked (· = .idempotencyKey stored) s := by
  unfold updateKey
  split
  · rename_i hkept
    obtain rfl := Option.some.inj (hstored.symm.trans hkept)
    exact .bind (update_held_ordered rfl) fun _ => .pure fun _ h => h
  · exact .bind (statement_ordered fun _ _ h => ⟨h.own, h.below⟩) fun _ => .pure fun _ h => h

theorem placeOrder_ordered (self : T) (items : List CreateOrderItemInput) {idempotencyKey stored : String}
    (hstored : storedKey idempotencyKey = some stored) :
    Ordered (Locked (· = .idempotencyKey stored) (toLex (1, 0))) (placeOrder self items idempotencyKey)
      fun _ _ => True := by
  refine .bind (statement_ordered fun _ _ h => ⟨h.own, h.below⟩) fun view => ?_
  split
  · exact .throw
  refine .bind (totalAmount_ordered (fun _ _ h => ⟨h.own, h.below⟩) items 0) fun total => ?_
  refine .bind (insertReturningId_ordered (s := toLex (4, 0)) ?_ ?_) fun orderId => ?_
  · exact fun _ => by simp [lockRank, Prod.Lex.toLex_le_toLex]
  · exact fun _ => by simp [lockRank, Prod.Lex.toLex_lt_toLex]
  refine .bind ((insertOrderItems_ordered orderId items).pre fun z h => h.mono ?_) fun _ => ?_
  · simp [Prod.Lex.toLex_le_toLex]
  refine .bind (external_ordered _) fun occurredAt => .bind
    ((insertOrderPlacedOutbox_ordered _).pre fun z h => h.mono ?_) fun _ => ?_
  · simp [Prod.Lex.toLex_le_toLex]
  exact .bind (updateKey_ordered hstored orderId) fun _ => .bind commit_ordered fun _ => .pure fun _ _ => trivial

theorem findByIdWithClient_ordered (hsee : ∀ z (view : View T), P z → P (z.see (fun _ _ => ()) view)) (id : ℕ) :
    Ordered P (findByIdWithClient id : ShopCall T OrderResponse) fun _ => P := by
  refine .bind (statement_ordered hsee) fun view => ?_
  split
  · exact .throw
  · exact .bind (statement_ordered hsee) fun itemsView => .pure fun _ h => h

theorem replayOrder_ordered (idempotencyKey : String) :
    Ordered (Locked own (toLex (0, 0))) (replayOrder idempotencyKey : ShopCall T OrderResponse) fun _ _ => True := by
  refine .bind (G := fun _ => Locked own (toLex (1, 0))) ?_ fun row => ?_
  · unfold selectKeyForUpdate
    split
    · refine selectForUpdate_obeys (fun _ => statement_inOrder) (fun _ _ h => ⟨h.own, h.below⟩) ?_ ?_ ?_
      · exact fun z h => h.inOrder le_rfl rfl
      · exact fun z h => h.mono (by simp [Prod.Lex.toLex_le_toLex])
      · exact fun z _ h => h.take (by simp [Prod.Lex.toLex_le_toLex]) (by simp [lockRank, Prod.Lex.toLex_lt_toLex])
    · refine .bind (statement_ordered fun _ _ h => ⟨h.own, h.below⟩) fun _ => .pure fun z h => ?_
      exact h.mono (by simp [Prod.Lex.toLex_le_toLex])
  split
  · refine .bind (findByIdWithClient_ordered (fun _ _ h => ⟨h.own, h.below⟩) _) fun response => ?_
    exact .bind commit_ordered fun _ => .pure fun _ _ => trivial
  · exact .throw

theorem create_ordered (self : T) (input : CreateOrderInput) (idempotencyKey : String) :
    Ordered (Locked (fun _ => False) (toLex (0, 0))) (create self input idempotencyKey) fun _ _ => True := by
  unfold create
  split
  · exact .throw
  · exact .throw
  split
  · exact .throw
  apply Obeys.handle
  · refine .bind (G := fun _ => Locked (fun _ => False) (toLex (0, 0))) ?_ fun _ => ?_
    · refine .perform (fun _ _ => nofun) (fun _ _ => trivial) fun z _ _ hz hz' => ?_
      cases hz'
      exact hz
    unfold insertKey
    split
    · exact Obeys.throw (e := Failure.database)
    rename_i stored hstored
    refine .bind (G := fun reserved z =>
      if reserved then Locked (· = .idempotencyKey stored) (toLex (1, 0)) z
      else Locked (fun _ => False) (toLex (0, 0)) z)
      (insertOrSkip_obeys (fun _ => statement_inOrder) (fun _ _ h => ⟨h.own, h.below⟩) ?_ ?_ ?_) fun reserved => ?_
    · exact fun z h => h.inOrder le_rfl rfl
    · intro z h
      have hinsert := h.insert (s := toLex (1, 0)) (k := .idempotencyKey stored)
        (by simp [Prod.Lex.toLex_le_toLex]) (by simp [lockRank, Prod.Lex.toLex_lt_toLex])
      refine ⟨?_, hinsert.below⟩
      rintro _ rfl
      exact .inl rfl
    · exact fun z h => h
    · cases reserved with
      | true => exact placeOrder_ordered self _ hstored
      | false => exact replayOrder_ordered idempotencyKey
  · refine fun error => .bind (G := fun _ _ => True) (.handle rollback_ordered fun _ => ?_) fun _ => .throw
    exact .pure fun _ _ => trivial

end Create

theorem PlacementCall.run_ordered (self : T) (call : PlacementCall) :
    Ordered (Locked (fun _ => False) (toLex (0, 0))) (call.run self) fun _ _ => True := by
  cases call with
  | create input idempotencyKey =>
    exact .bind (create_ordered self input idempotencyKey) fun _ => .pure fun _ _ => trivial
  | checkout input => exact .bind (checkout_ordered self input) fun _ => .pure fun _ _ => trivial

variable [DecidableEq T]

theorem placements_never_deadlock (calls : T → PlacementCall) {w : ShopWorld T} (hw : w.db.Quiescent)
    {c : ShopConfig T Unit} (h : (ShopMachine T).Reachable (.start w fun t => (calls t).run t) c) :
    Acyclic (WaitsFor placementLocks c) :=
  acyclic_of_inOrder hw placementLocks_unreferenced (fun t => (calls t).run_ordered t _ .start) h

-- calls 0 and 1 buy the same product, calls 2 and 3 send the same Idempotency-Key
def rivalCalls : ℕ → PlacementCall
  | 0 | 1 => .checkout ⟨1, 1, .integer 3⟩
  | _ => .create ⟨some [⟨.integer 1, .integer 2⟩]⟩ "key"

def rivalSchedule : List (ℕ × Option (DatabaseMove ShopMove)) :=
  List.replicate 4 (0, some .go) ++ List.replicate 2 (1, some .go) ++ List.replicate 3 (2, some .go) ++
    List.replicate 2 (3, some .go)

theorem placements_never_deadlock_rivals : ∃ c : ShopConfig ℕ Unit,
    (ShopMachine ℕ).Reachable (.start .seeded fun t => (rivalCalls t).run t) c ∧
      (WaitsFor placementLocks c 1 0 ∧ WaitsFor placementLocks c 3 2) ∧ Acyclic (WaitsFor placementLocks c) := by
  have hrun : ∃ c : ShopConfig ℕ Unit, (ShopMachine ℕ).Reachable (.start .seeded fun t => (rivalCalls t).run t) c ∧
      WaitsFor placementLocks c 1 0 ∧ WaitsFor placementLocks c 3 2 := by
    apply exists_reachable (S := withDatabaseMoves shopMoves .database) rivalSchedule
    refine ⟨_, rfl, ?_, ?_⟩
    · exact .row rfl rfl rfl ⟨_, rfl⟩
    · exact .row rfl rfl rfl ⟨_, rfl⟩
  obtain ⟨c, hc, hwaits⟩ := hrun
  exact ⟨c, hc, hwaits, placements_never_deadlock rivalCalls ⟨fun _ => rfl, fun _ => rfl⟩ hc⟩

end Marketplace
