import Marketplace.OrderReplay
import Marketplace.ReadCommitted.Session

namespace Marketplace

open Concurrent ReadCommitted

inductive ReadBackCall
  | create (input : CreateOrderInput) (idempotencyKey : String)
  | findById (id : ℕ)
  | checkout (input : CheckoutInput)
  | relayOutboxBatch (options : RelayOptions)

variable {T : Type}

def ReadBackCall.run (self : T) : ReadBackCall → ShopCall T (Option OrderResponse)
  | .create input idempotencyKey => do
    let response ← Marketplace.create self input idempotencyKey
    pure (some response)
  | .findById id => do
    let response ← Marketplace.findById id
    pure (some response)
  | .checkout input => do
    let _ ← Marketplace.checkout self input
    pure none
  | .relayOutboxBatch options => do
    let _ ← Marketplace.relayOutboxBatch options
    pure none

/-- Whoever reads the order of this response finds the response. -/
structure ReadsAs (tables : Tables T) (response : OrderResponse) : Prop where
  order : ∃ order, tables (.order response.id) = some order ∧ order.totalAmount = response.totalCents ∧
    order.status = response.status
  items : ∃ stored, OrderItems tables response.id stored ∧ response.items = stored.map fun s => s.2.input

/-- What the foreign keys and the sequence of `order_items` promise. -/
structure Referenced (tables : Tables T) (seq : Serial → ℕ) : Prop where
  keys : ∀ k n, tables (.idempotencyKey k) = some ⟨some n⟩ → ∃ order, tables (.order n) = some order
  items : ∀ id row, tables (.orderItem id) = some row → ∃ order, tables (.order row.orderId) = some order
  drawn : ∀ id row, tables (.orderItem id) = some row → id < seq .orderItems

section Reads

variable {tables old new : Tables T} {seq seq' : Serial → ℕ} {response : OrderResponse}

theorem ReadsAs.keeps (h : ReadsAs old response) (hk : Keeps old new) : ReadsAs new response := by
  obtain ⟨⟨order, horder, hrest⟩, stored, hstored, hitems⟩ := h
  exact ⟨⟨order, hk.same _ order horder, hrest⟩, stored, hstored.evolves horder hk.toEvolves, hitems⟩

theorem Referenced.step (h : Referenced old seq) (hk : Keeps old new) (hseq : seq .orderItems ≤ seq' .orderItems)
    (hkeys : ∀ k n, new (.idempotencyKey k) = some ⟨some n⟩ →
      old (.idempotencyKey k) = some ⟨some n⟩ ∨ ∃ order, new (.order n) = some order)
    (hitems : ∀ id row, new (.orderItem id) = some row → old (.orderItem id) = some row ∨
      (∃ order, new (.order row.orderId) = some order) ∧ id < seq' .orderItems) : Referenced new seq' where
  keys k n hn := by
    rcases hkeys k n hn with hold | hnew
    · obtain ⟨order, horder⟩ := h.keys k n hold
      exact ⟨order, hk.same n order horder⟩
    · exact hnew
  items id row hid := by
    rcases hitems id row hid with hold | ⟨hnew, -⟩
    · obtain ⟨order, horder⟩ := h.items id row hold
      exact ⟨order, hk.same _ order horder⟩
    · exact hnew
  drawn id row hid := by
    rcases hitems id row hid with hold | ⟨-, hnew⟩
    · exact Nat.lt_of_lt_of_le (h.drawn id row hold) hseq
    · exact hnew

theorem ReadsAs.items_eq {view : View T} (h : ReadsAs tables response) (hi : Referenced tables view.seq)
    (hview : ∀ id, view.row (.orderItem id) = tables (.orderItem id)) :
    (View.orderItems view response.id).map OrderItemRow.input = response.items := by
  obtain ⟨-, stored, hstored, hitems⟩ := h
  have hstored' : OrderItems view.row response.id stored := ⟨hstored.sorted, fun id row => by rw [hview, hstored.mem]⟩
  rw [hitems, hstored'.read (fun id row hid => hi.drawn id row ((hview id).symm.trans hid)), List.map_map]
  rfl

theorem exists_readsAs (hi : Referenced tables seq) {n : ℕ} {order : OrderRow T}
    (horder : tables (.order n) = some order) :
    ∃ response : OrderResponse, response.id = n ∧ ReadsAs tables response := by
  obtain ⟨stored, hstored, -⟩ := @exists_orderItems T ⟨tables, seq⟩ n hi.drawn
  exact ⟨⟨n, stored.map fun s => s.2.input, order.totalAmount, order.status⟩, rfl, ⟨order, horder, rfl, rfl⟩, stored,
    hstored, rfl⟩

end Reads

variable [DecidableEq T]

omit [DecidableEq T] in
theorem answer_eq {response : OrderResponse} {items : List CreateOrderItemInput} {order : OrderRow T}
    (hitems : items = response.items) (htotal : order.totalAmount = response.totalCents)
    (hstatus : order.status = response.status) :
    (⟨response.id, items, order.totalAmount, order.status⟩ : OrderResponse) = response := by
  rw [hitems, htotal, hstatus]

section Rules

variable {A : Allowed T} {C : T → ShopWorld T → ShopWorld T → Prop} {D : Discipline ((ShopMachine T).restrict A C)}
  {t : T} {key : String}

structure ReadRules (D : Discipline ((ShopMachine T).restrict A C)) (t : T) : Prop where
  calm : Calm D
  reads : ∀ response, Kept D t fun w => ReadsAs w.db.committed response
  referenced : ∀ {w}, D.inv w → Referenced w.db.committed w.db.seq

namespace ReadRules

variable (H : ReadRules D t)

include H

theorem findByIdWithClient_spec {ws : Workspace Key (Row T)} {c : ℕ} (hws : ∀ n, ws (.order n) = none)
    (hws' : ∀ id, ws (.orderItem id) = none) (response : OrderResponse) :
    D.Triple t (fun w => At t ws c w ∧ ReadsAs w.db.committed response) (findByIdWithClient response.id)
      (fun answer w => answer = response ∧ At t ws (c + 2) w ∧ ReadsAs w.db.committed response)
      fun e _ => e = .database := by
  have hF := H.reads response
  have hY := Fails.const (D := D) (t := t) (F := fun w => ReadsAs w.db.committed response)
    (φ := (· = Failure.database)) rfl
  refine .bind (statement_spec H.calm hF hY
    (G := fun view _ => ∃ order : OrderRow T, view.row (.order response.id) = some order ∧
    order.totalAmount = response.totalCents ∧ order.status = response.status) (fun _ => .const) ?_) fun view => ?_
  · intro w _ hat hreads
    obtain ⟨order, horder, hrest⟩ := hreads.order
    exact ⟨order, (hat.visible_of_none (hws _)).trans horder, hrest⟩
  refine .pre (P := fun w => ∃ order : OrderRow T, (view.row (.order response.id) = some order ∧
    order.totalAmount = response.totalCents ∧ order.status = response.status) ∧ At t ws (c + 1) w ∧
    ReadsAs w.db.committed response) (.exists_pre fun order => .pure_pre fun ⟨hread, htotal, hstatus⟩ => ?_)
    fun w _ ⟨hat, hreads, order, h⟩ => ⟨order, h, hat, hreads⟩
  rw [hread]
  refine .bind (statement_spec H.calm hF hY
    (G := fun view _ => (View.orderItems view response.id).map OrderItemRow.input = response.items)
        (fun _ => .const) ?_)
    fun itemsView => ?_
  · exact fun w hi hat hreads => hreads.items_eq (H.referenced hi) fun id => hat.visible_of_none (hws' id)
  · refine .pure (.and .const (At.stable.and hF.stable)) ?_
    rintro w - ⟨hat, hreads, hitems⟩
    exact ⟨answer_eq hitems htotal hstatus, hat, hreads⟩

theorem answer_spec {response : OrderResponse} {Z : ShopWorld T → Prop} (hZ : D.Stable t Z)
    (hcommits : ∀ {w r c}, D.inv w → At t (keyLocked key ⟨some response.id⟩) c w → ReadsAs w.db.committed response →
      A t (.sql .commit) w r ⟨w.db.commit t, w.env⟩ →
      D.Allows t w ⟨w.db.commit t, w.env⟩ ∧ Z ⟨w.db.commit t, w.env⟩) :
    D.Triple t (fun w => At t (keyLocked key ⟨some response.id⟩) 2 w ∧ ReadsAs w.db.committed response)
      (do let answer ← findByIdWithClient response.id; commit; pure answer)
      (fun answer w => answer = response ∧ Z w) fun e _ => e = .database := by
  have hY (F : ShopWorld T → Prop) := Fails.const (D := D) (t := t) (F := F) (φ := (· = Failure.database)) rfl
  refine .bind (H.findByIdWithClient_spec (fun _ => Workspace.set_of_ne (by simp))
    (fun _ => Workspace.set_of_ne (by simp)) response) fun answer => .pure_pre fun hanswer => ?_
  refine .bind (R := fun _ => Z) (commit_spec H.calm (H.reads response) (hY _) hZ ?_)
    fun _ => .pure (.and .const hZ) fun _ _ h => ⟨hanswer, h⟩
  intro w r hi hat hreads ha
  obtain ⟨hallows, hz⟩ := hcommits hi hat hreads ha
  exact ⟨hallows, fun _ => hz, fun _ => rfl⟩

theorem replayOrder_spec {stored : String} {Z : OrderResponse → ShopWorld T → Prop}
    (hstored : storedKey key = some stored) (hZ : ∀ response, D.Stable t (Z response))
    (hcommits : ∀ {response w r c}, storedKey key = some key → D.inv w →
      At t (keyLocked key ⟨some response.id⟩) c w → ReadsAs w.db.committed response →
      A t (.sql .commit) w r ⟨w.db.commit t, w.env⟩ →
      D.Allows t w ⟨w.db.commit t, w.env⟩ ∧ Z response ⟨w.db.commit t, w.env⟩) :
    D.Triple t (fun w => At t Workspace.empty 1 w ∧ ∃ row, w.db.committed (.idempotencyKey stored) = some row)
      (replayOrder key) Z fun _ _ => True := by
  unfold replayOrder selectKeyForUpdate
  rw [hstored]
  split
  swap
  · refine .bind (.bind (statement_spec H.calm (.present _) .any (fun _ => .const) fun _ _ _ _ => trivial) fun _ =>
      .pure (Q := fun row _ => row = none ∧ True) .const fun _ _ _ => ⟨rfl, trivial⟩) fun row => .pure_pre ?_
    rintro rfl
    exact .throw .const fun _ _ _ => trivial
  rename_i hkept
  obtain rfl : key = stored := (Option.some.inj hkept).symm
  refine .bind (selectForUpdate_spec H.calm (.present _) .any rfl
    (G := fun (row : IdempotencyKeyRow) w => ∀ n, row = ⟨some n⟩ → ∃ response : OrderResponse, response.id = n ∧
      ReadsAs w.db.committed response)
    (fun row => .each fun n => .imp fun _ => .any fun response => .and .const (H.reads response))
    (N := fun _ => True) .const ?_ ?_) fun row => ?_
  · exact fun _ _ _ _ _ => trivial
  · rintro w row hi - - hrow n rfl
    obtain ⟨order, horder⟩ := (H.referenced hi).keys _ n hrow
    exact exists_readsAs (H.referenced hi) horder
  cases row with
  | none => exact .throw .const fun _ _ _ => trivial
  | some row =>
    obtain ⟨orderId⟩ := row
    cases orderId with
    | none => exact .throw .const fun _ _ _ => trivial
    | some n =>
      refine .pre (P := fun w => ∃ response : OrderResponse, response.id = n ∧ At t (keyLocked key ⟨some n⟩) 2 w ∧
        ReadsAs w.db.committed response) (.exists_pre fun response => .pure_pre fun hn => ?_) ?_
      · subst hn
        exact (H.answer_spec (hZ response) (hcommits hstored)).conseq (fun _ _ h => h) (fun _ _ _ h => h.1 ▸ h.2)
          fun _ _ _ _ => trivial
      · rintro w - ⟨hat, -, h⟩
        obtain ⟨response, hn, hreads⟩ := h n rfl
        exact ⟨response, hn, hat, hreads⟩

end ReadRules

end Rules

def readBack : Discipline (ShopMachine T).unrestricted where
  inv w := Referenced w.db.committed w.db.seq
  always w w' := Keeps w.db.committed w'.db.committed
  rely _ _ _ := True
  gone _ _ := True
  always_refl _ := .refl _
  always_trans := Keeps.trans
  rely_refl _ _ := trivial
  rely_trans _ _ _ _ _ _ := trivial

section Steps

variable {t : T} {w w' : ShopWorld T}

theorem readBack_calm : Calm (readBack (T := T)) := by
  apply Calm.of_committed
  · intro w w' hc hseq hi
    refine Referenced.step hi ?_ (hseq _) (fun k n hk => .inl ?_) fun id row hid => .inl ?_
    · rw [hc]
      exact .refl _
    · rw [← hc]
      exact hk
    · rw [← hc]
      exact hid
  · intro w w' hc
    simp only [readBack, hc]
    exact .refl _
  · exact fun _ _ _ _ => trivial
  · exact fun _ _ => trivial

theorem readBack_unrelated (hi : readBack.inv w)
    (hkeys : ∀ k, w'.db.committed (.idempotencyKey k) = w.db.committed (.idempotencyKey k))
    (horders : ∀ n, w'.db.committed (.order n) = w.db.committed (.order n))
    (hitems : ∀ id, w'.db.committed (.orderItem id) = w.db.committed (.orderItem id))
    (hseq : w'.db.seq = w.db.seq) : readBack.Allows t w w' := by
  have hk := Keeps.of_eq hkeys horders hitems
  refine ⟨Referenced.step hi hk (Nat.le_of_eq (by rw [hseq])) (fun k n hk => .inl ?_) (fun id row hid => .inl ?_), hk,
    fun _ _ => trivial⟩
  · rw [← hkeys]
    exact hk
  · rw [← hitems]
    exact hid

theorem readBack_start (hi : readBack.inv w) : readBack.Allows t w ⟨w.db.setTxn t ⟨.inProgress, 0⟩, w.env⟩ :=
  readBack_unrelated hi (fun _ => rfl) (fun _ => rfl) (fun _ => rfl) rfl

theorem readBack_checkout : CheckoutRules (readBack (T := T)) t
    (fun _ => True) (fun _ => True) (fun _ _ => True) (fun _ _ => True) where
  calm := readBack_calm
  kept := .const
  broken := .const
  stable _ := .const
  published _ := .const
  fails _ _ := trivial
  starts hi _ := ⟨readBack_start hi, trivial⟩
  aborts _ _ := trivial
  commits {w r} placed hi hat _ _ _ hseq _ := by
    have hc := PlacedCheckout.committed hat
    have hk := hc.keeps
    refine ⟨⟨Referenced.step hi hk ?_ (fun k n hn => .inl ((hc.keys k).symm.trans hn)) fun id row hid => ?_, hk,
      fun _ _ => trivial⟩, fun _ => trivial, fun _ => trivial⟩
    · rw [Database.seq_commit]
    · rcases hc.item_cases hid with hold | ⟨rfl, rfl⟩
      · exact .inl hold
      · refine .inr ⟨⟨_, hc.order⟩, ?_⟩
        rw [Database.seq_commit]
        exact hseq
  publishes _ _ _ := publishOrderPlaced_spec readBack_calm (fun _ => True)
    { before := .const
      sent := .const
      confirmed := .const
      broken := .const
      sends := fun _ hi _ => ⟨readBack_unrelated hi (fun _ => rfl) (fun _ => rfl) (fun _ => rfl) rfl, trivial⟩
      confirms := fun _ hi _ => ⟨readBack_unrelated hi (fun _ => rfl) (fun _ => rfl) (fun _ => rfl) rfl, trivial⟩
      fails := fun _ _ _ _ _ _ => trivial }

theorem readBack_relay : RelayRules (readBack (T := T)) t where
  calm := readBack_calm
  starts hi _ := readBack_start hi
  sends hi _ _ _ _ := readBack_unrelated hi (fun _ => rfl) (fun _ => rfl) (fun _ => rfl) rfl
  confirms hi := readBack_unrelated hi (fun _ => rfl) (fun _ => rfl) (fun _ => rfl) rfl
  commits {w ws c r rows} hi hat hws hmarked _ _ := by
    have hc := hws.committed hmarked hat
    exact readBack_unrelated hi (fun _ => hc.others _ (by simp)) (fun _ => hc.others _ (by simp))
      (fun _ => hc.others _ (by simp)) Database.seq_commit

end Steps

def Recorded (key : String) (response : OrderResponse) (w : ShopWorld T) : Prop :=
  (∃ stored, KeyRow w.db.committed key response.id stored) ∧ ReadsAs w.db.committed response

omit [DecidableEq T] in
theorem Recorded.row {key : String} {response : OrderResponse} {w : ShopWorld T} (h : Recorded key response w)
    (hkept : KeyKept key) :
    storedKey key = some key ∧ w.db.committed (.idempotencyKey key) = some ⟨some response.id⟩ := by
  obtain ⟨⟨stored, hkey⟩, -⟩ := h
  obtain rfl := hkept stored hkey.key
  exact ⟨hkey.key, hkey.row.trans (by rw [if_pos rfl])⟩

section Create

variable {t : T} {key : String} {items : List CreateOrderItemInput}

theorem readsAs_kept (response : OrderResponse) :
    Kept (readBack (T := T)) t fun w => ReadsAs w.db.committed response where
  stable _ _ _ h hs := h.keeps hs.always
  works _ h hw := hw.committed ▸ h

theorem recorded_stable (response : OrderResponse) : (readBack (T := T)).Stable t (Recorded key response) := by
  rintro w w' - ⟨⟨stored, hkey⟩, hreads⟩ hs
  exact ⟨⟨stored, hkey.evolves hs.always.toEvolves⟩, hreads.keeps hs.always⟩

def readBack_place : PlaceRules (readBack (T := T)) t items key (fun _ => True) (Recorded key) where
  calm := readBack_calm
  reads := noReads _ t items key
  stable := recorded_stable
  failures _ _ := trivial
  starts := readBack_start
  places {w r} placed lines hi hat hp hdrawn _ _ := by
    have hc := PlacedOrder.committed hat hp.sorted
    have hkey : KeyRow (w.db.commit t).committed key placed.orderId placed.key := ⟨hp.key, hp.bound ▸ hc.key⟩
    have horderId := stores_orderId hp.stored
    have hk := hc.keeps horderId
    have hreads : ReadsAs (w.db.commit t).committed ⟨placed.orderId, items, placed.order.totalAmount, .created⟩ := by
      refine ⟨⟨_, hc.order, rfl, hp.status⟩, placed.items, orderItems_placed hc ?_ hp.sorted horderId, ?_⟩
      · intro id row hid heq
        obtain ⟨order, horder⟩ := hi.items id row hid
        rw [heq, hc.order_old] at horder
        cases horder
      · rw [hp.input, stores_inputs hp.stored]
    refine ⟨⟨Referenced.step hi hk ?_ (fun k n hn => ?_) fun id row hid => ?_, hk, fun _ _ => trivial⟩, ⟨_, hkey⟩,
      hreads⟩
    · rw [Database.seq_commit]
    · by_cases hk' : k = placed.key
      · subst hk'
        have hbound := Option.some.inj (hkey.row.symm.trans hn)
        obtain ⟨-, hn⟩ := Option.ite_none_right_eq_some.mp (IdempotencyKeyRow.mk.inj hbound)
        obtain rfl := Option.some.inj hn
        exact .inr ⟨_, hc.order⟩
      · exact .inl ((hc.keys k hk').symm.trans hn)
    · rcases hc.item_cases hid with hold | hmem
      · exact .inl hold
      · refine .inr ⟨⟨_, (horderId _ hmem) ▸ hc.order⟩, ?_⟩
        rw [Database.seq_commit]
        exact hdrawn _ hmem

theorem readBack_reads : ReadRules (readBack (T := T)) t where
  calm := readBack_calm
  reads := readsAs_kept
  referenced hi := hi

theorem readBack_commit {response : OrderResponse} {c : ℕ} {w : ShopWorld T} (hkept : storedKey key = some key)
    (hi : readBack.inv w) (hat : At t (keyLocked key ⟨some response.id⟩) c w)
    (hreads : ReadsAs w.db.committed response) :
    readBack.Allows t w ⟨w.db.commit t, w.env⟩ ∧ Recorded key response ⟨w.db.commit t, w.env⟩ := by
  have hsame := hat.committed_unchanged Workspace.set_empty_locked
  refine ⟨readBack_unrelated hi (by simp [hsame]) (by simp [hsame]) (by simp [hsame]) Database.seq_commit, ?_⟩
  rw [Recorded, hsame]
  refine ⟨⟨key, hkept, ?_⟩, hreads⟩
  rw [if_pos rfl]
  exact hat.committed_old (k := Key.idempotencyKey key) Workspace.set_self

theorem readBack_findById (response : OrderResponse) :
    readBack.Triple t (fun w => w.db.workspace t = Workspace.empty ∧ ReadsAs w.db.committed response)
      (findById response.id) (fun answer _ => answer = response) fun e _ => e = .database := by
  have hD := readBack_calm (T := T)
  have hF := readsAs_kept (t := t) response
  refine .bind (select_outside_spec hD hF (G := fun view _ => ∃ order : OrderRow T,
    view.row (.order response.id) = some order ∧ order.totalAmount = response.totalCents ∧
        order.status = response.status)
    (fun _ => .const) (fun _ _ hreads => hreads.order) (fun _ _ _ => rfl) fun _ => .const) fun view => ?_
  refine .pre (P := fun w => ∃ order : OrderRow T, (view.row (.order response.id) = some order ∧
    order.totalAmount = response.totalCents ∧ order.status = response.status) ∧ w.db.workspace t = Workspace.empty ∧
    ReadsAs w.db.committed response) (.exists_pre fun order => .pure_pre fun ⟨hread, htotal, hstatus⟩ => ?_)
    fun w _ ⟨hidle, hreads, order, h⟩ => ⟨order, h, hidle, hreads⟩
  rw [hread]
  refine .bind (select_outside_spec hD hF
    (G := fun view _ => (View.orderItems view response.id).map OrderItemRow.input = response.items) (fun _ => .const)
    (fun w hi hreads => hreads.items_eq hi fun _ => rfl) (fun _ _ _ => rfl) fun _ => .const) fun itemsView => ?_
  exact .pure .const fun w _ ⟨_, _, hitems⟩ => answer_eq hitems htotal hstatus

theorem readBack_answer (hkept : storedKey key = some key) (response : OrderResponse) :
    readBack.Triple t (fun w => At t (keyLocked key ⟨some response.id⟩) 2 w ∧ ReadsAs w.db.committed response)
      (do let answer ← findByIdWithClient response.id; commit; pure answer)
      (fun answer w => answer = response ∧ Recorded key response w) fun e _ => e = .database :=
  readBack_reads.answer_spec (recorded_stable response) fun hi hat hreads _ => readBack_commit hkept hi hat hreads

theorem readBack_replay {stored : String} (hstored : storedKey key = some stored) : readBack.Triple t
    (fun w => At t Workspace.empty 1 w ∧ ∃ row, w.db.committed (.idempotencyKey stored) = some row)
    (replayOrder key) (Recorded key) fun _ _ => True :=
  readBack_reads.replayOrder_spec hstored recorded_stable fun hkept hi hat hreads _ =>
    readBack_commit hkept hi hat hreads

theorem readBack_create (input : CreateOrderInput) :
    readBack.Triple t (fun w => w.db.workspace t = Workspace.empty) (create t input key)
      (fun response w => (∃ items, input.Accepted key items) ∧ Recorded key response w) fun _ _ => True := by
  refine (create_spec_of (F := fun _ => True) (φ := fun _ => True) readBack_calm .const trivial
    (fun w hi _ => ⟨readBack_start hi, trivial⟩) (fun _ _ => trivial) (fun items _ haccepted hstored => ?_)
    fun items _ haccepted hstored => ?_).pre fun w _ h => ⟨h, trivial⟩
  · have hplace : PlaceRules readBack t items key (fun _ => True) (Recorded key) := readBack_place
    exact (hplace.placeOrder_spec hstored).conseq (fun _ _ h => h) (fun _ _ _ h => ⟨⟨items, haccepted⟩, h⟩)
      fun _ _ _ _ => trivial
  · exact (readBack_replay hstored).conseq (fun _ _ h => ⟨h.1, h.2.2⟩) (fun _ _ _ h => ⟨⟨items, haccepted⟩, h⟩)
      fun _ _ _ _ => trivial

theorem readBack_again {input : CreateOrderInput} (haccepted : input.Accepted key items) (hkept : KeyKept key)
    (response : OrderResponse) :
    readBack.Triple t (fun w => w.db.workspace t = Workspace.empty ∧ Recorded key response w) (create t input key)
      (fun answer _ => answer = response) fun e _ => e = .database := by
  have hF : Kept (readBack (T := T)) t (Recorded key response) :=
    ⟨recorded_stable response, fun _ h hw => by rw [Recorded, hw.committed]; exact h⟩
  have hY := Fails.const (D := readBack (T := T)) (t := t) (F := fun w => Recorded key response w ∧
    ∃ row, w.db.committed (.idempotencyKey key) = some row) (φ := (· = Failure.database)) rfl
  refine create_spec_of readBack_calm hF rfl (fun w hi h => ⟨readBack_start hi, h⟩)
    (fun hrejected => absurd haccepted (hrejected items)) (fun _ stored _ hstored => ?_) fun _ stored _ hstored => ?_
  · obtain rfl : key = stored := (hkept stored hstored).symm
    rintro w - ⟨hat, hbound⟩
    have hnone := hat.committed_old (k := Key.idempotencyKey key) Workspace.set_self
    exact absurd (hnone.symm.trans (hbound.row hkept).2) (by simp)
  · obtain rfl : key = stored := (hkept stored hstored).symm
    rw [replayOrder, selectKeyForUpdate, if_pos hstored]
    refine .bind (selectForUpdate_spec readBack_calm (hF.and (.present _)) hY rfl
      (G := fun (row : IdempotencyKeyRow) _ => row = ⟨some response.id⟩) (fun _ => .const) (N := fun _ => False) .const
      ?_ ?_) fun row => ?_
    · rintro w - - ⟨hbound, -⟩ hnone
      exact absurd (hnone.symm.trans (hbound.row hkept).2) (by simp)
    · rintro w row - - ⟨hbound, -⟩ hrow
      exact Option.some.inj (hrow.symm.trans (hbound.row hkept).2)
    · cases row with
      | none => exact .throw .const fun w _ h => h.2.2.elim
      | some row =>
        refine .pre (P := fun w => row = ⟨some response.id⟩ ∧ At t (keyLocked key ⟨some response.id⟩) 2 w ∧
          ReadsAs w.db.committed response) (.pure_pre fun hrow => ?_) ?_
        · subst hrow
          exact (readBack_answer hstored response).conseq (fun _ _ h => h) (fun _ _ _ h => h.1) fun _ _ _ h => h
        · rintro w - ⟨hat, ⟨⟨-, hreads⟩, -⟩, rfl⟩
          exact ⟨rfl, hat, hreads⟩

end Create

def Wrote (calls : T → ReadBackCall) (t : T) (answer : Option OrderResponse) (w : ShopWorld T) : Prop :=
  ∀ input key, calls t = .create input key → ∃ response, answer = some response ∧
    (∃ items, input.Accepted key items) ∧ Recorded key response w

theorem wrote_stable {t : T} (calls : T → ReadBackCall) (answer : Option OrderResponse) :
    readBack.Stable t (Wrote calls t answer) := by
  intro w w' hi h hs input key ht
  obtain ⟨response, hanswer, haccepted, hrecorded⟩ := h input key ht
  exact ⟨response, hanswer, haccepted, recorded_stable response w w' hi hrecorded hs⟩

theorem ReadBackCall.run_spec (calls : T → ReadBackCall) (t : T) :
    readBack.Triple t (fun w => w.db.workspace t = Workspace.empty ∧ outgoing t w.env = []) ((calls t).run t)
      (Wrote calls t) fun _ _ => True := by
  have hnone {answer : Option OrderResponse} (h : ∀ input key, calls t ≠ .create input key) :
      readBack.Triple t (fun _ => True) (pure answer) (Wrote calls t) fun _ _ => True :=
    .pure (wrote_stable calls _) fun _ _ _ input key ht => absurd ht (h input key)
  cases ht : calls t with
  | create input key =>
    refine (Discipline.Triple.bind (readBack_create input) fun response => ?_).pre fun w _ h => h.1
    refine .pure (wrote_stable calls _) fun w _ h input' key' ht' => ?_
    cases ht.symm.trans ht'
    exact ⟨response, rfl, h⟩
  | findById id =>
    exact .bind ((findById_spec readBack_calm .const id).pre fun _ _ _ => trivial) fun _ => hnone (by simp [ht])
  | checkout input =>
    exact .bind ((checkout_spec readBack_checkout input).pre fun w _ h => ⟨h.1, trivial⟩) fun _ => hnone (by simp [ht])
  | relayOutboxBatch options =>
    exact .bind (relayOutboxBatch_spec readBack_relay options) fun _ => hnone (by simp [ht])

section Alone

variable {t : T} {base : Tables T} {seq : Serial → ℕ} {response : OrderResponse} {key : String}
  {ext : (o : ShopOp) → List (Sent T) → Except Failure o.Res × List (Sent T)}

theorem findById_alone (hreads : ReadsAs base response) (hi : Referenced base seq) :
    Prog.Solo (stepAlone ext .database t) (Free base seq) (findById response.id) (fun answer _ => answer = response)
      fun _ _ => False := by
  obtain ⟨order, horder, htotal, hstatus⟩ := hreads.order
  refine .bind_eq statement_free ?_
  simp only [horder]
  exact .bind_eq statement_free (.pure fun _ _ => answer_eq (hreads.items_eq hi fun _ => rfl) htotal hstatus)

theorem findByIdWithClient_alone (hreads : ReadsAs base response) (hi : Referenced base seq) :
    Prog.Solo (stepAlone ext .database t) (Session t base seq base) (findByIdWithClient response.id)
      (fun answer w => answer = response ∧ Session t base seq base w) fun _ _ => False := by
  obtain ⟨order, horder, htotal, hstatus⟩ := hreads.order
  refine .bind_eq statement_solo ?_
  simp only [horder]
  refine .bind_eq statement_solo (.pure fun _ h => ⟨answer_eq ?_ htotal hstatus, h⟩)
  exact hreads.items_eq hi fun _ => rfl

theorem create_again_alone {input : CreateOrderInput} {items : List CreateOrderItemInput}
    (haccepted : input.Accepted key items) (hkept : storedKey key = some key)
    (hbound : base (.idempotencyKey key) = some ⟨some response.id⟩) (hreads : ReadsAs base response)
    (hi : Referenced base seq) :
    Prog.Solo (stepAlone ext .database t) (Free base seq) (create t input key) (fun answer _ => answer = response)
      fun _ _ => False := by
  have hreplay : Prog.Solo (stepAlone ext .database t) (Session t base seq base) (replayOrder key)
      (fun answer _ => answer = response) fun _ _ => False := by
    rw [replayOrder, selectKeyForUpdate, if_pos hkept]
    refine .bind_eq (a := some ⟨some response.id⟩) (S := Session t base seq base) ?_ ?_
    · refine .bind_eq statement_solo ?_
      simp only [hbound]
      exact lock_solo.conseq (fun _ h => h) (fun r w h => ⟨h.1.trans hbound, h.2.2⟩) fun _ _ h => h
    · refine .bind_eq (findByIdWithClient_alone hreads hi) ?_
      exact .bind commit_solo fun _ => .pure fun _ _ => rfl
  cases items with
  | nil => exact absurd rfl haccepted.nonempty
  | cons item items =>
    unfold create
    simp only [haccepted.body, haccepted.nonblank]
    refine Prog.Solo.handle (Y := fun _ _ => False) ?_ fun _ _ h => h.elim
    exact .bind begin_solo fun _ => .bind_eq (insertKey_known hkept hbound) hreplay

end Alone

/-- Nothing is under way, and the tables are as the foreign keys and the sequences leave them. -/
structure OrdersAtRest (w : ShopWorld T) : Prop where
  quiescent : w.db.Quiescent
  referenced : Referenced w.db.committed w.db.seq
  log : w.env = []

theorem create_read_back (calls : T → ReadBackCall) {w : ShopWorld T} (hw : OrdersAtRest w)
    {c d : ShopConfig T (Option OrderResponse)} (hc : (ShopMachine T).Reachable (.start w fun t => (calls t).run t) c)
    {t : T} {input : CreateOrderInput} {key : String} {response : OrderResponse} (ht : calls t = .create input key)
    (hok : c.outcome t = some (.ok (some response))) (hd : (ShopMachine T).Reachable c d) :
    (∀ t' result, (calls t' = .findById response.id ∨ KeyKept key ∧ calls t' = .create input key) →
      c.prog t' = some ((calls t').run t') → d.outcome t' = some result →
      result = .ok (some response) ∨ result = .error .database) ∧
      ∀ t' (ext : (o : ShopOp) → List (Sent T) → Except Failure o.Res × List (Sent T)) (w' : ShopWorld T),
      Free d.shared.db.committed d.shared.db.seq w' →
      ((findById response.id).run (stepAlone ext .database t') w').1 = .ok response ∧
      (KeyKept key → ((create t' input key).run (stepAlone ext .database t') w').1 = .ok response) := by
  have hstart (t : T) : w.db.workspace t = Workspace.empty ∧ outgoing t w.env = [] :=
    ⟨hw.quiescent.workspace t, by rw [hw.log]; rfl⟩
  have hinv : (readBack (T := T)).inv w := hw.referenced
  have hstarts (t : T) : readBack.Holds t (Discipline.Post (Wrote calls t) fun _ _ => True) w
    (some ((calls t).run t)) :=
    ReadBackCall.run_spec calls t w hinv (hstart t)
  obtain ⟨hi, -, hall⟩ := Discipline.reachable_holds hinv hstarts hc.unrestricted
  have hsafe := hall t
  rw [Config.outcome_eq_some.mp hok] at hsafe
  obtain ⟨_, hsome, ⟨items, haccepted⟩, hrecorded⟩ := Discipline.Safe.outcome hsafe hi input key ht
  cases hsome
  refine ⟨fun t' result ht' hlater hresult => ?_, fun t' ext w' hfree => ?_⟩
  · have hidle : c.shared.db.workspace t' = Workspace.empty :=
      (Machine.Reachable.unstarted hc hlater).db.workspace.trans (hw.quiescent.workspace t')
    have hagain : (readBack (T := T)).Holds t' (Discipline.Post (fun answer _ => answer = some response)
        fun e _ => e = .database) c.shared (c.prog t') := by
      rw [hlater]
      rcases ht' with ht' | ⟨hkept, ht'⟩
      · rw [ht']
        refine Discipline.Triple.bind (readBack_findById response) (fun answer => ?_) _ hi ⟨hidle, hrecorded.2⟩
        exact .pure .const fun _ _ h => congrArg some h
      · rw [ht']
        refine Discipline.Triple.bind (readBack_again haccepted hkept response) (fun answer => ?_) _ hi
          ⟨hidle, hrecorded⟩
        exact .pure .const fun _ _ h => congrArg some h
    obtain ⟨hi', -, hall'⟩ := Discipline.reachable_holds hi (Discipline.Holds.update hall hagain) hd.unrestricted
    have hsafe' := hall' t'
    rw [Config.outcome_eq_some.mp hresult, Function.update_self] at hsafe'
    have hpost := Discipline.Safe.outcome hsafe' hi'
    cases result with
    | error e => exact .inr (congrArg Except.error hpost)
    | ok answer => exact .inl (congrArg Except.ok hpost)
  · obtain ⟨hi', halways, -⟩ := Discipline.reachable_holds hi hall hd.unrestricted
    have hreads : ReadsAs d.shared.db.committed response := hrecorded.2.keeps halways
    refine ⟨(findById_alone hreads hi').answers hfree, fun hkept => ?_⟩
    obtain ⟨hkey, hbound⟩ := hrecorded.row hkept
    exact (create_again_alone haccepted hkey (halways.keys _ _ hbound) hreads hi').answers hfree

omit [DecidableEq T] in
theorem seeded_ordersAtRest : OrdersAtRest (ShopWorld.seeded (T := T)) where
  quiescent := ⟨fun _ => rfl, fun _ => rfl⟩
  referenced := ⟨fun _ _ h => (nomatch h), fun _ _ h => (nomatch h), fun _ _ h => (nomatch h)⟩
  log := rfl

def readBackCalls : ℕ → ReadBackCall
  | 0 => .create retriedInput "retry"
  | 1 => .findById 1
  | _ => .create retriedInput "retry"

theorem create_read_back_repeated : ∃ c d : ShopConfig ℕ (Option OrderResponse), ∃ response,
    (ShopMachine ℕ).Reachable (.start .seeded fun t => (readBackCalls t).run t) c ∧ (ShopMachine ℕ).Reachable c d ∧
      c.outcome 0 = some (.ok (some response)) ∧ response.items = retriedInput.items.getD [] ∧
      d.outcome 1 ≠ none ∧
      (∀ result, d.outcome 1 = some result → result = .ok (some response) ∨ result = .error .database) ∧
      ((create 2 retriedInput "retry").run (stepAlone (fun _ log => (.error .broker, log)) .database 2)
      (⟨⟨d.shared.db.committed, fun _ => none, d.shared.db.seq, d.shared.db.txn⟩, []⟩ : ShopWorld ℕ)).1 =
      .ok response := by
  let response : OrderResponse := ⟨1, [⟨.integer 1, .integer 2⟩, ⟨.integer 1, .integer 1⟩], 300, .created⟩
  have hrun : ∃ c d : ShopConfig ℕ (Option OrderResponse), (ShopMachine ℕ).Reachable
      (.start .seeded fun t => (readBackCalls t).run t) c ∧ (ShopMachine ℕ).Reachable c d ∧
      c.prog 1 = some ((readBackCalls 1).run 1) ∧ c.outcome 0 = some (.ok (some response)) ∧ d.outcome 1 ≠ none := by
    apply exists_reachable_later (S := withDatabaseMoves shopMoves .database)
      (placeMoves 0) [(1, some .go), (1, some .go)]
    · change ∀ move ∈ placeMoves 0, move.1 ≠ 1
      decide
    · decide
  obtain ⟨c, d, hc, hd, hlater, hok, hdone⟩ := hrun
  have h := create_read_back readBackCalls seeded_ordersAtRest hc (t := 0) rfl hok hd
  let alone : ShopWorld ℕ := ⟨⟨d.shared.db.committed, fun _ => none, d.shared.db.seq, d.shared.db.txn⟩, []⟩
  have hfree : Free d.shared.db.committed d.shared.db.seq alone := ⟨rfl, rfl, fun _ => rfl⟩
  have hkept : KeyKept "retry" := keyKept_of_eq (by decide)
  exact ⟨c, d, response, hc, hd, hok, rfl, hdone, fun result => h.1 1 result (.inl rfl) hlater,
    (h.2 2 _ alone hfree).2 hkept⟩

def paddedCalls (_ : ℕ) : ReadBackCall := .create singleInput paddedKey

theorem cut_key_not_replayed : ∃ (c : ShopConfig ℕ (Option OrderResponse)) (response : OrderResponse),
    (ShopMachine ℕ).Reachable (.start .seeded fun t => (paddedCalls t).run t) c ∧
      c.outcome 0 = some (.ok (some response)) ∧
      ((create 1 singleInput paddedKey).run (stepAlone (brokerAt 1 true 10) .database 1) c.shared).1 =
      .error keyWithoutOrder := by
  have hsteps (a : Action Serial Key (Row ℕ) ShopOp) (w : ShopWorld ℕ) :=
    stepAlone_performs (e := .database) (fun o log => brokerAt_performs true 10 o log (t := 0)) a w
  obtain ⟨stored, hstored, hcut⟩ := paddedKey_stored
  have haccepted := paddedKey_accepted
  unfold paddedCalls
  generalize paddedKey = key at *
  have hcreate : Prog.Solo (stepAlone (brokerAt 0 true 10) .database 0)
      (Free (ShopWorld.seeded (T := ℕ)).db.committed (ShopWorld.seeded (T := ℕ)).db.seq)
      ((ReadBackCall.create singleInput key).run 0)
      (fun answer w => ∃ (response : OrderResponse) (tables : Tables ℕ) (seq : Serial → ℕ), answer = some response ∧
        Free tables seq w ∧ tables (.idempotencyKey stored) = some ⟨none⟩) fun _ _ => False := by
    refine .bind (create_cut hstored hcut haccepted.nonblank) fun response => .pure fun w h => ?_
    obtain ⟨-, tables, seq, hfree, hkeys, -⟩ := h
    exact ⟨response, tables, seq, rfl, hfree, (hkeys stored).trans (if_pos rfl)⟩
  obtain ⟨first, c, hfirst, hc, hzero, -⟩ := hcreate.reachable
    (c := .start ShopWorld.seeded fun t => (ReadBackCall.create singleInput key).run t) hsteps rfl
    ⟨rfl, rfl, fun _ => rfl⟩
  cases first with
  | error e => exact hfirst.elim
  | ok answer =>
    obtain ⟨response, tables, seq, rfl, hfree, hrow⟩ := hfirst
    have hagain : Prog.Ends (fun _ _ => False) (fun e w => e = keyWithoutOrder ∧ Free tables seq w)
        ((create 1 singleInput key).run (stepAlone (brokerAt 1 true 10) .database 1) c.shared) :=
      create_cut_again haccepted hstored hcut hrow c.shared hfree
    refine ⟨c, response, hc, hzero, ?_⟩
    generalize (create 1 singleInput key).run (stepAlone (brokerAt 1 true 10) .database 1) c.shared = x at hagain ⊢
    obtain ⟨result, w⟩ := x
    cases result with
    | ok answer => exact hagain.elim
    | error e => exact congrArg Except.error hagain.1

end Marketplace
