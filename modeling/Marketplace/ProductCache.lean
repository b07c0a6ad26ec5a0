import Marketplace.Json.RoundTrip
import Marketplace.SingleFlight

namespace Marketplace

open Concurrent Redis

section Code

structure ProductSummaryRow where
  id : ℕ
  name : String
  price : ℕ
  stockQuantity : ℕ
  deriving DecidableEq, Repr

structure ProductSummary where
  id : ℕ
  name : String
  price : ℕ
  stockQuantity : ℕ
  deriving DecidableEq, Repr

-- `products` is what the table holds when the query runs
def loadProductFromDatabase (products : List ProductSummaryRow) (productId : ℕ) :
    Except CacheFailure (Option ProductSummary) :=
  match products.find? fun row => row.id = productId with
  | none => .error .loader
  | some row => .ok (some ⟨row.id, row.name, row.price, row.stockQuantity⟩)

theorem loadProductFromDatabase_ok {products : List ProductSummaryRow} {productId : ℕ} {value : Option ProductSummary}
    (h : loadProductFromDatabase products productId = .ok value) :
    ∃ summary, value = some summary ∧ summary.id = productId := by
  unfold loadProductFromDatabase at h
  cases hrow : products.find? fun row => row.id = productId with
  | none =>
    rw [hrow] at h
    cases h
  | some row =>
    rw [hrow] at h
    cases h
    have hid := List.find?_some hrow
    exact ⟨_, rfl, of_decide_eq_true hid⟩

def productKey (productId : ℕ) : String := "product-summary:" ++ Nat.repr productId

theorem productKey_injective {n m : ℕ} (h : productKey n = productKey m) : n = m := append_repr_injective h

theorem productKey_ne_lockKey (n : ℕ) (key : String) : productKey n ≠ lockKeyOf key := by
  intro h
  have hl := congrArg String.toList h
  simp only [productKey, lockKeyOf, String.toList_append] at hl
  have hhead := congrArg List.head? hl
  simp at hhead

def getProductSummaryCached (json : Json ProductSummary) (productId : ℕ) (token : String) :
    CacheCall ProductSummary (Option ProductSummary) :=
  getOrLoadCached json (productKey productId) token

end Code

variable {T : Type}

section Source

variable (products : ℕ → List ProductSummaryRow) (productOf : T → ℕ)

/-- The loader of a call that answers has read the table at that time. -/
def LoadsProduct (t : T) : (o : CacheOp) → CacheState T ProductSummary → Except CacheFailure (o.Res ProductSummary) →
    CacheState T ProductSummary → Prop
  | .loader, _, .ok value, s' => loadProductFromDatabase (products s'.clock) (productOf t) = .ok value
  | _, _, _, _ => True

abbrev productCache [DecidableEq T] (json : Json ProductSummary) :
    Machine T (CacheState T ProductSummary) CacheOp (CacheOp.Res ProductSummary) CacheFailure :=
  (cacheMachine json).restrict (LoadsProduct products productOf) fun _ _ _ => True

/-- The row was read, and what was read was written to the cache, by the times given. -/
structure Provenance (productId : ℕ) (summary : ProductSummary) (loadedAt writtenAt : ℕ) : Prop where
  loaded : loadProductFromDatabase (products loadedAt) productId = .ok (some summary)
  order : loadedAt ≤ writtenAt

def maxTtlMs : ℕ := (cacheTtlSeconds + cacheTtlJitterSeconds) * 1000

def Sourced (json : Json ProductSummary) (productId clock : ℕ) (stored : Stored String) : Prop :=
  ∃ summary loadedAt writtenAt, json.parse stored.value = some (some summary) ∧
    Provenance products productId summary loadedAt writtenAt ∧ writtenAt ≤ clock ∧
    ∃ expireAt, stored.expireAt = some expireAt ∧ expireAt ≤ writtenAt + maxTtlMs

def SourcedCache (json : Json ProductSummary) (s : CacheState T ProductSummary) : Prop :=
  ∀ productId stored, s.strings (productKey productId) = some stored → Sourced products json productId s.clock stored

variable {products productOf} {json : Json ProductSummary} {s s' : CacheState T ProductSummary}

theorem SourcedCache.of_strings (h : SourcedCache products json s) (hclock : s.clock ≤ s'.clock)
    (hstrings : ∀ productId, s'.strings (productKey productId) = s.strings (productKey productId)) :
    SourcedCache products json s' := by
  intro productId stored hstored
  rw [hstrings productId] at hstored
  obtain ⟨summary, loadedAt, writtenAt, hparse, hsource, hwritten, hexpire⟩ := h productId stored hstored
  exact ⟨summary, loadedAt, writtenAt, hparse, hsource, hwritten.trans hclock, hexpire⟩

end Source

section Assertions

/-- The assertions of this module only get truer as time passes. -/
def Lasting (P : CacheState T ProductSummary → Prop) : Prop := ∀ s s', s.clock ≤ s'.clock → P s → P s'

variable (products : ℕ → List ProductSummaryRow)

def Begun (since : ℕ) (s : CacheState T ProductSummary) : Prop := since ≤ s.clock

def Loaded (productId since : ℕ) (summary : ProductSummary) (s : CacheState T ProductSummary) : Prop :=
  ∃ loadedAt, since ≤ loadedAt ∧ loadedAt ≤ s.clock ∧
    loadProductFromDatabase (products loadedAt) productId = .ok (some summary)

def Fresh (productId since : ℕ) (summary : ProductSummary) (s : CacheState T ProductSummary) : Prop :=
  ∃ loadedAt writtenAt, Provenance products productId summary loadedAt writtenAt ∧ writtenAt ≤ s.clock ∧
    since ≤ writtenAt + maxTtlMs

def FoundProduct (productId since : ℕ) (cached : Option ProductSummary) (s : CacheState T ProductSummary) : Prop :=
  Begun since s ∧ ∀ summary, cached = some summary → Fresh products productId since summary s

def Summarized (productId since : ℕ) (answer : Option ProductSummary) (s : CacheState T ProductSummary) : Prop :=
  ∃ summary, answer = some summary ∧ Fresh products productId since summary s

variable {products}

theorem begun_lasting (since : ℕ) : Lasting (T := T) (Begun since) := fun _ _ hclock h => Nat.le_trans h hclock

theorem loaded_lasting (productId since : ℕ) (summary : ProductSummary) :
    Lasting (T := T) (Loaded products productId since summary) :=
  fun _ _ hclock ⟨loadedAt, hsince, hloaded, hread⟩ => ⟨loadedAt, hsince, hloaded.trans hclock, hread⟩

theorem fresh_lasting (productId since : ℕ) (summary : ProductSummary) :
    Lasting (T := T) (Fresh products productId since summary) :=
  fun _ _ hclock ⟨loadedAt, writtenAt, hsource, hwritten, hsince⟩ =>
    ⟨loadedAt, writtenAt, hsource, hwritten.trans hclock, hsince⟩

theorem Loaded.fresh {productId since : ℕ} {summary : ProductSummary} {s : CacheState T ProductSummary}
    (h : Loaded products productId since summary s) : Fresh products productId since summary s := by
  obtain ⟨loadedAt, hsince, hloaded, hread⟩ := h
  exact ⟨loadedAt, loadedAt, ⟨hread, Nat.le_refl _⟩, hloaded, hsince.trans (Nat.le_add_right ..)⟩

theorem found_lasting (productId since : ℕ) (cached : Option ProductSummary) :
    Lasting (T := T) (FoundProduct products productId since cached) :=
  fun s s' hclock h => ⟨begun_lasting since s s' hclock h.1, fun summary hsummary =>
    fresh_lasting _ _ _ s s' hclock (h.2 summary hsummary)⟩

theorem FoundProduct.none {productId since : ℕ} {s : CacheState T ProductSummary} (h : Begun since s) :
    FoundProduct products productId since none s := by
  refine ⟨h, fun summary hsummary => ?_⟩
  cases hsummary

theorem FoundProduct.some {productId since : ℕ} {summary : ProductSummary} {s : CacheState T ProductSummary}
    (h : Begun since s) (hfresh : Fresh products productId since summary s) :
    FoundProduct products productId since (some summary) s := by
  refine ⟨h, fun found hfound => ?_⟩
  cases hfound
  exact hfresh

theorem summarized_lasting (productId since : ℕ) (answer : Option ProductSummary) :
    Lasting (T := T) (Summarized products productId since answer) := by
  rintro s s' hclock ⟨summary, hanswer, hfresh⟩
  exact ⟨summary, hanswer, fresh_lasting _ _ _ s s' hclock hfresh⟩

end Assertions

section Rules

variable [DecidableEq T] (products : ℕ → List ProductSummaryRow) (productOf : T → ℕ) (json : Json ProductSummary)

def productLedger : Discipline (productCache products productOf json) where
  inv := SourcedCache products json
  always s s' := s.clock ≤ s'.clock
  rely _ _ _ := True
  gone _ _ := True
  always_refl _ := Nat.le_refl _
  always_trans := Nat.le_trans
  rely_refl _ _ := trivial
  rely_trans _ _ _ _ _ _ := trivial

variable {products productOf json} {t : T} {P : CacheState T ProductSummary → Prop}

theorem Lasting.stable (h : Lasting P) : (productLedger products productOf json).Stable t P :=
  fun s s' _ hp hs => h s s' hs.always hp

-- a cached text is always JSON
def NoSyntaxError (e : CacheFailure) (_ : CacheState T ProductSummary) : Prop := e ≠ .syntaxError

theorem allows_self {s : CacheState T ProductSummary} (h : SourcedCache products json s) :
    (productLedger products productOf json).Allows t s s := ⟨h, Nat.le_refl _, fun _ _ => trivial⟩

theorem crash_allowed (s s' : CacheState T ProductSummary) (h : SourcedCache products json s)
    (hcrash : (productCache products productOf json).crash t s s') :
    (productLedger products productOf json).Allows t s s' ∧
      ∀ s'', (productLedger products productOf json).Interferes t s' s'' →
      (productLedger products productOf json).gone t s'' := by
  obtain ⟨rfl, -⟩ := hcrash
  exact ⟨allows_self h, fun _ _ => trivial⟩

theorem productCommand_spec {o : CacheOp} {Q : o.Res ProductSummary → CacheState T ProductSummary → Prop}
    {X : CacheFailure → CacheState T ProductSummary → Prop} (hjitter : o ≠ .ttlJitter) (hloader : o ≠ .loader)
    (hP : Lasting P) (hQ : ∀ a, Lasting (Q a)) (hX : ∀ e, Lasting (X e)) (herror : ∀ s, P s → X .redis s)
    (h : ∀ s a s', SourcedCache products json s → P s → o.exec json t s = some (a, s') →
      SourcedCache products json s' ∧ s.clock ≤ s'.clock ∧ Q a s') :
    (productLedger products productOf json).Triple t P (Prog.perform o) Q X := by
  have hat {s : CacheState T ProductSummary} {clock : ℕ} (hi : SourcedCache products json s)
      (hclock : s.clock ≤ clock) : SourcedCache products json (s.at clock) :=
    hi.of_strings hclock fun _ => rfl
  apply Discipline.Triple.perform hP.stable _ _ (fun a => (hQ a).stable) fun e => (hX e).stable
  · intro s r s' hi hp hperform
    obtain ⟨hperform, -⟩ := hperform
    cases hperform with
    | @answer _ _ _ clock a hclock hexec =>
      obtain ⟨hi', hclock', hq⟩ := h (s.at clock) a s' (hat hi hclock) (hP _ _ hclock hp) hexec
      exact ⟨⟨hi', hclock.trans hclock', fun _ _ => trivial⟩, hq⟩
    | @lost _ _ _ clock a _ hclock hexec =>
      obtain ⟨hi', hclock', -⟩ := h (s.at clock) a s' (hat hi hclock) (hP _ _ hclock hp) hexec
      exact ⟨⟨hi', hclock.trans hclock', fun _ _ => trivial⟩, herror s' (hP _ _ (hclock.trans hclock') hp)⟩
    | refuse => exact ⟨allows_self hi, herror s hp⟩
    | jitter => exact absurd rfl hjitter
    | loaded => exact absurd rfl hloader
    | loaderFailed => exact absurd rfl hloader
  · exact fun s s' hi _ hcrash => crash_allowed s s' hi hcrash

section Operations

variable {productId since : ℕ} {token : String}

theorem productGet_spec : (productLedger products productOf json).Triple t (Begun since)
    (Prog.perform (CacheOp.get (productKey productId)))
    (fun value s => Begun since s ∧ ∀ text, value = some text →
      ∃ summary, json.parse text = some (some summary) ∧ Fresh products productId since summary s) NoSyntaxError := by
  apply productCommand_spec (by simp) (by simp) (begun_lasting since) _ (fun _ _ _ _ h => h)
    fun _ _ => by simp [NoSyntaxError]
  · intro s value s' hi hp hexec
    cases hexec
    refine ⟨hi.of_strings (Nat.le_refl _) fun _ => rfl, Nat.le_refl _, hp, fun text htext => ?_⟩
    obtain ⟨stored, hlive, rfl⟩ := Option.map_eq_some_iff.mp htext
    obtain ⟨hstored, hexpire⟩ := live_eq_some.mp hlive
    obtain ⟨summary, loadedAt, writtenAt, hparse, hsource, hwritten, expireAt, htime, hbound⟩ :=
      hi productId stored hstored
    have hclock := hexpire expireAt htime
    exact ⟨summary, hparse, loadedAt, writtenAt, hsource, hwritten, hp.trans (hclock.trans hbound)⟩
  · rintro value s s' hclock ⟨hp, hfound⟩
    refine ⟨begun_lasting since s s' hclock hp, fun text htext => ?_⟩
    obtain ⟨summary, hparse, hfresh⟩ := hfound text htext
    exact ⟨summary, hparse, fresh_lasting _ _ _ s s' hclock hfresh⟩

theorem getCachedProduct_spec : (productLedger products productOf json).Triple t (Begun since)
    (getCachedJson json (productKey productId))
    (FoundProduct products productId since) NoSyntaxError := by
  refine .bind productGet_spec fun value => ?_
  cases value with
  | none => exact .pure (found_lasting _ _ _).stable fun _ _ h => .none h.1
  | some text =>
    intro s hi h
    obtain ⟨summary, hparse, hfresh⟩ := h.2 text rfl
    have hfound : (productLedger products productOf json).Triple t
        (FoundProduct products productId since (some summary)) (pure (some summary))
        (FoundProduct products productId since) NoSyntaxError :=
      .pure (found_lasting _ _ _).stable fun _ _ h => h
    dsimp only
    rw [hparse]
    exact hfound s hi (.some h.1 hfresh)

theorem productKept_spec {o : CacheOp} (hjitter : o ≠ .ttlJitter) (hloader : o ≠ .loader) (hP : Lasting P)
    (h : ∀ (s s' : CacheState T ProductSummary) a, o.exec json t s = some (a, s') → s'.clock = s.clock ∧
      ∀ productId, s'.strings (productKey productId) = s.strings (productKey productId)) :
    (productLedger products productOf json).Triple t P (Prog.perform o) (fun _ => P) NoSyntaxError := by
  apply productCommand_spec hjitter hloader hP (fun _ => hP) (fun _ _ _ _ h => h) fun _ _ => by simp [NoSyntaxError]
  intro s a s' hi hp hexec
  obtain ⟨hclock, hstrings⟩ := h s s' a hexec
  exact ⟨hi.of_strings hclock.ge hstrings, hclock.ge, hP s s' hclock.ge hp⟩

theorem productLock_spec (key : String) (hP : Lasting P) : (productLedger products productOf json).Triple t P
    (Prog.perform (CacheOp.setPxNx (lockKeyOf key) token lockTtlMs)) (fun _ => P) NoSyntaxError := by
  apply productKept_spec (by simp) (by simp) hP
  intro s s' locked hexec
  simp only [CacheOp.exec] at hexec
  split at hexec
  · cases hexec
    exact ⟨rfl, fun _ => rfl⟩
  · cases hexec
    refine ⟨rfl, fun productId => ?_⟩
    change s.strings.set (lockKeyOf key) token (s.clock + lockTtlMs) (productKey productId) = _
    exact Strings.set_other (productKey_ne_lockKey productId key)

theorem productRelease_spec (key : String) (hP : Lasting P) : (productLedger products productOf json).Triple t P
    (Prog.perform (CacheOp.releaseLock (lockKeyOf key) token)) (fun _ => P) NoSyntaxError := by
  apply productKept_spec (by simp) (by simp) hP
  intro s s' _ hexec
  simp only [CacheOp.exec, Option.some.injEq, Prod.mk.injEq, true_and] at hexec
  split at hexec
  · subst hexec
    refine ⟨rfl, fun productId => ?_⟩
    change s.strings.del (lockKeyOf key) (productKey productId) = _
    exact Strings.del_other (productKey_ne_lockKey productId key)
  · subst hexec
    exact ⟨rfl, fun _ => rfl⟩

theorem productStart_spec (place : LoadPlace) (hP : Lasting P) : (productLedger products productOf json).Triple t P
    (Prog.perform (CacheOp.startLoader place)) (fun _ => P) NoSyntaxError := by
  apply productKept_spec (by simp) (by simp) hP
  intro s s' _ hexec
  cases hexec
  exact ⟨rfl, fun _ => rfl⟩

theorem productNow_spec (hP : Lasting P) : (productLedger products productOf json).Triple t P
    (Prog.perform CacheOp.now) (fun _ => P) NoSyntaxError := by
  apply productKept_spec (by simp) (by simp) hP
  intro s s' _ hexec
  cases hexec
  exact ⟨rfl, fun _ => rfl⟩

theorem productSleep_spec (time : ℕ) (hP : Lasting P) : (productLedger products productOf json).Triple t P
    (Prog.perform (CacheOp.sleepUntil time)) (fun _ => P) NoSyntaxError := by
  apply productKept_spec (by simp) (by simp) hP
  intro s s' _ hexec
  simp only [CacheOp.exec, Option.ite_none_right_eq_some, Option.some.injEq, Prod.mk.injEq] at hexec
  obtain ⟨-, -, rfl⟩ := hexec
  exact ⟨rfl, fun _ => rfl⟩

theorem productLoader_spec : (productLedger products productOf json).Triple t (Begun since)
    (Prog.perform CacheOp.loader)
    (fun value s => ∃ summary, value = some summary ∧ Loaded products (productOf t) since summary s) NoSyntaxError := by
  apply Discipline.Triple.perform (begun_lasting since).stable
  · intro s r s' hi hp hperform
    obtain ⟨hperform, hloads⟩ := hperform
    cases hperform with
    | answer _ hexec => cases hexec
    | lost _ _ hexec => cases hexec
    | refuse ho => exact ho.elim
    | loaded hclock value =>
      refine ⟨⟨hi.of_strings hclock fun _ => rfl, hclock, fun _ _ => trivial⟩, ?_⟩
      obtain ⟨summary, rfl, -⟩ := loadProductFromDatabase_ok hloads
      exact ⟨summary, rfl, _, Nat.le_trans hp hclock, Nat.le_refl _, hloads⟩
    | loaderFailed => exact ⟨allows_self hi, by simp [Discipline.Post, NoSyntaxError]⟩
  · exact fun s s' hi _ hcrash => crash_allowed s s' hi hcrash
  · exact fun value => .exists fun summary => .and .const (loaded_lasting _ _ _).stable
  · exact fun _ => .const

theorem productTtl_spec (hP : Lasting P) : (productLedger products productOf json).Triple t P getCacheTtlSeconds
    (fun ttl s => ttl * 1000 ≤ maxTtlMs ∧ P s) NoSyntaxError := by
  refine .bind (R := fun jitter s => jitter ≤ cacheTtlJitterSeconds ∧ P s) ?_ fun jitter => ?_
  · apply Discipline.Triple.perform hP.stable
    · intro s r s' hi hp hperform
      obtain ⟨hperform, -⟩ := hperform
      cases hperform with
      | answer _ hexec => cases hexec
      | lost _ _ hexec => cases hexec
      | refuse ho => exact ho.elim
      | jitter hn => exact ⟨allows_self hi, hn, hp⟩
    · exact fun s s' hi _ hcrash => crash_allowed s s' hi hcrash
    · exact fun jitter => .and .const hP.stable
    · exact fun _ => .const
  · have hbound (s : CacheState T ProductSummary) (h : jitter ≤ cacheTtlJitterSeconds ∧ P s) :
        (cacheTtlSeconds + jitter) * 1000 ≤ maxTtlMs ∧ P s :=
      ⟨Nat.mul_le_mul_right 1000 (Nat.add_le_add_left h.1 _), h.2⟩
    exact .pure (.and .const hP.stable) fun s _ h => hbound s h

theorem productSetEx_spec {summary : ProductSummary} {ttlSeconds : ℕ} (httl : ttlSeconds * 1000 ≤ maxTtlMs) :
    (productLedger products productOf json).Triple t (Loaded products productId since summary)
      (Prog.perform (CacheOp.setEx (productKey productId) (json.stringify (some summary)) ttlSeconds))
      (fun _ => Loaded products productId since summary) fun _ => Loaded products productId since summary := by
  have hlasting : Lasting (T := T) (Loaded products productId since summary) := loaded_lasting productId since summary
  apply productCommand_spec (by simp) (by simp) hlasting (fun _ => hlasting) (fun _ => hlasting) fun _ h => h
  intro s _ s' hi hp hexec
  cases hexec
  refine ⟨fun other stored hstored => ?_, Nat.le_refl _, hp⟩
  by_cases hother : other = productId
  · subst hother
    have hwritten : stored = ⟨json.stringify (some summary), some (s.clock + ttlSeconds * 1000)⟩ :=
      Option.some.inj (hstored.symm.trans (Function.update_self ..))
    subst hwritten
    obtain ⟨loadedAt, -, hloaded, hread⟩ := hp
    exact ⟨summary, loadedAt, s.clock, json.parse_stringify _, ⟨hread, hloaded⟩, Nat.le_refl _, _, rfl,
      Nat.add_le_add_left httl _⟩
  · have hkey : productKey other ≠ productKey productId := fun h => hother (productKey_injective h)
    exact hi other stored ((Strings.set_other hkey).symm.trans hstored)

end Operations

section Calls

variable {since : ℕ} {token : String}

theorem loadAndCache_spec (place : LoadPlace) : (productLedger products productOf json).Triple t (Begun since)
    (do
      let loaded ← callLoader place
      let _ ← setCachedJson json (productKey (productOf t)) loaded
      pure loaded) (Summarized products (productOf t) since) NoSyntaxError := by
  refine .bind (.bind (productStart_spec place (begun_lasting since)) fun _ => productLoader_spec) fun loaded =>
    .exists_pre fun summary => .pure_pre ?_
  rintro rfl
  have hlasting : Lasting (T := T) (Loaded products (productOf t) since summary) := loaded_lasting _ since summary
  refine .bind (R := fun _ => Loaded products (productOf t) since summary) ?_ fun _ => ?_
  · refine .bind (productTtl_spec hlasting) fun ttl => .pure_pre fun httl => ?_
    refine .bind (R := fun _ => Loaded products (productOf t) since summary) ?_ fun _ =>
      .pure hlasting.stable fun _ _ h => h
    exact .handle (productSetEx_spec httl) fun _ => .pure hlasting.stable fun _ _ h => h
  · exact .pure (summarized_lasting _ since _).stable fun s _ h => ⟨summary, rfl, h.fresh⟩

theorem foundProduct_spec {summary : ProductSummary} : (productLedger products productOf json).Triple t
    (FoundProduct products (productOf t) since (some summary)) (pure (some summary))
    (Summarized products (productOf t) since) NoSyntaxError :=
  .pure (summarized_lasting _ since _).stable fun _ _ h => ⟨summary, rfl, h.2 summary rfl⟩

theorem waitForProduct_spec (attempts : ℕ) : (productLedger products productOf json).Triple t (Begun since)
    (waitForValue json (productKey (productOf t)) attempts) (FoundProduct products (productOf t) since)
    NoSyntaxError := by
  induction attempts with
  | zero => exact .pure (found_lasting _ _ _).stable fun _ _ h => .none h
  | succ attempts ih =>
    refine .bind (productNow_spec (begun_lasting since)) fun start => ?_
    refine .bind (productSleep_spec _ (begun_lasting since)) fun _ => .bind getCachedProduct_spec fun found => ?_
    cases found with
    | some summary => exact .pure (found_lasting _ _ _).stable fun _ _ h => h
    | none => exact ih.pre fun _ _ h => h.1

theorem productFinally_spec {α : Type} {Q : α → CacheState T ProductSummary → Prop} {body : CacheCall ProductSummary α}
    {cleanup : CacheCall ProductSummary Unit} (hQ : ∀ a, Lasting (Q a))
    (hbody : (productLedger products productOf json).Triple t P body Q NoSyntaxError)
    (hcleanup : ∀ {R : CacheState T ProductSummary → Prop}, Lasting R →
      (productLedger products productOf json).Triple t R cleanup (fun _ => R) NoSyntaxError) :
    (productLedger products productOf json).Triple t P (tryFinally body cleanup) Q NoSyntaxError := by
  have hpost (result : Except CacheFailure α) : Lasting (T := T) (Discipline.Post Q NoSyntaxError result) := by
    cases result with
    | ok a => exact hQ a
    | error e => exact fun _ _ _ h => h
  refine .bind (R := Discipline.Post Q NoSyntaxError) ?_ fun result => ?_
  · refine .handle (.bind hbody fun a => .pure (hQ a).stable fun _ _ h => h) fun e => ?_
    exact .pure (hpost (.error e)).stable fun _ _ h => h
  · refine .bind (hcleanup (hpost result)) fun _ => ?_
    cases result with
    | ok a => exact .pure (hQ a).stable fun _ _ h => h
    | error e => exact .throw (hpost (.error e)).stable fun _ _ h => h

theorem getProductSummaryCached_spec : (productLedger products productOf json).Triple t (Begun since)
    (getProductSummaryCached json (productOf t) token) (Summarized products (productOf t) since) NoSyntaxError := by
  refine .bind getCachedProduct_spec fun cached => ?_
  cases cached with
  | some summary => exact foundProduct_spec
  | none =>
    refine .bind ((productLock_spec _ (begun_lasting since)).pre fun _ _ h => h.1) fun locked => ?_
    cases locked with
    | true =>
      refine productFinally_spec (summarized_lasting _ since) ?_ fun hR => productRelease_spec _ hR
      refine .bind getCachedProduct_spec fun secondCheck => ?_
      cases secondCheck with
      | some summary => exact foundProduct_spec
      | none => exact (loadAndCache_spec .underLock).pre fun _ _ h => h.1
    | false =>
      refine .bind (waitForProduct_spec _) fun found => ?_
      cases found with
      | some summary => exact foundProduct_spec
      | none => exact (loadAndCache_spec .fallback).pre fun _ _ h => h.1

end Calls

end Rules

section Runs

abbrev ProductConfig (T : Type) :=
  Config T (CacheState T ProductSummary) CacheOp (CacheOp.Res ProductSummary) CacheFailure (Option ProductSummary)

/-- Whatever fails, and however the calls interleave: a cached text is always read back, and a call answers
with what the table held for its product at some time, in a copy that was not written more than six minutes
before the call began. -/
theorem product_summaries_fresh [DecidableEq T] {products : ℕ → List ProductSummaryRow} {productOf : T → ℕ}
    {json : Json ProductSummary} {tokens : T → String} {s : CacheState T ProductSummary}
    (hs : ∀ productId, s.strings (productKey productId) = none)
    {c d : ProductConfig T}
    (hc : (productCache products productOf json).Reachable
      (.start s fun t => getProductSummaryCached json (productOf t) (tokens t)) c)
    (hd : (productCache products productOf json).Reachable c d) {t : T}
    (ht : c.prog t = some (getProductSummaryCached json (productOf t) (tokens t))) :
    d.outcome t ≠ some (.error .syntaxError) ∧
    ∀ answer, d.outcome t = some (.ok answer) → ∃ summary loadedAt writtenAt, answer = some summary ∧
      summary.id = productOf t ∧ loadProductFromDatabase (products loadedAt) (productOf t) = .ok (some summary) ∧
      loadedAt ≤ writtenAt ∧ writtenAt ≤ d.shared.clock ∧ c.shared.clock ≤ writtenAt + 360000 := by
  have hsourced : SourcedCache products json s := fun productId stored hstored => by
    cases (hs productId).symm.trans hstored
  have hstart : ∀ u, (productLedger products productOf json).Holds u
      (Discipline.Post (Summarized products (productOf u) 0) NoSyntaxError) s
      (some (getProductSummaryCached json (productOf u) (tokens u))) :=
    fun u => getProductSummaryCached_spec s hsourced (Nat.zero_le _)
  obtain ⟨hi, -, hall⟩ := Discipline.reachable_holds hsourced hstart hc
  have hagain : (productLedger products productOf json).Holds t
      (Discipline.Post (Summarized products (productOf t) c.shared.clock) NoSyntaxError) c.shared (c.prog t) := by
    rw [ht]
    exact getProductSummaryCached_spec c.shared hi (Nat.le_refl _)
  obtain ⟨hi', -, hall'⟩ := Discipline.reachable_holds hi (Discipline.Holds.update hall hagain) hd
  have hended {r : Except CacheFailure (Option ProductSummary)} (hr : d.outcome t = some r) :
      Discipline.Post (Summarized products (productOf t) c.shared.clock) NoSyntaxError r d.shared := by
    have hsafe := hall' t
    rw [Config.outcome_eq_some.mp hr, Function.update_self] at hsafe
    exact Discipline.Safe.outcome hsafe hi'
  refine ⟨fun herror => hended herror rfl, fun answer hanswer => ?_⟩
  obtain ⟨summary, rfl, loadedAt, writtenAt, hsource, hwritten, hsince⟩ := hended hanswer
  obtain ⟨found, hfound, hid⟩ := loadProductFromDatabase_ok hsource.loaded
  cases hfound
  exact ⟨summary, loadedAt, writtenAt, rfl, hid, hsource.loaded, hsource.order, hwritten, hsince⟩

def ProductSummary.json (summary : ProductSummary) : JsonValue :=
  .object
    [("id", .number (.integer summary.id)),
      ("name", .string summary.name),
      ("price", .number (.integer summary.price)),
      ("stockQuantity", .number (.integer summary.stockQuantity))]

def ProductSummary.ofJson : JsonValue → Option ProductSummary
  | .object [(_, .number (.integer id)), (_, .string name), (_, .number (.integer price)),
      (_, .number (.integer stockQuantity))] => some ⟨id.toNat, name, price.toNat, stockQuantity.toNat⟩
  | _ => none

def summaryJson : Json ProductSummary where
  stringify summary := String.ofList (JsonValue.stringify (summary.elim .null ProductSummary.json))
  parse text := (JsonValue.parse text.toList).bind fun value =>
    if value.truthy then (ProductSummary.ofJson value).map some else some none
  parse_stringify summary := by
    cases summary with
    | none => decide
    | some summary =>
      have hnames : ["id", "name", "price", "stockQuantity"].Nodup := by decide
      have hplain : JsonValue.Plain summary.json := by
        unfold ProductSummary.json
        refine .object hnames fun field hfield => ?_
        simp only [List.mem_cons, List.not_mem_nil, or_false] at hfield
        rcases hfield with rfl | rfl | rfl | rfl
        · exact .number
        · exact .string
        · exact .number
        · exact .number
      rw [Option.elim_some, String.toList_ofList, JsonValue.parse_stringify hplain]
      rfl

def lampPrices (time : ℕ) : List ProductSummaryRow := [⟨1, "lamp", if time < 1000 then 100 else 120, 5⟩]

def lampSummary (price : ℕ) : ProductSummary := ⟨1, "lamp", price, 5⟩

def loadsTest (productId : ℕ) (o : CacheOp) (_ : CacheState ℕ ProductSummary)
    (r : Except CacheFailure (o.Res ProductSummary)) (s' : CacheState ℕ ProductSummary) : Bool :=
  match o, r with
  | .loader, .ok value => loadProductFromDatabase (lampPrices s'.clock) productId = .ok value
  | _, _ => true

theorem loads_of_test {t : ℕ} {o : CacheOp} {s s' : CacheState ℕ ProductSummary}
    {r : Except CacheFailure (o.Res ProductSummary)} (h : loadsTest 1 o s r s') :
    LoadsProduct lampPrices (fun _ => 1) t o s r s' := by
  cases o with
  | loader =>
    cases r with
    | ok value =>
      have hread : loadProductFromDatabase (lampPrices s'.clock) 1 = .ok value := of_decide_eq_true h
      exact hread
    | error e => trivial
  | _ => trivial

def lampCalls : ProductConfig ℕ :=
  .start ⟨0, fun _ => none, fun _ => none, [], []⟩ fun t => getProductSummaryCached summaryJson 1 (Nat.repr t)

@[reducible] def lampMoves : Moves (productCache lampPrices (fun _ : ℕ => 1) summaryJson) :=
  (cacheMoves summaryJson).restrict (fun _ => loadsTest 1) loads_of_test

def lampMiss (t clock price : ℕ) : List (ℕ × Option (CacheMove ProductSummary)) :=
  List.replicate 8 (t, some ⟨clock, 0, some (lampSummary price)⟩)

/-- The old price is answered while the copy lasts, and not after that. -/
theorem product_summaries_fresh_repriced : ∃ c d : ProductConfig ℕ,
    (productCache lampPrices (fun _ : ℕ => 1) summaryJson).Reachable lampCalls c ∧
    c.outcome 1 = some (.ok (some (lampSummary 100))) ∧ c.shared.clock = 400000 ∧
    d.outcome 3 = some (.ok (some (lampSummary 120))) ∧
    ∃ loadedAt writtenAt, loadProductFromDatabase (lampPrices loadedAt) 1 = .ok (some (lampSummary 120)) ∧
      loadedAt ≤ writtenAt ∧ 40000 ≤ writtenAt := by
  obtain ⟨c, d, hc, hd, hlater, hold, hclock, hnew⟩ := exists_reachable_later (S := lampMoves)
    (lampMiss 0 0 100 ++ [(1, some ⟨200000, 0, none⟩)] ++ lampMiss 2 400000 120) [(3, some ⟨400001, 0, none⟩)]
    (c := lampCalls) (t := 3) (P := fun (c d : ProductConfig ℕ) => c.outcome 1 = some (.ok (some (lampSummary 100))) ∧
      c.shared.clock = 400000 ∧ d.outcome 3 = some (.ok (some (lampSummary 120)))) (by decide) (by decide +kernel)
  obtain ⟨summary, loadedAt, writtenAt, hsummary, -, hloaded, horder, -, hsince⟩ :=
    (product_summaries_fresh (fun _ => rfl) hc hd hlater).2 _ hnew
  cases hsummary
  exact ⟨c, d, hc, hold, hclock, hnew, loadedAt, writtenAt, hloaded, horder, by omega⟩

end Runs

end Marketplace
