import Marketplace.Concurrent.Trace
import Marketplace.SingleFlight

namespace Marketplace

open Concurrent

variable {V : Type}

/-- What the operations of a call may answer: a command of Redis fails or answers anything, and so does the
loader. -/
inductive CacheAnswer : (o : CacheOp) → Except CacheFailure (o.Res V) → Prop
  | answer {o : CacheOp} (r : o.Res V) : CacheAnswer o (.ok r)
  | redis {o : CacheOp} (ho : o.IsCommand) : CacheAnswer o (.error .redis)
  | loader : CacheAnswer .loader (.error .loader)

abbrev CacheStep (V : Type) := Performed Unit CacheOp (CacheOp.Res V) CacheFailure

abbrev CacheRuns {α : Type} (p : CacheCall V α) (steps : List (CacheStep V)) (r : Except CacheFailure α) : Prop :=
  (Machine.answering (T := Unit) CacheAnswer).Runs () p () steps r ()

def LoaderFailed : CacheStep V → Prop
  | ⟨.loader, _, .error _, _⟩ => True
  | _ => False

-- `SET EX` is not among the commands: its failure is caught
def Trouble (json : Json V) : CacheStep V → Prop
  | ⟨.get _, _, .ok (some text), _⟩ => json.parse text = none
  | ⟨.get _, _, .error _, _⟩ => True
  | ⟨.setPxNx _ _ _, _, .error _, _⟩ => True
  | ⟨.releaseLock _ _, _, .error _, _⟩ => True
  | _ => False

-- the loader has answered `value`, or a GET has read it
def Gives (json : Json V) (value : Option V) : CacheStep V → Prop
  | ⟨.get _, _, .ok (some text), _⟩ => json.parse text = some value
  | ⟨.loader, _, .ok loaded, _⟩ => loaded = value
  | _ => False

variable {α β : Type} {json : Json V}

/-- Unless the loader fails, the call ends with a value exactly if there is no trouble, and `G` holds of the
value. -/
def Resolves (json : Json V) (G : List (CacheStep V) → α → Prop) (p : CacheCall V α) : Prop :=
  ∀ steps r, CacheRuns p steps r → (∀ step ∈ steps, ¬LoaderFailed step) →
    match r with
    | .ok a => (∀ step ∈ steps, ¬Trouble json step) ∧ G steps a
    | .error _ => ∃ step ∈ steps, Trouble json step

namespace Resolves

variable {G : List (CacheStep V) → α → Prop} {G' : List (CacheStep V) → β → Prop}

theorem pure {a : α} (h : G [] a) : Resolves json G (.done (.ok a)) := by
  intro steps r hruns _
  obtain ⟨rfl, rfl, -⟩ := hruns.done_eq
  exact ⟨by simp, h⟩

theorem bind {p : CacheCall V α} {f : α → CacheCall V β} (hp : Resolves json G p)
    (hf : ∀ a first, G first a → Resolves json (fun rest b => G' (first ++ rest) b) (f a)) :
    Resolves json G' (p.bind f) := by
  intro steps r hruns hloader
  rcases hruns.bind_cases with ⟨e, rfl, hfirst⟩ | ⟨a, ⟨⟩, first, rest, rfl, hfirst, hrest⟩
  · exact hp steps _ hfirst hloader
  · obtain ⟨hcalm, hg⟩ := hp first _ hfirst fun step hstep => hloader step (List.mem_append_left _ hstep)
    have h := hf a first hg rest r hrest fun step hstep => hloader step (List.mem_append_right _ hstep)
    cases r with
    | ok b => exact ⟨List.forall_mem_append.mpr ⟨hcalm, h.1⟩, h.2⟩
    | error e =>
      obtain ⟨step, hstep, htrouble⟩ := h
      exact ⟨step, List.mem_append_right _ hstep, htrouble⟩

theorem mono {F : List (CacheStep V) → α → Prop} {p : CacheCall V α} (hp : Resolves json F p)
    (h : ∀ steps a, F steps a → G steps a) : Resolves json G p := by
  intro steps r hruns hloader
  have hr := hp steps r hruns hloader
  cases r with
  | ok a => exact ⟨hr.1, h steps a hr.2⟩
  | error e => exact hr

theorem perform {o : CacheOp} {G : List (CacheStep V) → o.Res V → Prop}
    (hok : ∀ r, ¬Trouble json ⟨o, (), .ok r, ()⟩ ∧ G [⟨o, (), .ok r, ()⟩] r)
    (herror : ∀ e (answer : Except CacheFailure (o.Res V)), answer = .error e → CacheAnswer o answer →
      ¬LoaderFailed ⟨o, (), answer, ()⟩ → Trouble json ⟨o, (), answer, ()⟩) :
    Resolves json G (Prog.perform o) := by
  intro steps r hruns hloader
  obtain ⟨rfl, hanswer⟩ := hruns.perform_eq
  cases r with
  | ok r =>
    obtain ⟨hcalm, hg⟩ := hok r
    exact ⟨by simpa using hcalm, hg⟩
  | error e => exact ⟨_, List.mem_singleton_self _, herror e _ rfl hanswer (hloader _ (List.mem_singleton_self _))⟩

theorem untroubled (o : CacheOp) (hok : ∀ r, ¬Trouble json ⟨o, (), .ok r, ()⟩)
    (herror : ∀ e (answer : Except CacheFailure (o.Res V)), answer = .error e → ¬CacheAnswer o answer) :
    Resolves json (fun _ _ => True) (Prog.perform o) :=
  .perform (fun r => ⟨hok r, trivial⟩) fun e answer he hanswer _ => absurd hanswer (herror e answer he)

theorem attempt_runs {body : CacheCall V α} {steps : List (CacheStep V)}
    {r : Except CacheFailure (Except CacheFailure α)}
    (h : CacheRuns (Prog.handle (body.bind fun value => .done (.ok (.ok value)))
      fun error => .done (.ok (.error error))) steps r) :
    ∃ result, r = .ok result ∧ CacheRuns body steps result := by
  rcases h.handle_cases with ⟨result, rfl, hbody⟩ | ⟨e, ⟨⟩, first, rest, rfl, hbody, hrest⟩
  · rcases hbody.bind_cases with ⟨e, ⟨⟩, -⟩ | ⟨a, ⟨⟩, first, rest, rfl, hvalue, hrest⟩
    obtain ⟨rfl, ⟨⟩, -⟩ := hrest.done_eq
    exact ⟨_, rfl, by simpa using hvalue⟩
  · obtain ⟨rfl, rfl, -⟩ := hrest.done_eq
    rcases hbody.bind_cases with ⟨e', ⟨⟩, herror⟩ | ⟨a, ⟨⟩, first, rest, rfl, -, hdone⟩
    · exact ⟨_, rfl, by simpa using herror⟩
    · obtain ⟨-, ⟨⟩, -⟩ := hdone.done_eq

theorem tryFinally {body : CacheCall V α} {cleanup : CacheCall V Unit} (hbody : Resolves json G body)
    (hcleanup : Resolves json (fun _ _ => True) cleanup) (hG : ∀ first rest a, G first a → G (first ++ rest) a) :
    Resolves json G (Marketplace.tryFinally body cleanup) := by
  intro steps r hruns hloader
  rcases hruns.bind_cases with ⟨e, rfl, hfirst⟩ | ⟨result, ⟨⟩, first, rest, rfl, hfirst, hrest⟩
  · obtain ⟨result, ⟨⟩, -⟩ := attempt_runs hfirst
  obtain ⟨result, ⟨⟩, hfirst⟩ := attempt_runs hfirst
  have hresult := hbody first result hfirst fun step hstep => hloader step (List.mem_append_left _ hstep)
  have hafter : ∀ step ∈ rest, ¬LoaderFailed step := fun step hstep => hloader step (List.mem_append_right _ hstep)
  rcases hrest.bind_cases with ⟨e, rfl, hcleaned⟩ | ⟨⟨⟩, ⟨⟩, middle, last, rfl, hcleaned, hend⟩
  · obtain ⟨step, hstep, htrouble⟩ := hcleanup _ _ hcleaned hafter
    exact ⟨step, List.mem_append_right _ hstep, htrouble⟩
  · have hcalm := (hcleanup _ _ hcleaned fun step hstep => hafter step (List.mem_append_left _ hstep)).1
    cases result with
    | ok a =>
      obtain ⟨rfl, rfl, -⟩ := hend.done_eq
      refine ⟨List.forall_mem_append.mpr ⟨hresult.1, by simpa using hcalm⟩, hG _ _ a hresult.2⟩
    | error e =>
      obtain ⟨rfl, rfl, -⟩ := hend.done_eq
      obtain ⟨step, hstep, htrouble⟩ := hresult
      exact ⟨step, List.mem_append_left _ hstep, htrouble⟩

end Resolves

section Code

def Given (json : Json V) (steps : List (CacheStep V)) (value : Option V) : Prop :=
    ∃ step ∈ steps, Gives json value step

def Found (json : Json V) (steps : List (CacheStep V)) (value : Option V) : Prop :=
  ∀ v, value = some v → Given json steps (some v)

theorem Given.append {first rest : List (CacheStep V)} {value : Option V} (h : Given json first value) :
    Given json (first ++ rest) value := by
  obtain ⟨step, hstep, hgives⟩ := h
  exact ⟨step, List.mem_append_left _ hstep, hgives⟩

theorem Given.append_right {first rest : List (CacheStep V)} {value : Option V} (h : Given json rest value) :
    Given json (first ++ rest) value := by
  obtain ⟨step, hstep, hgives⟩ := h
  exact ⟨step, List.mem_append_right _ hstep, hgives⟩

theorem getCachedJson_resolves (key : String) : Resolves json (Found json) (getCachedJson json key) := by
  intro steps r hruns _
  rcases hruns.bind_cases with ⟨e, rfl, hget⟩ | ⟨answer, ⟨⟩, first, rest, rfl, hget, hrest⟩
  · obtain ⟨rfl, -⟩ := hget.perform_eq
    exact ⟨_, List.mem_singleton_self _, trivial⟩
  · obtain ⟨rfl, -⟩ := hget.perform_eq
    cases answer with
    | none =>
      obtain ⟨rfl, rfl, -⟩ := hrest.done_eq
      exact ⟨by simp [Trouble], nofun⟩
    | some text =>
      dsimp only at hrest
      split at hrest
      · rename_i htext
        obtain ⟨rfl, rfl, -⟩ := hrest.done_eq
        exact ⟨_, List.mem_singleton_self _, htext⟩
      · rename_i parsed htext
        obtain ⟨rfl, rfl, -⟩ := hrest.done_eq
        refine ⟨by simp [Trouble, htext], ?_⟩
        rintro v rfl
        exact ⟨_, List.mem_singleton_self _, htext⟩

theorem setCachedJson_resolves (key : String) (value : Option V) :
    Resolves json (fun _ _ => True) (setCachedJson json key value) := by
  refine .bind (G := fun _ _ => True) (.bind (.untroubled .ttlJitter (fun _ => id) ?_) fun jitter _ _ => .pure trivial)
    fun ttl _ _ => .bind (G := fun _ _ => True) ?_ fun _ _ _ => .pure trivial
  · rintro e _ rfl ⟨⟩
    contradiction
  · intro steps r hruns _
    rcases hruns.handle_cases with ⟨a, rfl, hset⟩ | ⟨e, ⟨⟩, first, rest, rfl, hset, hrest⟩
    · obtain ⟨rfl, -⟩ := hset.perform_eq
      exact ⟨by simp [Trouble], trivial⟩
    · obtain ⟨rfl, -⟩ := hset.perform_eq
      obtain ⟨rfl, rfl, -⟩ := hrest.done_eq
      exact ⟨by simp [Trouble], trivial⟩

theorem waitForValue_resolves (key : String) (attempts : ℕ) :
    Resolves json (Found json) (waitForValue json key attempts) := by
  induction attempts with
  | zero => exact .pure nofun
  | succ attempts ih =>
    refine .bind (.untroubled .now (fun _ => id) ?_) fun start _ _ =>
      .bind (.untroubled (.sleepUntil (start + lockWaitMs)) (fun _ => id) ?_) fun _ _ _ =>
        .bind (getCachedJson_resolves key) fun found first hfound => ?_
    · rintro e _ rfl ⟨⟩
      contradiction
    · rintro e _ rfl ⟨⟩
      contradiction
    cases found with
    | some value =>
      refine .pure ?_
      rintro v ⟨⟩
      exact ((hfound value rfl).append.append_right).append_right
    | none => exact ih.mono fun steps value hvalue v hv => ((hvalue v hv).append_right.append_right).append_right

theorem callLoader_resolves (place : LoadPlace) : Resolves json (Given json) (callLoader place) := by
  refine .bind (.untroubled (.startLoader place) (fun _ => id) ?_) fun _ first _ =>
    .perform (o := .loader) (G := fun rest value => Given json (first ++ rest) value) ?_ ?_
  · rintro e _ rfl ⟨⟩
    contradiction
  · exact fun value => ⟨id, Given.append_right ⟨_, List.mem_singleton_self _, rfl⟩⟩
  · rintro e _ rfl _ hloader
    exact absurd trivial hloader

theorem loadAndCache_resolves (key : String) (place : LoadPlace) : Resolves json (Given json)
    (callLoader place >>= fun loaded => setCachedJson json key loaded >>= fun _ => pure loaded) := by
  refine .bind (callLoader_resolves place) fun loaded first hloaded => ?_
  refine .bind (setCachedJson_resolves key loaded) fun _ _ _ => .pure ?_
  exact hloaded.append

theorem getOrLoadCached_resolves (key token : String) :
    Resolves json (Given json) (getOrLoadCached json key token) := by
  refine .bind (getCachedJson_resolves key) fun cached first hcached => ?_
  cases cached with
  | some value => exact .pure (hcached value rfl).append
  | none =>
    refine .bind (G := fun _ _ => True) (.perform ?_ ?_) fun (locked : Bool) second _ => ?_
    · exact fun _ => ⟨id, trivial⟩
    · exact fun e _ he _ _ => he ▸ trivial
    cases locked with
    | true =>
      refine (Resolves.tryFinally (G := Given json) ?_ (.perform (o := .releaseLock (lockKeyOf key) token) ?_ ?_)
        fun _ _ _ h => h.append).mono fun _ _ h => h.append_right.append_right
      · refine .bind (getCachedJson_resolves key) fun secondCheck third hsecond => ?_
        cases secondCheck with
        | some value => exact .pure (hsecond value rfl).append
        | none => exact (loadAndCache_resolves key .underLock).mono fun _ _ h => h.append_right
      · exact fun _ => ⟨id, trivial⟩
      · exact fun e _ he _ _ => he ▸ trivial
    | false =>
      refine (Resolves.bind (waitForValue_resolves key lockWaitAttempts) fun found third hfound => ?_ :
        Resolves json _ _)
      cases found with
      | some value => exact .pure (hfound value rfl).append.append_right.append_right
      | none =>
        exact (loadAndCache_resolves key .fallback).mono fun _ _ h => h.append_right.append_right.append_right

end Code

section Calls

variable {T : Type} [DecidableEq T]

theorem CachePerforms.answer_of {t : T} {o : CacheOp} {s s' : CacheState T V} {r : Except CacheFailure (o.Res V)}
    (h : CachePerforms json t o s r s') : CacheAnswer o r := by
  cases h with
  | answer => exact .answer _
  | lost ho => exact .redis ho
  | refuse ho => exact .redis ho
  | jitter => exact .answer _
  | loaded => exact .answer _
  | loaderFailed => exact .loader

theorem cache_call_runs {code : T → CacheCall V α} {s : CacheState T V}
    {d : Config T (CacheState T V) CacheOp (CacheOp.Res V) CacheFailure α}
    (h : (cacheMachine json).Reachable (.start s code) d) {t : T} {r : Except CacheFailure α}
    (hr : d.outcome t = some r) :
    ∃ steps, CacheRuns (code t) steps r := by
  obtain ⟨steps, hsteps⟩ := h.answering (fun hperform => CachePerforms.answer_of hperform)
    (Config.outcome_eq_some.mp hr) .done
  exact ⟨_, hsteps⟩

/-- A call whose loader succeeds resolves, with the cached value or the loader's, exactly if none of its GET,
SET NX and EVAL commands fails and no GET reads a text that is not JSON. -/
theorem getOrLoadCached_resolves_iff {key token : String} {steps : List (CacheStep V)}
    {r : Except CacheFailure (Option V)} (h : CacheRuns (getOrLoadCached json key token) steps r)
    (hloader : ∀ step ∈ steps, ¬LoaderFailed step) :
    (∃ value, r = .ok value ∧ Given json steps value) ↔ ∀ step ∈ steps, ¬Trouble json step := by
  have hr := getOrLoadCached_resolves key token steps r h hloader
  cases r with
  | ok value => exact ⟨fun _ => hr.1, fun _ => ⟨value, rfl, hr.2⟩⟩
  | error e =>
    obtain ⟨step, hstep, htrouble⟩ := hr
    constructor
    · rintro ⟨value, ⟨⟩, -⟩
    · exact fun hcalm => absurd htrouble (hcalm step hstep)

-- a caller that takes the lock while the writes fail, and in the second case the release as well
def outage (releaseFails : Bool) : (o : CacheOp) → Unit → Except CacheFailure (o.Res ℕ) × Unit
  | .get _, _ => (.ok none, ())
  | .setPxNx _ _ _, _ => (.ok true, ())
  | .setEx _ _ _, _ => (.error .redis, ())
  | .releaseLock _ _, _ => (if releaseFails then .error .redis else .ok (), ())
  | .ttlJitter, _ => (.ok 0, ())
  | .startLoader _, _ => (.ok (), ())
  | .loader, _ => (.ok (some 7), ())
  | .now, _ => (.ok 0, ())
  | .sleepUntil _, _ => (.ok (), ())

theorem outage_answers (releaseFails : Bool) (o : CacheOp) (s : Unit) : CacheAnswer o (outage releaseFails o s).1 := by
  cases o with
  | setEx => exact .redis trivial
  | releaseLock =>
    cases releaseFails with
    | false => exact .answer _
    | true => exact .redis trivial
  | _ => exact .answer _

theorem outage_runs (releaseFails : Bool) :
    ∃ steps, CacheRuns (getOrLoadCached numberJson "product-summary:1" "a") steps
    (if releaseFails then .error .redis else .ok (some 7)) ∧ (∀ step ∈ steps, ¬LoaderFailed step) ∧
      Given numberJson steps (some 7) ∧ (releaseFails = false → ∀ step ∈ steps, ¬Trouble numberJson step) := by
  have hruns : CacheRuns (getOrLoadCached numberJson "product-summary:1" "a")
      (Prog.trace (outage releaseFails) (getOrLoadCached numberJson "product-summary:1" "a") ())
      (Prog.run (outage releaseFails) (getOrLoadCached numberJson "product-summary:1" "a") ()).1 :=
    Prog.run_runs (outage_answers releaseFails) _ ()
  refine ⟨Prog.trace (outage releaseFails) (getOrLoadCached numberJson "product-summary:1" "a") (), ?_,
    Prog.forall_trace ?_ _ _, ⟨⟨.loader, (), .ok (some 7), ()⟩, ?_, rfl⟩, fun hfails => Prog.forall_trace ?_ _ _⟩
  · cases releaseFails <;> exact hruns
  · intro o s
    cases o <;> exact id
  · exact .tail _ (.tail _ (.tail _ (.tail _ (.head _))))
  · intro o s
    subst hfails
    cases o <;> exact id

theorem getOrLoadCached_resolves_unwritten : ∃ steps,
    CacheRuns (getOrLoadCached numberJson "product-summary:1" "a") steps (.ok (some 7)) ∧
      Given numberJson steps (some 7) := by
  obtain ⟨steps, hruns, hloader, -, hcalm⟩ := outage_runs false
  obtain ⟨value, ⟨⟩, hgiven⟩ := (getOrLoadCached_resolves_iff hruns hloader).mpr (hcalm rfl)
  exact ⟨steps, hruns, hgiven⟩

-- the loader has answered, and the EVAL in the `finally` block fails
theorem loaded_value_lost : ∃ steps, CacheRuns (getOrLoadCached numberJson "product-summary:1" "a") steps
    (.error .redis) ∧
    (∀ step ∈ steps, ¬LoaderFailed step) ∧ Given numberJson steps (some 7) := by
  obtain ⟨steps, hruns, hloader, hgiven, -⟩ := outage_runs true
  exact ⟨steps, hruns, hloader, hgiven⟩

end Calls

end Marketplace
