import Marketplace.Concurrent.Schedule
import Marketplace.Redis.Keys

namespace Marketplace

open Concurrent Redis

def cacheTtlSeconds : ℕ := 300

def cacheTtlJitterSeconds : ℕ := 60

def lockTtlMs : ℕ := 5000

def lockWaitMs : ℕ := 25

def lockWaitAttempts : ℕ := 200

/-- `JSON.stringify` and `JSON.parse` on the values of a loader, of which `none` is `null`. A text that is not
JSON is not parsed. -/
structure Json (V : Type) where
  stringify : Option V → String
  parse : String → Option (Option V)
  parse_stringify : ∀ value, parse (stringify value) = some value

inductive CacheFailure
  | redis
  | loader
  | syntaxError
  deriving DecidableEq, Repr

inductive LoadPlace
  | underLock
  | fallback
  deriving DecidableEq, Repr

inductive CacheOp
  | get (key : String)
  | setPxNx (key value : String) (ttlMs : ℕ)
  | setEx (key value : String) (ttlSeconds : ℕ)
  | releaseLock (lockKey token : String)
  | ttlJitter
  | startLoader (place : LoadPlace)
  | loader
  | now
  | sleepUntil (time : ℕ)

abbrev CacheOp.Res (V : Type) : CacheOp → Type
  | .get _ => Option String
  | .setPxNx _ _ _ => Bool
  | .setEx _ _ _ => Unit
  | .releaseLock _ _ => Unit
  | .ttlJitter => ℕ
  | .startLoader _ => Unit
  | .loader => Option V
  | .now => ℕ
  | .sleepUntil _ => Unit

/-- A lock holder that has neither found the value in its second check nor written it. -/
structure Filling where
  acquiredAt : ℕ
  loads : Bool
  deriving DecidableEq, Repr

-- `filling`, `loads` (the calls of the loader) and `loaded` (its answers) are history variables
structure CacheState (T V : Type) where
  clock : ℕ
  strings : Strings
  filling : T → Option Filling
  loads : List LoadPlace
  loaded : List (Option V)

section Code

variable {V : Type}

abbrev CacheCall (V α : Type) : Type := Prog CacheOp (CacheOp.Res V) CacheFailure α

def getCachedJson (json : Json V) (key : String) : CacheCall V (Option V) := do
  match ← Prog.perform (CacheOp.get key) with
  | none => pure none
  | some value =>
    match json.parse value with
    | none => throw .syntaxError
    | some parsed => pure parsed

def getCacheTtlSeconds : CacheCall V ℕ := do
  let jitter ← Prog.perform CacheOp.ttlJitter
  pure (cacheTtlSeconds + jitter)

def setCachedJson (json : Json V) (key : String) (value : Option V) : CacheCall V ℕ := do
  let ttl ← getCacheTtlSeconds
  tryCatch (Prog.perform (CacheOp.setEx key (json.stringify value) ttl)) fun _ => pure ()
  pure ttl

def callLoader (place : LoadPlace) : CacheCall V (Option V) := do
  Prog.perform (CacheOp.startLoader place)
  Prog.perform CacheOp.loader

-- `try { body } finally { cleanup }`
def tryFinally {α : Type} (body : CacheCall V α) (cleanup : CacheCall V Unit) : CacheCall V α := do
  let result ← tryCatch (do
    let value ← body
    pure (Except.ok value)) fun error => pure (Except.error error)
  cleanup
  match result with
  | .ok value => pure value
  | .error error => throw error

def waitForValue (json : Json V) (key : String) : ℕ → CacheCall V (Option V)
  | 0 => pure none
  | attempts + 1 => do
    let start ← Prog.perform CacheOp.now
    Prog.perform (CacheOp.sleepUntil (start + lockWaitMs))
    match ← getCachedJson json key with
    | some value => pure (some value)
    | none => waitForValue json key attempts

def lockKeyOf (key : String) : String := "lock:" ++ key

def getOrLoadCached (json : Json V) (key token : String) : CacheCall V (Option V) := do
  match ← getCachedJson json key with
  | some cached => pure (some cached)
  | none =>
    let locked ← Prog.perform (CacheOp.setPxNx (lockKeyOf key) token lockTtlMs)
    if locked then
      tryFinally (do
        match ← getCachedJson json key with
        | some secondCheck => pure (some secondCheck)
        | none =>
          let loaded ← callLoader .underLock
          let _ ← setCachedJson json key loaded
          pure loaded) (Prog.perform (CacheOp.releaseLock (lockKeyOf key) token))
    else
      match ← waitForValue json key lockWaitAttempts with
      | some value => pure (some value)
      | none =>
        let loaded ← callLoader .fallback
        let _ ← setCachedJson json key loaded
        pure loaded

end Code

section Machine

variable {T V : Type} [DecidableEq T]

/-- A command of `t` that Redis runs, or a timer of `t` that fires, when the clock shows `s.clock`. -/
def CacheOp.exec (json : Json V) (t : T) (s : CacheState T V) : (o : CacheOp) → Option (o.Res V × CacheState T V)
  | .get key =>
    let value := s.strings.get s.clock key
    -- only a lock holder's second check ends its filling
    let filling := if (value.bind json.parse).join.isSome then Function.update s.filling t none else s.filling
    some (value, { s with filling := filling })
  | .setPxNx key value ttlMs =>
    match s.strings.get s.clock key with
    | some _ => some (false, s)
    | none => some (true, { s with
        strings := s.strings.set key value (s.clock + ttlMs)
        filling := Function.update s.filling t (some ⟨s.clock, false⟩) })
  | .setEx key value ttlSeconds =>
    some ((), { s with
      strings := s.strings.set key value (s.clock + ttlSeconds * 1000)
      filling := Function.update s.filling t none })
  | .releaseLock lockKey token =>
    some ((), if s.strings.get s.clock lockKey = some token then { s with strings := s.strings.del lockKey } else s)
  | .startLoader place =>
    some ((), { s with
      filling := Function.update s.filling t ((s.filling t).map fun f => { f with loads := true })
      loads := s.loads ++ [place] })
  | .now => some (s.clock, s)
  | .sleepUntil time => if time ≤ s.clock then some ((), s) else none
  | .ttlJitter => none
  | .loader => none

def CacheOp.IsCommand : CacheOp → Prop
  | .get _ | .setPxNx _ _ _ | .setEx _ _ _ | .releaseLock _ _ => True
  | _ => False

def CacheState.at (s : CacheState T V) (clock : ℕ) : CacheState T V := { s with clock := clock }

/-- Time passes between two steps. A command that fails may have been run. -/
inductive CachePerforms (json : Json V) (t : T) :
    (o : CacheOp) → CacheState T V → Except CacheFailure (o.Res V) → CacheState T V → Prop
  | answer {o : CacheOp} {s s' : CacheState T V} {clock : ℕ} {r : o.Res V} (hclock : s.clock ≤ clock)
      (h : o.exec json t (s.at clock) = some (r, s')) : CachePerforms json t o s (.ok r) s'
  | lost {o : CacheOp} {s s' : CacheState T V} {clock : ℕ} {r : o.Res V} (ho : o.IsCommand) (hclock : s.clock ≤ clock)
      (h : o.exec json t (s.at clock) = some (r, s')) : CachePerforms json t o s (.error .redis) s'
  | refuse {o : CacheOp} {s : CacheState T V} (ho : o.IsCommand) : CachePerforms json t o s (.error .redis) s
  | jitter {s : CacheState T V} {n : ℕ} (hn : n ≤ cacheTtlJitterSeconds) : CachePerforms json t .ttlJitter s (.ok n) s
  | loaded {s : CacheState T V} {clock : ℕ} (hclock : s.clock ≤ clock) (value : Option V) :
      CachePerforms json t .loader s (.ok value) { s with clock := clock, loaded := s.loaded ++ [value] }
  | loaderFailed {s : CacheState T V} : CachePerforms json t .loader s (.error .loader) s

theorem CacheOp.exec_filling {json : Json V} {t t' : T} {o : CacheOp} {s s' : CacheState T V} {clock : ℕ} {r : o.Res V}
    (hne : t ≠ t') (h : o.exec json t (s.at clock) = some (r, s')) : s'.filling t' = s.filling t' := by
  cases o with
  | get key =>
    cases h
    dsimp only
    split
    · exact Function.update_of_ne (Ne.symm hne) _ _
    · rfl
  | setPxNx key value ttlMs =>
    simp only [exec] at h
    split at h
    · cases h
      rfl
    · cases h
      exact Function.update_of_ne (Ne.symm hne) _ _
  | setEx key value ttlSeconds =>
    cases h
    exact Function.update_of_ne (Ne.symm hne) _ _
  | releaseLock lockKey token =>
    cases h
    split <;> rfl
  | ttlJitter => cases h
  | startLoader place =>
    cases h
    exact Function.update_of_ne (Ne.symm hne) _ _
  | loader => cases h
  | now =>
    cases h
    rfl
  | sleepUntil time =>
    simp only [exec, Option.ite_none_right_eq_some, Option.some.injEq, Prod.mk.injEq] at h
    rw [← h.2.2]
    rfl

def cacheMachine (json : Json V) : Machine T (CacheState T V) CacheOp (CacheOp.Res V) CacheFailure where
  perform := CachePerforms json
  crash _ s s' := s' = s
  frame t s s' := s'.filling t = s.filling t
  frame_refl _ _ := rfl
  frame_trans h h' := h'.trans h
  perform_frame hne h := by
    cases h with
    | answer _ h => exact CacheOp.exec_filling hne h
    | lost _ _ h => exact CacheOp.exec_filling hne h
    | refuse => rfl
    | jitter => rfl
    | loaded => rfl
    | loaderFailed => rfl
  crash_frame _ h := by rw [h]

structure CacheMove (V : Type) where
  clock : ℕ
  jitter : ℕ
  value : Option V

def CacheMove.play (json : Json V) (t : T) (m : CacheMove V) (s : CacheState T V) :
    (o : CacheOp) → Option (Except CacheFailure (o.Res V) × CacheState T V)
  | .ttlJitter => if m.jitter ≤ cacheTtlJitterSeconds then some (.ok m.jitter, s) else none
  | .loader =>
    if s.clock ≤ m.clock then some (.ok m.value, { s with clock := m.clock, loaded := s.loaded ++ [m.value] }) else none
  | o => if s.clock ≤ m.clock then (o.exec json t (s.at m.clock)).map fun (r, s') => (.ok r, s') else none

theorem CacheMove.play_sound {json : Json V} {t : T} {m : CacheMove V} {s s' : CacheState T V} {o : CacheOp}
    {r : Except CacheFailure (o.Res V)} (h : m.play json t s o = some (r, s')) : CachePerforms json t o s r s' := by
  have hexec : (if s.clock ≤ m.clock then
      (o.exec json t (s.at m.clock)).map fun (r, s') => (Except.ok r, s') else none) =
      some (r, s') → CachePerforms json t o s r s' := by
    intro h
    split_ifs at h with hclock
    obtain ⟨⟨a, s''⟩, ha, heq⟩ := Option.map_eq_some_iff.mp h
    cases heq
    exact .answer hclock ha
  cases o with
  | ttlJitter =>
    simp only [play] at h
    split_ifs at h with hn
    cases h
    exact .jitter hn
  | loader =>
    simp only [play] at h
    split_ifs at h with hclock
    cases h
    exact .loaded hclock m.value
  | _ => exact hexec h

@[reducible] def cacheMoves (json : Json V) : Moves (cacheMachine (T := T) json) where
  Move := CacheMove V
  play t o m s := m.play json t s o
  die _ s := some s
  play_sound h := CacheMove.play_sound h
  die_sound h := (Option.some.inj h).symm

end Machine

end Marketplace
