import Marketplace.Concurrent.RelyGuarantee
import Marketplace.Concurrent.Schedule
import Marketplace.Json.RoundTrip
import Marketplace.Redis.Chronicle

namespace Marketplace

open Concurrent Redis

def sessionTtlSeconds : ℕ := 5

inductive SessionFailure
  | redis
  | syntaxError
  deriving DecidableEq, Repr

structure SessionData where
  sessionId : String
  userId : ℕ
  deriving DecidableEq, Repr

def SessionData.json (data : SessionData) : JsonValue :=
  .object [("sessionId", .string data.sessionId), ("userId", .number (.integer data.userId))]

def SessionData.text (data : SessionData) : String := String.ofList data.json.stringify

theorem SessionData.parse_text (data : SessionData) : JsonValue.parse data.text.toList = some data.json := by
  have hplain : JsonValue.Plain data.json := by
    refine .object (by simp) ?_
    rintro field hfield
    simp only [List.mem_cons, List.not_mem_nil, or_false] at hfield
    rcases hfield with rfl | rfl
    · exact .string
    · exact .number
  rw [SessionData.text, String.toList_ofList]
  exact JsonValue.parse_stringify hplain

theorem SessionData.json_ne_null (data : SessionData) : data.json ≠ .null := by
  intro h
  cases h

section Code

abbrev SessionProg (α : Type) := Prog Command Command.Res SessionFailure α

def sessionKey (sessionId : String) : String := "session:" ++ sessionId

def createSession (sessionId : String) (userId : ℕ) : SessionProg Unit :=
  Prog.perform (Command.set (sessionKey sessionId) (SessionData.text ⟨sessionId, userId⟩) sessionTtlSeconds)

-- what JSON.parse has read is returned as it is
def getSession (sessionId : String) : SessionProg JsonValue := do
  match ← Prog.perform (Command.get (sessionKey sessionId)) with
  | none => pure .null
  | some value =>
    let _ ← Prog.perform (Command.expire (sessionKey sessionId) sessionTtlSeconds)
    match JsonValue.parse value.toList with
    | none => throw .syntaxError
    | some parsed => pure parsed

def deleteSession (sessionId : String) : SessionProg Unit := Prog.perform (Command.del (sessionKey sessionId))

inductive SessionCall
  | createSession (sessionId : String) (userId : ℕ)
  | getSession (sessionId : String)
  | deleteSession (sessionId : String)
  deriving DecidableEq, Repr

def SessionCall.run : SessionCall → SessionProg (Option JsonValue)
  | .createSession sessionId userId => do
    Marketplace.createSession sessionId userId
    pure none
  | .getSession sessionId => do
    let session ← Marketplace.getSession sessionId
    pure (some session)
  | .deleteSession sessionId => do
    Marketplace.deleteSession sessionId
    pure none

end Code

-- `log` is a history variable
structure SessionState (T : Type) where
  clock : ℕ
  strings : Strings
  log : List (Ran T)

variable {T : Type}

def SessionState.run (client : T) (clock : ℕ) (o : Command) (s : SessionState T) : SessionState T :=
  ⟨clock, (o.exec clock s.strings).2, s.log ++ [o.ran client clock s.strings]⟩

/-- Time passes between two commands. A command that fails may have been run. -/
inductive SessionPerforms (client : T) :
    (o : Command) → SessionState T → Except SessionFailure o.Res → SessionState T → Prop
  | answer {o : Command} {s : SessionState T} {clock : ℕ} (hclock : s.clock ≤ clock) :
      SessionPerforms client o s (.ok (o.exec clock s.strings).1) (s.run client clock o)
  | lost {o : Command} {s : SessionState T} {clock : ℕ} (hclock : s.clock ≤ clock) :
      SessionPerforms client o s (.error .redis) (s.run client clock o)
  | refuse {o : Command} {s : SessionState T} : SessionPerforms client o s (.error .redis) s

variable [DecidableEq T]

def commandsOf (t : T) (log : List (Ran T)) : List (Ran T) := log.filter fun ran => ran.client = t

theorem commandsOf_run {t t' : T} {clock : ℕ} {o : Command} {s : SessionState T} :
    commandsOf t' (s.run t clock o).log =
      commandsOf t' s.log ++ if t = t' then [o.ran t clock s.strings] else [] := by
  simp only [commandsOf, SessionState.run, List.filter_append, List.filter_singleton, Command.ran]
  by_cases ht : t = t' <;> simp [ht]

def sessionMachine : Machine T (SessionState T) Command Command.Res SessionFailure where
  perform := SessionPerforms
  crash _ s s' := s' = s
  frame t s s' := commandsOf t s'.log = commandsOf t s.log
  frame_refl _ _ := rfl
  frame_trans h h' := h'.trans h
  perform_frame hne h := by
    cases h with
    | answer => rw [commandsOf_run, if_neg hne, List.append_nil]
    | lost => rw [commandsOf_run, if_neg hne, List.append_nil]
    | refuse => rfl
  crash_frame _ h := by rw [h]

@[reducible] def sessionMoves : Moves (sessionMachine (T := T)) where
  -- the time at which a command runs
  Move := ℕ
  play t o clock s := if s.clock ≤ clock then some (.ok (o.exec clock s.strings).1, s.run t clock o) else none
  die _ s := some s
  play_sound h := by
    split at h
    · cases h
      exact .answer ‹_›
    · cases h
  die_sound h := (Option.some.inj h).symm

abbrev SessionConfig (T : Type) := Config T (SessionState T) Command Command.Res SessionFailure (Option JsonValue)

abbrev SessionCalls (calls : T → SessionCall) (clock : ℕ) : SessionConfig T :=
  .start ⟨clock, fun _ => none, []⟩ fun t => (calls t).run

end Marketplace
