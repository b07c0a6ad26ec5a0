import Mathlib.Data.List.Induction
import Marketplace.Redis.Keys

/-!
The commands that a Redis has run, one after the other, with what each of them found and left of its key.
-/

namespace Redis

inductive Command
  | set (key value : String) (ttlSeconds : ℕ)
  | get (key : String)
  | expire (key : String) (ttlSeconds : ℕ)
  | del (key : String)
  deriving DecidableEq, Repr

namespace Command

abbrev Res : Command → Type
  | .get _ => Option String
  | .expire _ _ => Bool
  | _ => Unit

def key : Command → String
  | .set key _ _ => key
  | .get key => key
  | .expire key _ => key
  | .del key => key

def exec (clock : ℕ) (strings : Strings) : (o : Command) → o.Res × Strings
  | .set key value ttlSeconds => ((), strings.set key value (clock + ttlSeconds * 1000))
  | .get key => (strings.get clock key, strings)
  | .expire key ttlSeconds =>
    match strings.get clock key with
    | some value => (true, strings.set key value (clock + ttlSeconds * 1000))
    | none => (false, strings)
  | .del key => ((), strings.del key)

-- no key that the command sets expires earlier
def Lasts (ttlSeconds : ℕ) : Command → Prop
  | .set _ _ ttl => ttlSeconds ≤ ttl
  | .expire _ ttl => ttlSeconds ≤ ttl
  | _ => True

end Command

/-- A command that has been run, with its key before and right after it. -/
structure Ran (T : Type) where
  client : T
  time : ℕ
  command : Command
  before : Option (Stored String)
  after : Option (Stored String)

variable {T : Type}

def Command.ran (client : T) (time : ℕ) (strings : Strings) (o : Command) : Ran T :=
  ⟨client, time, o, strings o.key, live time ((o.exec time strings).2 o.key)⟩

namespace Ran

def Renewed (ttlSeconds : ℕ) (ran : Ran T) : Prop :=
    ∃ value, ran.after = some ⟨value, some (ran.time + ttlSeconds * 1000)⟩

def Lapsed (ran : Ran T) : Prop :=
    ∃ stored expireAt, ran.before = some stored ∧ stored.expireAt = some expireAt ∧ expireAt < ran.time

end Ran

def NotDeleted (key : String) (log : List (Ran T)) : Prop := ∀ ran ∈ log, ran.command ≠ .del key

inductive Chronicle : List (Ran T) → Strings → ℕ → Prop
  | start {clock : ℕ} : Chronicle [] (fun _ => none) clock
  | ran {log : List (Ran T)} {strings : Strings} {clock : ℕ} (h : Chronicle log strings clock) (client : T) {time : ℕ}
      (hle : clock ≤ time) (o : Command) :
      Chronicle (log ++ [o.ran client time strings]) (o.exec time strings).2 time

section Commands

variable {o : Command} {time : ℕ} {strings : Strings} {key : String}

theorem Command.exec_other (hkey : o.key ≠ key) : (o.exec time strings).2 key = strings key := by
  cases o with
  | set => exact Strings.set_other (Ne.symm hkey)
  | get => rfl
  | expire key' ttl =>
    simp only [exec]
    split
    · exact Strings.set_other (Ne.symm hkey)
    · rfl
  | del => exact Strings.del_other (Ne.symm hkey)

theorem Command.exec_key (ho : o ≠ .del o.key) : (o.exec time strings).2 o.key = strings o.key ∨
    ∃ value ttlSeconds, (o.exec time strings).2 o.key = some ⟨value, some (time + ttlSeconds * 1000)⟩ ∧
      ∀ n, o.Lasts n → n ≤ ttlSeconds := by
  cases o with
  | set key value ttl => exact .inr ⟨value, ttl, Function.update_self .., fun n h => h⟩
  | get => exact .inl rfl
  | expire key ttl =>
    simp only [exec]
    split
    · exact .inr ⟨_, ttl, Function.update_self .., fun n h => h⟩
    · exact .inl rfl
  | del => exact absurd rfl ho

-- a key that is there up to `bound` at least
def Until (bound : ℕ) (key : Option (Stored String)) : Prop :=
    ∃ stored, key = some stored ∧ ∀ t ∈ stored.expireAt, bound ≤ t

theorem Command.exec_until {bound n : ℕ} (h : Until bound (strings key)) (ho : o ≠ .del key) (hn : o.Lasts n)
    (hbound : bound ≤ time + n * 1000) : Until bound ((o.exec time strings).2 key) := by
  by_cases hkey : o.key = key
  · subst hkey
    rcases exec_key ho with hsame | ⟨value, ttl, hset, hlasts⟩
    · rwa [hsame]
    · refine ⟨_, hset, fun t ht => ?_⟩
      have heq : time + ttl * 1000 = t := Option.some.inj ht
      have hle := hlasts n hn
      omega
  · rwa [exec_other hkey]

end Commands

namespace Chronicle

variable {log past during since : List (Ran T)} {ran : Ran T} {strings : Strings} {clock : ℕ} {key : String}

theorem split (h : Chronicle log strings clock) (hlog : log = past ++ ran :: since) :
    ∃ strings' clock', Chronicle past strings' clock' ∧ clock' ≤ ran.time ∧
      ran = ran.command.ran ran.client ran.time strings' := by
  induction h generalizing since with
  | start =>
    have hlength := congrArg List.length hlog
    simp at hlength
  | @ran log strings' clock' h client time hle o ih =>
    rcases List.eq_nil_or_concat since with rfl | ⟨since, last, rfl⟩
    · obtain ⟨rfl, hran⟩ := List.append_inj' hlog rfl
      cases hran
      exact ⟨_, _, h, hle, rfl⟩
    · rw [List.concat_eq_append, ← List.cons_append, ← List.append_assoc] at hlog
      exact ih (List.append_inj' hlog rfl).1

theorem last (h : Chronicle (past ++ [ran]) strings clock) :
    ∃ strings' clock', Chronicle past strings' clock' ∧ clock' ≤ ran.time ∧
      ran = ran.command.ran ran.client ran.time strings' ∧
      strings = (ran.command.exec ran.time strings').2 ∧ clock = ran.time := by
  generalize hlog : past ++ [ran] = log at h
  cases h with
  | start => exact absurd hlog (by simp)
  | ran h client hle o =>
    obtain ⟨rfl, hran⟩ := List.append_inj' hlog rfl
    cases hran
    exact ⟨_, _, h, hle, rfl, rfl, rfl⟩

theorem ran_key (h : Chronicle (past ++ [ran]) strings clock) :
    clock = ran.time ∧ ran.after = live ran.time (strings ran.command.key) := by
  obtain ⟨strings', clock', -, -, hran, rfl, rfl⟩ := h.last
  exact ⟨rfl, congrArg Ran.after hran⟩

/-- A key lasts as long as it did after a command, while it is not deleted and no shorter time to live is set. -/
theorem until_after {bound n : ℕ} (h : Chronicle (past ++ ran :: during) strings clock) (hafter : Until bound ran.after)
    (hdeleted : NotDeleted ran.command.key during) (hlasts : ∀ other ∈ during, other.command.Lasts n)
    (hbound : bound ≤ ran.time + n * 1000) : ran.time ≤ clock ∧ Until bound (strings ran.command.key) := by
  induction during using List.reverseRecOn generalizing strings clock with
  | nil =>
    obtain ⟨rfl, hleft⟩ := h.ran_key
    obtain ⟨stored, hstored, ht⟩ := hafter
    rw [hleft] at hstored
    exact ⟨le_rfl, stored, (live_eq_some.mp hstored).1, ht⟩
  | append_singleton during other ih =>
    rw [← List.cons_append, ← List.append_assoc] at h
    obtain ⟨strings', clock', hbefore, hle, -, rfl, rfl⟩ := h.last
    obtain ⟨htime, huntil⟩ := ih hbefore (fun x hx => hdeleted x (List.mem_append_left _ hx))
      fun x hx => hlasts x (List.mem_append_left _ hx)
    have hlater : ran.time ≤ other.time := htime.trans hle
    have hother : other ∈ during ++ [other] := List.mem_append_right _ (List.mem_singleton_self _)
    refine ⟨hlater, Command.exec_until huntil (hdeleted _ hother) (hlasts _ hother) ?_⟩
    omega

theorem renewed_iff {ttlSeconds : ℕ} (h : Chronicle log strings clock) (hlog : log = past ++ ran :: since)
    (hran : ran.command = .expire key ttlSeconds) (hbefore : ran.before.isSome) : ran.Renewed ttlSeconds ↔
      ¬ran.Lapsed := by
  obtain ⟨strings', clock', -, -, heq⟩ := h.split hlog
  rw [hran] at heq
  have hkey : ran.before = strings' key := congrArg Ran.before heq
  obtain ⟨stored, hstored⟩ := Option.isSome_iff_exists.mp hbefore
  have hafter : ran.after = live ran.time (((Command.expire key ttlSeconds).exec ran.time strings').2 key) :=
    congrArg Ran.after heq
  rw [hkey] at hstored
  constructor
  · rintro ⟨value, hvalue⟩ ⟨stored', expireAt, hstored', hexpire, hlt⟩
    rw [hkey, hstored] at hstored'
    cases hstored'
    have hnone : live ran.time (strings' key) = none := by
      cases hlive : live ran.time (strings' key) with
      | none => rfl
      | some stored'' =>
        obtain ⟨heq', ht⟩ := live_eq_some.mp hlive
        rw [hstored] at heq'
        cases heq'
        exact absurd (ht expireAt hexpire) (Nat.not_le.mpr hlt)
    have hget : strings'.get ran.time key = none := by rw [Strings.get, hnone, Option.map_none]
    simp only [Command.exec, hget, hnone] at hafter
    rw [hafter] at hvalue
    cases hvalue
  · intro hlapsed
    have hlive : ∀ t ∈ stored.expireAt, ran.time ≤ t := by
      intro t ht
      by_contra hlt
      exact hlapsed ⟨stored, t, hkey.trans hstored, ht, Nat.not_le.mp hlt⟩
    have hget : strings'.get ran.time key = some stored.value := Strings.get_of_live hstored hlive
    refine ⟨stored.value, ?_⟩
    simp only [Command.exec, hget, Strings.set, Function.update_self] at hafter
    rw [hafter]
    exact live_eq_some.mpr ⟨rfl, fun t ht => Nat.le_of_add_right_le (Nat.le_of_eq (Option.some.inj ht))⟩

end Chronicle

end Redis
