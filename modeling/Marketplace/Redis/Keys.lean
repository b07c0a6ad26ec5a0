import Mathlib.Data.List.Sort
import Mathlib.Logic.Function.Basic
import Mathlib.Data.Int.Notation
import Mathlib.Data.Nat.Notation

namespace Redis

/-- What a key holds, with the time in milliseconds at which it expires. -/
structure Stored (α : Type) where
  value : α
  expireAt : Option ℕ
  deriving DecidableEq, Repr

-- a key is there up to and including its last millisecond
def live {α : Type} (clock : ℕ) (key : Option (Stored α)) : Option (Stored α) :=
  key.filter fun stored => stored.expireAt.all (clock ≤ ·)

section Keys

variable {α : Type} {clock : ℕ} {key : Option (Stored α)} {stored : Stored α}

theorem live_some : live clock (some stored) = if stored.expireAt.all (clock ≤ ·) then some stored else none :=
  Option.filter_some ..

theorem live_eq_some : live clock key = some stored ↔ key = some stored ∧ ∀ t ∈ stored.expireAt, clock ≤ t := by
  simp only [live, Option.filter_eq_some_iff, Option.all_eq_true, decide_eq_true_eq, Option.mem_def]

end Keys

structure Scored where
  member : String
  score : ℤ
  deriving DecidableEq, Repr

-- the order of a sorted set: by score, then by member
def Scored.before (a b : Scored) : Prop := a.score < b.score ∨ a.score = b.score ∧ a.member ≤ b.member

instance : DecidableRel Scored.before := fun _ _ => inferInstanceAs (Decidable (_ ∨ _))

def zadd (entry : Scored) (set : List Scored) : List Scored :=
  (set.filter fun other => other.member ≠ entry.member).orderedInsert Scored.before entry

def zremrangebyscore (low high : ℤ) (set : List Scored) : List Scored :=
  set.filter fun entry => !(low ≤ entry.score && entry.score ≤ high)

theorem zadd_perm (entry : Scored) {set : List Scored} (h : ∀ other ∈ set, other.member ≠ entry.member) :
    (zadd entry set).Perm (entry :: set) := by
  have hset : (set.filter fun other => other.member ≠ entry.member) = set := by
    simpa using h
  rw [zadd, hset]
  exact List.perm_orderedInsert _ entry set

-- an empty sorted set is no key at all, and its expiry goes with it
def storeSet (set : List Scored) (expireAt : Option ℕ) : Option (Stored (List Scored)) :=
  if set = [] then none else some ⟨set, expireAt⟩

def members (key : Option (Stored (List Scored))) : List Scored := (key.map Stored.value).getD []

theorem members_live_some (clock : ℕ) (stored : Stored (List Scored)) :
    members (live clock (some stored)) = if stored.expireAt.all (clock ≤ ·) then stored.value else [] := by
  rw [live_some]
  split <;> rfl

theorem members_storeSet (set : List Scored) (expireAt : Option ℕ) : members (storeSet set expireAt) = set := by
  unfold storeSet
  split
  · rename_i hset
    rw [hset]
    rfl
  · rfl

theorem members_live_storeSet (clock : ℕ) (set : List Scored) (expireAt : Option ℕ) :
    members (live clock (storeSet set expireAt)) = if expireAt.all (clock ≤ ·) then set else [] := by
  unfold storeSet
  split
  · rename_i hset
    rw [hset]
    split <;> rfl
  · exact members_live_some clock ⟨set, expireAt⟩

abbrev Strings := String → Option (Stored String)

namespace Strings

def get (clock : ℕ) (key : String) (strings : Strings) : Option String := (live clock (strings key)).map Stored.value

def set (key value : String) (expireAt : ℕ) (strings : Strings) : Strings :=
  Function.update strings key (some ⟨value, some expireAt⟩)

def del (key : String) (strings : Strings) : Strings := Function.update strings key none

variable {clock expireAt : ℕ} {key other value : String} {strings : Strings}

theorem get_of_live {stored : Stored String} (h : strings key = some stored) (ht : ∀ t ∈ stored.expireAt, clock ≤ t) :
    strings.get clock key = some stored.value := by
  rw [get, live_eq_some.mpr ⟨h, ht⟩, Option.map_some]

theorem get_of_missing (h : strings key = none) : strings.get clock key = none := by
  rw [get, h]
  rfl

theorem set_other (h : other ≠ key) : strings.set key value expireAt other = strings other :=
    Function.update_of_ne h _ _

theorem del_other (h : other ≠ key) : strings.del key other = strings other := Function.update_of_ne h _ _

end Strings

end Redis
