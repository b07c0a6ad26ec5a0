import Marketplace.RateLimit
import Marketplace.Values

namespace Marketplace

open Redis

/-- How far the clock of each instance and the one of Redis are ahead of the true time. -/
structure Offsets where
  instances : String → ℤ
  redis : ℤ

def Check.time (offsets : Offsets) (c : Check) : ℤ := c.now - offsets.instances c.instanceName

/-- Checks of the `instances` in the order of the true time, where no member comes twice. -/
structure SkewedChecks (instances : Set String) (offsets : Offsets) (checks : List Check) : Prop where
  instances : ∀ c ∈ checks, c.instanceName ∈ instances
  clock : ∀ c ∈ checks, (c.clock : ℤ) = c.time offsets + offsets.redis
  order : checks.Pairwise fun a b => a.time offsets ≤ b.time offsets
  members : checks.Pairwise fun a b => a.clientId = b.clientId → a.member ≠ b.member

def allowedDuring (offsets : Offsets) (clientId : String) (start : ℤ) (served : Served) : Served :=
  served.filter fun p => p.1.clientId = clientId && p.2.allowed && start ≤ p.1.time offsets &&
    p.1.time offsets < start + windowMs

-- the second clock is `ahead` milliseconds ahead of the first
inductive ShiftedTime (ahead : ℤ) : Option ℕ → Option ℕ → Prop
  | never : ShiftedTime ahead none none
  | later {t t' : ℕ} (h : (t' : ℤ) = t + ahead) : ShiftedTime ahead (some t) (some t')

inductive Shifted (ahead : ℤ) : SetKey → SetKey → Prop
  | missing : Shifted ahead none none
  | stored {set : List Scored} {expireAt expireAt' : Option ℕ} (h : ShiftedTime ahead expireAt expireAt') :
      Shifted ahead (some ⟨set, expireAt⟩) (some ⟨set, expireAt'⟩)

-- the check on a Redis whose clock is the one of the instance
def Check.sameClock (c : Check) : Check := { c with clock := c.now }

section Shift

variable {ahead : ℤ} {key key' : SetKey} {limit : ℕ} {clock now : ℕ}

theorem ShiftedTime.all {expireAt expireAt' : Option ℕ} (h : ShiftedTime ahead expireAt expireAt')
    (hclock : (now : ℤ) = clock + ahead) : expireAt'.all (now ≤ ·) = expireAt.all (clock ≤ ·) := by
  cases h with
  | never => rfl
  | @later t t' h =>
    simp only [Option.all_some, decide_eq_decide]
    omega

theorem Shifted.live (h : Shifted ahead key key') (hclock : (now : ℤ) = clock + ahead) :
    Shifted ahead (live clock key) (live now key') := by
  cases h with
  | missing => exact .missing
  | stored h =>
    rw [live_some, live_some, h.all hclock]
    split
    · exact .stored h
    · exact .missing

theorem Shifted.members (h : Shifted ahead key key') : members key' = members key := by
  cases h <;> rfl

theorem Shifted.expireAt (h : Shifted ahead key key') :
    ShiftedTime ahead (key.bind Stored.expireAt) (key'.bind Stored.expireAt) := by
  cases h with
  | missing => exact .never
  | stored h => exact h

theorem ShiftedTime.storeSet {expireAt expireAt' : Option ℕ} (h : ShiftedTime ahead expireAt expireAt')
    (set : List Scored) : Shifted ahead (storeSet set expireAt) (storeSet set expireAt') := by
  unfold Redis.storeSet
  split
  · exact .missing
  · exact .stored h

variable (limit) in
theorem slidingWindowScript_shifted (h : Shifted ahead key key') (hclock : (now : ℤ) = clock + ahead)
    (member : String) :
    (slidingWindowScript now now windowMs limit member key').1 =
      (slidingWindowScript clock now windowMs limit member key).1 ∧
      Shifted ahead (slidingWindowScript clock now windowMs limit member key).2
    (slidingWindowScript now now windowMs limit member key').2 := by
  have hlive := h.live hclock
  have hmembers := hlive.members
  simp only [slidingWindowScript, hmembers]
  split
  · exact ⟨rfl, hlive.expireAt.storeSet _⟩
  · exact ⟨rfl, ShiftedTime.storeSet (.later (by omega)) _⟩

variable (limit) in
theorem check_shifted {redis redis' : RateLimitKeys} (h : ∀ key, Shifted ahead (redis key) (redis' key)) {c : Check}
    (hclock : (c.now : ℤ) = c.clock + ahead) : (check limit redis' c.sameClock).1 = (check limit redis c).1 ∧
      ∀ key, Shifted ahead ((check limit redis c).2 key) ((check limit redis' c.sameClock).2 key) := by
  obtain ⟨hreply, hkey⟩ := slidingWindowScript_shifted limit (h (rateLimitKey c.clientId)) hclock c.member
  refine ⟨congrArg (fun reply : ℕ × ℕ × ℤ => RateLimitResult.mk (reply.1 = 1) reply.2.1 reply.2.2) hreply,
    fun key => ?_⟩
  show Shifted ahead (Function.update redis (rateLimitKey c.clientId) _ key)
    (Function.update redis' (rateLimitKey c.clientId) _ key)
  by_cases hne : key = rateLimitKey c.clientId
  · subst hne
    rw [Function.update_self, Function.update_self]
    exact hkey
  · rw [Function.update_of_ne hne, Function.update_of_ne hne]
    exact h key

theorem serve_shifted (limit : ℕ) {checks : List Check} (h : ∀ c ∈ checks, (c.now : ℤ) = c.clock + ahead) :
    (serve limit (checks.map Check.sameClock)).2 = (serve limit checks).2.map (fun p => (p.1.sameClock, p.2)) ∧
      ∀ key, Shifted ahead ((serve limit checks).1 key) ((serve limit (checks.map Check.sameClock)).1 key) := by
  induction checks using List.reverseRecOn with
  | nil => exact ⟨rfl, fun _ => .missing⟩
  | append_singleton checks c ih =>
    obtain ⟨hserved, hkeys⟩ := ih fun a ha => h a (List.mem_append_left _ ha)
    obtain ⟨hresult, hnext⟩ := check_shifted limit hkeys (h c (by simp))
    rw [List.map_append, List.map_singleton, serve_snoc, serve_snoc]
    exact ⟨by simp [hserved, hresult], hnext⟩

end Shift

section Equal

variable {instances : Set String} {offsets : Offsets} {checks : List Check} {limit : ℕ}

theorem SkewedChecks.ahead (h : SkewedChecks instances offsets checks)
    (heq : ∀ a ∈ instances, ∀ b ∈ instances, offsets.instances a = offsets.instances b) :
    ∃ offset : ℤ, ∀ c ∈ checks, c.time offsets = c.now - offset := by
  cases checks with
  | nil => exact ⟨0, nofun⟩
  | cons first checks =>
    refine ⟨offsets.instances first.instanceName, fun c hc => ?_⟩
    rw [Check.time, heq _ (h.instances c hc) _ (h.instances first (by simp))]

theorem SkewedChecks.sameClock (h : SkewedChecks instances offsets checks) {offset : ℤ}
    (htime : ∀ c ∈ checks, c.time offsets = c.now - offset) : SteadyChecks (checks.map Check.sameClock) where
  clock c hc := by
    obtain ⟨c, -, rfl⟩ := List.mem_map.mp hc
    rfl
  order := by
    rw [List.pairwise_map]
    refine h.order.imp_of_mem fun {a b} ha hb hle _ => ?_
    rw [htime a ha, htime b hb] at hle
    simp only [Check.sameClock]
    omega
  members := by
    rw [List.pairwise_map]
    exact h.members

theorem allowedDuring_le (h : SkewedChecks instances offsets checks)
    (heq : ∀ a ∈ instances, ∀ b ∈ instances, offsets.instances a = offsets.instances b) (clientId : String)
    (start : ℤ) :
    (allowedDuring offsets clientId start (serve limit checks).2).length ≤ limit := by
  obtain ⟨offset, htime⟩ := h.ahead heq
  have hclock : ∀ c ∈ checks, (c.now : ℤ) = c.clock + (offset - offsets.redis) := by
    intro c hc
    have hc' := h.clock c hc
    rw [htime c hc] at hc'
    omega
  have hle : (allowedWithin clientId (start + offset - 1) (start + offset - 1 + windowMs)
      (serve limit (checks.map Check.sameClock)).2).length ≤ limit :=
    allowedWithin_le (h.sameClock htime) clientId _
  rw [(serve_shifted limit hclock).1, allowedWithin, List.filter_map, List.length_map] at hle
  refine le_of_eq_of_le (congrArg List.length (List.filter_congr fun p hp => ?_)) hle
  rw [Bool.eq_iff_iff]
  simp only [Function.comp, Bool.and_eq_true, decide_eq_true_eq, and_assoc, htime p.1 (served_check hp)]
  refine and_congr_right fun _ => and_congr_right fun _ => ?_
  simp only [Check.sameClock]
  omega

end Equal

section Scripts

variable {limit : ℕ} {redis : RateLimitKeys} {c : Check}

def Check.entries (c : Check) (redis : RateLimitKeys) : List Scored :=
  zremrangebyscore 0 ((c.now : ℤ) - windowMs) (members (live c.clock (redis (rateLimitKey c.clientId))))

theorem members_live_sublist (clock : ℕ) (key : SetKey) : (members (live clock key)).Sublist (members key) := by
  cases key with
  | none => exact .slnil
  | some stored =>
    rw [members_live_some]
    split
    · exact .refl _
    · exact List.nil_sublist _

theorem Check.entries_sublist (c : Check) (redis : RateLimitKeys) :
    (c.entries redis).Sublist (members (redis (rateLimitKey c.clientId))) :=
  List.filter_sublist.trans (members_live_sublist _ _)

theorem check_entries : ((check limit redis c).1.allowed = true ↔ (c.entries redis).length < limit) ∧
    members ((check limit redis c).2 (rateLimitKey c.clientId)) =
      if (c.entries redis).length < limit then zadd ⟨c.member, c.now⟩ (c.entries redis) else c.entries redis := by
  unfold Check.entries
  simp only [check, slidingWindowScript, Function.update_self]
  split
  · rename_i hfull
    simp [members_storeSet, not_lt.mpr hfull]
  · rename_i hfree
    simp [members_storeSet, not_le.mp hfree]

theorem zadd_length_le (entry : Scored) (set : List Scored) : (zadd entry set).length ≤ set.length + 1 := by
  rw [zadd, List.orderedInsert_length]
  exact Nat.succ_le_succ (List.length_filter_le _ _)

theorem mem_zadd {entry other : Scored} {set : List Scored} (h : other ∈ zadd entry set) :
    other = entry ∨ other ∈ set := by
  rcases (List.mem_orderedInsert _).mp h with h | h
  · exact .inl h
  · exact .inr (List.mem_filter.mp h).1

variable (limit) in
theorem serve_members (checks : List Check) (clientId : String) :
    (members ((serve limit checks).1 (rateLimitKey clientId))).length ≤ checks.length ∧
      ∀ entry ∈ members ((serve limit checks).1 (rateLimitKey clientId)), ∃ c ∈ checks, entry.score = c.now := by
  induction checks using List.reverseRecOn with
  | nil => exact ⟨Nat.le_refl _, nofun⟩
  | append_singleton checks c ih =>
    obtain ⟨hlength, hscores⟩ := ih
    rw [serve_snoc]
    dsimp only
    by_cases hclient : c.clientId = clientId
    · subst hclient
      have hsub := c.entries_sublist (serve limit checks).1
      have hle := hsub.length_le
      rw [check_entries.2, List.length_append, List.length_singleton]
      split
      · refine ⟨(zadd_length_le _ _).trans (by omega), fun entry hentry => ?_⟩
        rcases mem_zadd hentry with rfl | hold
        · exact ⟨c, by simp, rfl⟩
        · obtain ⟨c', hc', hscore⟩ := hscores entry (hsub.subset hold)
          exact ⟨c', by simp [hc'], hscore⟩
      · refine ⟨by omega, fun entry hentry => ?_⟩
        obtain ⟨c', hc', hscore⟩ := hscores entry (hsub.subset hentry)
        exact ⟨c', by simp [hc'], hscore⟩
    · have hkey : rateLimitKey c.clientId ≠ rateLimitKey clientId := fun heq => hclient (rateLimitKey_injective heq)
      rw [check_key_other _ hkey, List.length_append]
      refine ⟨by omega, fun entry hentry => ?_⟩
      obtain ⟨c', hc', hscore⟩ := hscores entry hentry
      exact ⟨c', by simp [hc'], hscore⟩

end Scripts

section Members

theorem afterColon {text random : List Char} (h : ':' ∉ random) :
    ((text ++ ':' :: random).reverse.takeWhile (· ≠ ':')) = random.reverse := by
  rw [List.reverse_append, List.reverse_cons, List.append_assoc, List.takeWhile_append_of_pos]
  · simp
  · intro c hc
    have hne : c ≠ ':' := fun heq => h (heq ▸ List.mem_reverse.mp hc)
    simpa using hne

theorem member_random (c c' : Check) (hc : ':' ∉ c.random.toList) (hc' : ':' ∉ c'.random.toList)
    (h : c.member = c'.member) : c.random = c'.random := by
  have htext (c : Check) : c.member.toList =
      (c.instanceName.toList ++ ':' :: (Nat.repr c.now).toList) ++ ':' :: c.random.toList := by
    simp [Check.member]
  have hlist := congrArg (fun text : String => text.toList.reverse.takeWhile (· ≠ ':')) h
  simp only [htext, afterColon hc, afterColon hc'] at hlist
  exact String.toList_inj.mp (List.reverse_inj.mp hlist)

theorem colon_digits (n : ℕ) : ':' ∉ Nat.toDigits 10 n := by
  intro h
  exact absurd (Nat.isDigit_of_mem_toDigits (by decide) (by decide) h) (by decide)

end Members

section Unequal

variable {instances : Set String} {offsets : Offsets} {limit : ℕ}

-- the check of an instance at a true time, if none of the clocks is before its epoch
def checkAt (offsets : Offsets) (instanceName : String) (time : ℤ) (random : String) : Check :=
  { instanceName := instanceName
    clientId := "anna"
    now := (time + offsets.instances instanceName).toNat
    random := random
    clock := (time + offsets.redis).toNat }

def checksAt (offsets : Offsets) (instanceName : String) (time : ℤ) (count : ℕ) : List Check :=
  (List.range count).map fun i => checkAt offsets instanceName time ("0." ++ Nat.repr i)

theorem checksAt_allowed (instanceName : String) (time : ℤ) {count : ℕ} (h : count ≤ limit) :
    ∀ p ∈ (serve limit (checksAt offsets instanceName time count)).2, p.2.allowed = true := by
  induction count with
  | zero => exact nofun
  | succ count ih =>
    rw [checksAt, List.range_succ, List.map_append, List.map_singleton, serve_snoc]
    intro p hp
    rcases List.mem_append.mp hp with hp | hp
    · exact ih (Nat.le_of_succ_le h) p hp
    · rw [List.mem_singleton.mp hp, check_entries.1]
      have hlength := (serve_members limit (checksAt offsets instanceName time count) "anna").1
      have hcount : (checksAt offsets instanceName time count).length = count := by simp [checksAt]
      have hle := (Check.entries_sublist (checkAt offsets instanceName time ("0." ++ Nat.repr count))
        (serve limit (checksAt offsets instanceName time count)).1).length_le
      exact Nat.lt_of_le_of_lt (hle.trans (hlength.trans_eq hcount)) h

/-- `limit` checks on the one clock, and one on a clock that is ahead: it prunes them all while they are still in
the window. -/
def overrun (offsets : Offsets) (limit : ℕ) (behind ahead : String) (time : ℤ) : List Check :=
  let wait := max 0 (windowMs - (offsets.instances ahead - offsets.instances behind))
  checksAt offsets behind time limit ++ [checkAt offsets ahead (time + wait) "0"]

variable {behind ahead : String} {time : ℤ}

theorem checkAt_time {instanceName random : String} (h : 0 ≤ time + offsets.instances instanceName) :
    (checkAt offsets instanceName time random).time offsets = time := by
  simp only [Check.time, checkAt]
  omega

theorem checkAt_clock {instanceName random : String} (h : 0 ≤ time + offsets.redis) :
    ((checkAt offsets instanceName time random).clock : ℤ) = time + offsets.redis := by
  simp only [checkAt]
  omega

theorem mem_overrun {c : Check} (h : c ∈ overrun offsets limit behind ahead time) :
    (∃ i < limit, c = checkAt offsets behind time ("0." ++ Nat.repr i)) ∨
      c = checkAt offsets ahead (time + max 0
      (windowMs - (offsets.instances ahead - offsets.instances behind))) "0" := by
  rcases List.mem_append.mp h with h | h
  · obtain ⟨i, hi, rfl⟩ := List.mem_map.mp h
    exact .inl ⟨i, List.mem_range.mp hi, rfl⟩
  · exact .inr (List.mem_singleton.mp h)

theorem overrun_time (h : 0 ≤ time + offsets.instances behind)
    (hlt : offsets.instances behind < offsets.instances ahead) {c : Check}
    (hc : c ∈ overrun offsets limit behind ahead time) :
    time ≤ c.time offsets ∧ c.time offsets < time + windowMs := by
  have hwindow : (0 : ℤ) < windowMs := by decide
  rcases mem_overrun hc with ⟨i, -, rfl⟩ | rfl
  · rw [checkAt_time h]
    omega
  · rw [checkAt_time (by omega)]
    omega

theorem random_noColon (i : ℕ) : ':' ∉ ("0." ++ Nat.repr i).toList := by
  simp [colon_digits]

theorem overrun_skewed (hbehind : behind ∈ instances) (hahead : ahead ∈ instances)
    (h : 0 ≤ time + offsets.instances behind) (hredis : 0 ≤ time + offsets.redis)
    (hlt : offsets.instances behind < offsets.instances ahead) :
    SkewedChecks instances offsets (overrun offsets limit behind ahead time) where
  instances c hc := by
    rcases mem_overrun hc with ⟨i, -, rfl⟩ | rfl
    · exact hbehind
    · exact hahead
  clock c hc := by
    rcases mem_overrun hc with ⟨i, -, rfl⟩ | rfl
    · rw [checkAt_time h, checkAt_clock hredis]
    · rw [checkAt_time (by omega), checkAt_clock (by omega)]
  order := by
    refine List.pairwise_append.mpr ⟨?_, List.pairwise_singleton _ _, ?_⟩
    · rw [checksAt, List.pairwise_map]
      refine List.nodup_range.imp fun _ => ?_
      rw [checkAt_time h, checkAt_time h]
    · intro a ha b hb
      obtain ⟨i, -, rfl⟩ := List.mem_map.mp ha
      rw [List.mem_singleton.mp hb, checkAt_time h, checkAt_time (by omega)]
      omega
  members := by
    refine List.pairwise_append.mpr ⟨?_, List.pairwise_singleton _ _, ?_⟩
    · rw [checksAt, List.pairwise_map]
      refine List.nodup_range.imp fun {i j} hne _ heq => hne ?_
      have hrandom : "0." ++ Nat.repr i = "0." ++ Nat.repr j :=
        member_random (checkAt offsets behind time ("0." ++ Nat.repr i))
          (checkAt offsets behind time ("0." ++ Nat.repr j)) (random_noColon i) (random_noColon j) heq
      exact append_repr_injective hrandom
    · intro a ha b hb _ heq
      obtain ⟨i, -, rfl⟩ := List.mem_map.mp ha
      rw [List.mem_singleton.mp hb] at heq
      have hrandom : "0." ++ Nat.repr i = "0" :=
        member_random (checkAt offsets behind time ("0." ++ Nat.repr i)) _ (random_noColon i) (by simp [checkAt]) heq
      have hlength := congrArg (fun text : String => text.toList.length) hrandom
      simp at hlength

theorem overrun_allowed (hlimit : 1 ≤ limit) (h : 0 ≤ time + offsets.instances behind)
    (hlt : offsets.instances behind < offsets.instances ahead) :
    ∀ p ∈ (serve limit (overrun offsets limit behind ahead time)).2, p.2.allowed = true := by
  unfold overrun
  rw [serve_snoc]
  intro p hp
  rcases List.mem_append.mp hp with hp | hp
  · exact checksAt_allowed behind time (Nat.le_refl _) p hp
  · rw [List.mem_singleton.mp hp, check_entries.1]
    refine Nat.lt_of_lt_of_le (Nat.lt_one_iff.mpr (List.length_eq_zero_iff.mpr (List.filter_eq_nil_iff.mpr ?_))) hlimit
    intro entry hentry
    obtain ⟨c, hc, hscore⟩ := (serve_members limit (checksAt offsets behind time limit) "anna").2 entry
      ((members_live_sublist _ _).subset hentry)
    obtain ⟨i, -, rfl⟩ := List.mem_map.mp hc
    have hpruned : 0 ≤ entry.score ∧ entry.score ≤ ((checkAt offsets ahead (time +
        max 0 (windowMs - (offsets.instances ahead - offsets.instances behind))) "0").now : ℤ) - windowMs := by
      simp only [checkAt] at hscore ⊢
      omega
    simp [hpruned]

theorem overrun_exceeds (hlimit : 1 ≤ limit) (h : 0 ≤ time + offsets.instances behind)
    (hlt : offsets.instances behind < offsets.instances ahead) :
    (allowedDuring offsets "anna" time (serve limit (overrun offsets limit behind ahead time)).2).length =
      limit + 1 := by
  have hall : allowedDuring offsets "anna" time (serve limit (overrun offsets limit behind ahead time)).2 =
      (serve limit (overrun offsets limit behind ahead time)).2 := by
    apply List.filter_eq_self.mpr
    intro p hp
    have hmem := served_check hp
    have htime := overrun_time h hlt hmem
    have hclient : p.1.clientId = "anna" := by
      rcases mem_overrun hmem with ⟨i, -, heq⟩ | heq <;> rw [heq] <;> rfl
    simp [hclient, overrun_allowed hlimit h hlt p hp, htime]
  rw [hall, ← List.length_map (f := Prod.fst), serve_map]
  simp [overrun, checksAt]

end Unequal

/-- The limit holds in every window of true time exactly if the clocks of the instances agree. -/
theorem limit_holds_iff_clocks_agree {limit : ℕ} (hlimit : 1 ≤ limit) (instances : Set String) (offsets : Offsets) :
    (∀ checks, SkewedChecks instances offsets checks → ∀ clientId start,
      (allowedDuring offsets clientId start (serve limit checks).2).length ≤ limit) ↔
      ∀ a ∈ instances, ∀ b ∈ instances, offsets.instances a = offsets.instances b := by
  refine ⟨fun h => ?_, fun h checks hchecks => allowedDuring_le hchecks h⟩
  have hle : ∀ a ∈ instances, ∀ b ∈ instances, offsets.instances b ≤ offsets.instances a := by
    intro a ha b hb
    by_contra hlt
    rw [not_le] at hlt
    let time : ℤ := max 0 (max (-offsets.instances a) (-offsets.redis))
    have hskewed : SkewedChecks instances offsets (overrun offsets limit a b time) :=
      overrun_skewed ha hb (by omega) (by omega) hlt
    have hover := h _ hskewed "anna" time
    rw [overrun_exceeds hlimit (by omega) hlt] at hover
    omega
  exact fun a ha b hb => le_antisymm (hle b hb a ha) (hle a ha b hb)

def oneSecondAhead : Offsets := ⟨fun instanceName => if instanceName = "api-2" then 1000 else 0, 0⟩

def skewedPair : List Check := [⟨"api-1", "anna", 0, "0.1", 0⟩, ⟨"api-2", "anna", 5000, "0.2", 4000⟩]

theorem limit_exceeded_one_second_ahead : SkewedChecks {"api-1", "api-2"} oneSecondAhead skewedPair ∧
    (allowedDuring oneSecondAhead "anna" 0 (serve 1 skewedPair).2).length = 2 := by
  refine ⟨⟨?_, ?_, ?_, ?_⟩, ?_⟩
  · simp [skewedPair]
  all_goals decide

theorem limit_holds_burst : (allowedDuring ⟨fun _ => 0, 0⟩ "anna" 0 (serve 2 burst).2).length ≤ 2 := by
  have hskewed : SkewedChecks {"api-1", "api-2"} ⟨fun _ => 0, 0⟩ burst := by
    refine ⟨?_, ?_, ?_, ?_⟩
    · simp [burst]
    all_goals decide
  exact (limit_holds_iff_clocks_agree (by decide) {"api-1", "api-2"} ⟨fun _ => 0, 0⟩).mpr (fun _ _ _ _ => rfl) burst
    hskewed "anna" 0

end Marketplace
