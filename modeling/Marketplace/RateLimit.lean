import Mathlib.Data.List.Induction
import Marketplace.Redis.Keys

namespace Marketplace

open Redis

def windowMs : ℕ := 5000

-- `math.ceil(ms / 1000)`
def ceilSeconds (ms : ℤ) : ℤ := -(-ms / 1000)

abbrev SetKey := Option (Stored (List Scored))

/-- `SLIDING_WINDOW_SCRIPT`, run when Redis' clock shows `clock`: the reply, and what the key holds then. -/
def slidingWindowScript (clock : ℕ) (now window limit : ℕ) (member : String) (key : SetKey) :
    (ℕ × ℕ × ℤ) × SetKey :=
  let key := live clock key
  let entries := zremrangebyscore 0 ((now : ℤ) - window) (members key)
  let key := storeSet entries (key.bind Stored.expireAt)
  let count := entries.length
  if limit ≤ count then
    let retryAfter : ℤ :=
      match entries with
      | [] => 1
      | oldest :: _ => max 1 (ceilSeconds (window - (now - oldest.score)))
    ((0, count, retryAfter), key)
  else ((1, count + 1, 0), storeSet (zadd ⟨member, now⟩ entries) (some (clock + window)))

structure RateLimitResult where
  allowed : Bool
  count : ℕ
  retryAfterSeconds : ℤ
  deriving DecidableEq, Repr

/-- A call of `check` on one of the limiters: `random` is the text of its `Math.random()`, and `clock` is
Redis' clock when it runs the script. -/
structure Check where
  instanceName : String
  clientId : String
  now : ℕ
  random : String
  clock : ℕ
  deriving DecidableEq, Repr

def Check.member (c : Check) : String := c.instanceName ++ ":" ++ Nat.repr c.now ++ ":" ++ c.random

abbrev RateLimitKeys := String → SetKey

def rateLimitKey (clientId : String) : String := "rate-limit:" ++ clientId

def check (limit : ℕ) (redis : RateLimitKeys) (c : Check) : RateLimitResult × RateLimitKeys :=
  let (reply, key) :=
    slidingWindowScript c.clock c.now windowMs limit c.member (redis (rateLimitKey c.clientId))
  (⟨reply.1 = 1, reply.2.1, reply.2.2⟩, Function.update redis (rateLimitKey c.clientId) key)

abbrev Served := List (Check × RateLimitResult)

-- the scripts in the order in which Redis runs them
def serve (limit : ℕ) (checks : List Check) : RateLimitKeys × Served :=
  checks.foldl (fun (redis, served) c =>
    let (result, redis') := check limit redis c
    (redis', served ++ [(c, result)])) (fun _ => none, [])

theorem serve_snoc (limit : ℕ) (checks : List Check) (c : Check) : serve limit (checks ++ [c]) =
    ((check limit (serve limit checks).1 c).2,
      (serve limit checks).2 ++ [(c, (check limit (serve limit checks).1 c).1)]) := by
  simp only [serve, List.foldl_append, List.foldl_cons, List.foldl_nil]

theorem serve_map (limit : ℕ) (checks : List Check) : (serve limit checks).2.map Prod.fst = checks := by
  induction checks using List.reverseRecOn with
  | nil => rfl
  | append_singleton checks c ih => rw [serve_snoc, List.map_append, ih]; rfl

def allowedAfter (clientId : String) (start : ℤ) (served : Served) : Served :=
  served.filter fun p => p.1.clientId = clientId && p.2.allowed && start < p.1.now

def scored (p : Check × RateLimitResult) : Scored := ⟨p.1.member, p.1.now⟩

-- what a script at `now` finds in the set after it has pruned it
def visible (now : ℕ) (key : SetKey) : List Scored :=
  zremrangebyscore 0 ((now : ℤ) - windowMs) (members (live now key))

/-- From `since` on, a script sees the allowed checks of the last `windowMs` milliseconds. -/
def Tracks (clientId : String) (since : ℕ) (key : SetKey) (served : Served) : Prop :=
  ∀ now, since ≤ now → (visible now key).Perm ((allowedAfter clientId ((now : ℤ) - windowMs) served).map scored)

section Steps

variable {clientId : String} {limit since now : ℕ} {key : SetKey} {served : Served} {c : Check} {r : RateLimitResult}

theorem zremrangebyscore_again {low high high' : ℤ} (h : high ≤ high') (set : List Scored) :
    zremrangebyscore low high' (zremrangebyscore low high set) = zremrangebyscore low high' set := by
  simp only [zremrangebyscore, List.filter_filter]
  apply List.filter_congr
  intro entry _
  by_cases hlow : low ≤ entry.score <;> by_cases hhigh : entry.score ≤ high' <;> simp [hlow, hhigh]
  omega

theorem visible_pruned {now' : ℕ} (h : now ≤ now') :
    visible now' (storeSet (visible now key) ((live now key).bind Stored.expireAt)) = visible now' key := by
  cases key with
  | none => simp [visible, live, members, storeSet, zremrangebyscore]
  | some stored =>
    have hle : ((now : ℤ) - windowMs) ≤ (now' : ℤ) - windowMs := by omega
    by_cases ht : stored.expireAt.all (now ≤ ·)
    · have hlive : live now (some stored) = some stored := by simp [live, ht]
      have hmembers : members (live now (some stored)) = stored.value := by rw [hlive]; rfl
      simp only [visible, members_live_storeSet, members_live_some, hlive, Option.bind_some]
      split
      · exact zremrangebyscore_again hle stored.value
      · rfl
    · have hlater : ¬stored.expireAt.all (now' ≤ ·) := by
        cases hexpire : stored.expireAt with
        | none => simp [hexpire] at ht
        | some t =>
          simp only [hexpire, Option.all_some, decide_eq_true_eq] at ht ⊢
          omega
      simp only [visible, members_live_storeSet, members_live_some, ht, hlater]
      simp [zremrangebyscore]

theorem zremrangebyscore_scored {start start' : ℤ} (h : start ≤ start') :
    zremrangebyscore 0 start' ((allowedAfter clientId start served).map scored) =
      (allowedAfter clientId start' served).map scored := by
  simp only [zremrangebyscore, allowedAfter, List.filter_map, List.filter_filter]
  congr 1
  apply List.filter_congr
  intro p _
  by_cases hstart : start' < p.1.now
  · have hearlier : start < p.1.now := by omega
    simp [scored, hstart, hearlier, not_le.mpr hstart]
  · simp [scored, hstart, not_lt.mp hstart]

theorem allowedAfter_snoc {start : ℤ} : allowedAfter clientId start (served ++ [(c, r)]) =
    allowedAfter clientId start served ++
      if c.clientId = clientId && r.allowed && start < c.now then [(c, r)] else [] := by
  simp only [allowedAfter, List.filter_append, List.filter_cons, List.filter_nil]

theorem allowedAfter_eq_nil {start : ℤ} (h : ∀ p ∈ served, p.1.clientId = clientId → (p.1.now : ℤ) ≤ start) :
    allowedAfter clientId start served = [] := by
  apply List.filter_eq_nil_iff.mpr
  intro p hp hfilter
  simp only [Bool.and_eq_true, decide_eq_true_eq] at hfilter
  have hle := h p hp hfilter.1.1
  omega

theorem check_key_other (redis : RateLimitKeys) (h : rateLimitKey c.clientId ≠ rateLimitKey clientId) :
    (check limit redis c).2 (rateLimitKey clientId) = redis (rateLimitKey clientId) :=
  Function.update_of_ne h.symm _ _

theorem rateLimitKey_injective {a b : String} (h : rateLimitKey a = rateLimitKey b) : a = b := by
  have hl := congrArg String.toList h
  simp only [rateLimitKey, String.toList_append, List.append_cancel_left_eq] at hl
  exact String.toList_inj.mp hl

theorem check_cases (limit : ℕ) (redis : RateLimitKeys) (hclock : c.clock = c.now) :
    let entries := visible c.now (redis (rateLimitKey c.clientId))
    let expireAt := (live c.now (redis (rateLimitKey c.clientId))).bind Stored.expireAt
    let result := (check limit redis c).1
    let key := (check limit redis c).2 (rateLimitKey c.clientId)
    (limit ≤ entries.length ∧ result.allowed = false ∧ result.count = entries.length ∧
        key = storeSet entries expireAt) ∨
    (entries.length < limit ∧ result.allowed = true ∧ result.count = entries.length + 1 ∧
      key = storeSet (zadd ⟨c.member, c.now⟩ entries) (some (c.now + windowMs))) := by
  simp only [check, slidingWindowScript, hclock, Function.update_self]
  split
  · rename_i hfull
    exact .inl ⟨hfull, rfl, rfl, rfl⟩
  · rename_i hfree
    exact .inr ⟨not_le.mp hfree, rfl, rfl, rfl⟩

theorem tracks_allowed (h : Tracks c.clientId since key served) (hsince : since ≤ c.now)
    (hle : ∀ p ∈ served, p.1.clientId = c.clientId → p.1.now ≤ c.now)
    (hmember : ∀ p ∈ served, p.1.clientId = c.clientId → p.1.member ≠ c.member) (hr : r.allowed = true) :
    Tracks c.clientId c.now (storeSet (zadd ⟨c.member, c.now⟩ (visible c.now key)) (some (c.now + windowMs)))
      (served ++ [(c, r)]) := by
  intro now hnow
  have hperm := h c.now hsince
  have hfresh : ∀ other ∈ visible c.now key, other.member ≠ c.member := by
    intro other hother
    obtain ⟨p, hp, rfl⟩ := List.mem_map.mp (hperm.mem_iff.mp hother)
    obtain ⟨hmem, hfilter⟩ := List.mem_filter.mp hp
    simp only [Bool.and_eq_true, decide_eq_true_eq] at hfilter
    exact hmember p hmem hfilter.1.1
  simp only [visible, members_live_storeSet, Option.all_some, decide_eq_true_eq] at hperm hfresh ⊢
  split
  · have hadd := ((zadd_perm ⟨c.member, c.now⟩ hfresh).trans (hperm.cons _)).filter
      fun entry => !(0 ≤ entry.score && entry.score ≤ (now : ℤ) - windowMs)
    refine hadd.trans ?_
    have hstart : (c.now : ℤ) - windowMs ≤ (now : ℤ) - windowMs := by omega
    have hrest : ((allowedAfter c.clientId ((c.now : ℤ) - windowMs) served).map scored).filter
        (fun entry => !(0 ≤ entry.score && entry.score ≤ (now : ℤ) - windowMs)) =
          (allowedAfter c.clientId ((now : ℤ) - windowMs) served).map scored := zremrangebyscore_scored hstart
    rw [List.filter_cons, hrest, allowedAfter_snoc, List.map_append]
    by_cases hlast : (now : ℤ) - windowMs < c.now
    · simp only [hr, hlast, not_le.mpr hlast]
      simpa [scored] using (List.perm_append_singleton (scored (c, r))
        ((allowedAfter c.clientId ((now : ℤ) - windowMs) served).map scored)).symm
    · simp [hr, hlast, not_lt.mp hlast]
  · rename_i hexpired
    rw [allowedAfter_eq_nil]
    · rfl
    · intro p hp hclient
      rcases List.mem_append.mp hp with hp | hp
      · have := hle p hp hclient
        omega
      · rw [List.mem_singleton.mp hp]
        simp only
        omega

end Steps

/-- What is assumed of the calls: Redis' clock agrees with `now`, and on one client key the timestamps do
not decrease in the order of the scripts and no member comes twice. -/
structure SteadyChecks (checks : List Check) : Prop where
  clock : ∀ c ∈ checks, c.clock = c.now
  order : checks.Pairwise fun a b => a.clientId = b.clientId → a.now ≤ b.now
  members : checks.Pairwise fun a b => a.clientId = b.clientId → a.member ≠ b.member

def allowedWithin (clientId : String) (start finish : ℤ) (served : Served) : Served :=
  served.filter fun p => p.1.clientId = clientId && p.2.allowed && start < p.1.now && p.1.now ≤ finish

section Runs

variable {limit : ℕ} {checks before after : List Check} {c : Check} {clientId : String}

theorem SteadyChecks.earlier (h : SteadyChecks (before ++ after)) : SteadyChecks before where
  clock a ha := h.clock a (List.mem_append_left _ ha)
  order := (List.pairwise_append.mp h.order).1
  members := (List.pairwise_append.mp h.members).1

theorem SteadyChecks.last (h : SteadyChecks (before ++ c :: after)) : c.clock = c.now ∧
    ∀ a ∈ before, a.clientId = c.clientId → a.now ≤ c.now ∧ a.member ≠ c.member := by
  refine ⟨h.clock c (by simp), fun a ha hclient => ⟨?_, ?_⟩⟩
  · exact (List.pairwise_append.mp h.order).2.2 a ha c (List.mem_cons_self ..) hclient
  · exact (List.pairwise_append.mp h.members).2.2 a ha c (List.mem_cons_self ..) hclient

theorem served_check {p : Check × RateLimitResult} (h : p ∈ (serve limit checks).2) : p.1 ∈ checks := by
  have hmem := List.mem_map_of_mem (f := Prod.fst) h
  rwa [serve_map] at hmem

theorem tracks_run (limit : ℕ) (h : SteadyChecks checks) (since : ℕ)
    (hsince : ∀ c ∈ checks, c.clientId = clientId → c.now ≤ since) :
    Tracks clientId since ((serve limit checks).1 (rateLimitKey clientId)) (serve limit checks).2 := by
  induction checks using List.reverseRecOn generalizing since with
  | nil => exact fun now _ => List.Perm.refl _
  | append_singleton checks c ih =>
    obtain ⟨hclock, hlast⟩ := h.last
    simp only [serve_snoc]
    by_cases hclient : c.clientId = clientId
    · subst hclient
      have hnow : c.now ≤ since := hsince c (by simp) rfl
      have htracks := ih h.earlier c.now fun a ha hclient => (hlast a ha hclient).1
      intro now hle
      rcases check_cases limit (serve limit checks).1 hclock with
        ⟨-, hr, -, hkey⟩ | ⟨-, hr, -, hkey⟩
      · rw [hkey, visible_pruned (by omega), allowedAfter_snoc]
        simpa [hr] using htracks now (by omega)
      · rw [hkey]
        refine tracks_allowed htracks (Nat.le_refl _) ?_ ?_ hr now (by omega)
        · exact fun p hp hclient => (hlast p.1 (served_check hp) hclient).1
        · exact fun p hp hclient => (hlast p.1 (served_check hp) hclient).2
    · intro now hle
      have hkey : rateLimitKey c.clientId ≠ rateLimitKey clientId := fun heq => hclient (rateLimitKey_injective heq)
      rw [check_key_other _ hkey, allowedAfter_snoc]
      have htracks := ih h.earlier since (fun a ha => hsince a (List.mem_append_left _ ha)) now hle
      simpa [hclient] using htracks

theorem allowedWithin_eq (h : SteadyChecks (before ++ c :: after)) (start : ℤ) :
    allowedWithin c.clientId start c.now (serve limit before).2 =
      allowedAfter c.clientId start (serve limit before).2 := by
  apply List.filter_congr
  intro p hp
  by_cases hclient : p.1.clientId = c.clientId
  · have hle := (h.last.2 p.1 (served_check hp) hclient).1
    simp [hle]
  · simp [hclient]

theorem check_exact (limit : ℕ) (h : SteadyChecks (before ++ c :: after)) :
    let window := allowedWithin c.clientId ((c.now : ℤ) - windowMs) c.now (serve limit before).2
    let result := (check limit (serve limit before).1 c).1
    (result.allowed = true ↔ window.length < limit) ∧
    result.count = window.length + (if result.allowed then 1 else 0) ∧
    (live c.clock ((serve limit before).1 (rateLimitKey c.clientId)) = none → window = []) := by
  obtain ⟨hclock, hlast⟩ := h.last
  have hperm := tracks_run limit h.earlier c.now (fun a ha hclient => (hlast a ha hclient).1) c.now
    (Nat.le_refl _)
  have hlength := hperm.length_eq
  rw [List.length_map] at hlength
  simp only [allowedWithin_eq h]
  refine ⟨?_, ?_, ?_⟩
  · rcases check_cases limit (serve limit before).1 hclock with ⟨hfull, hr, -⟩ | ⟨hfree, hr, -⟩
    · rw [hr, ← hlength]
      simpa using hfull
    · rw [hr, ← hlength]
      simpa using hfree
  · rcases check_cases limit (serve limit before).1 hclock with ⟨-, hr, hcount, -⟩ | ⟨-, hr, hcount, -⟩
    · rw [hr, hcount, hlength]
      rfl
    · rw [hr, hcount, hlength]
      rfl
  · intro hexpired
    rw [hclock] at hexpired
    simp only [visible, hexpired] at hperm
    exact List.map_eq_nil_iff.mp (List.nil_perm.mp hperm)

theorem allowedWithin_le (h : SteadyChecks checks) (clientId : String) (start : ℤ) :
    (allowedWithin clientId start (start + windowMs) (serve limit checks).2).length ≤ limit := by
  induction checks using List.reverseRecOn with
  | nil => exact Nat.zero_le _
  | append_singleton checks c ih =>
    have hbefore := ih h.earlier
    simp only [serve_snoc]
    by_cases hin : c.clientId = clientId ∧ (check limit (serve limit checks).1 c).1.allowed = true ∧
        start < c.now ∧ c.now ≤ start + windowMs
    · obtain ⟨rfl, hr, hstart, hfinish⟩ := hin
      have hfree := ((check_exact limit h).1).mp hr
      -- the allowed checks of this window are all in the one that ends at `c`
      have hsub : (allowedWithin c.clientId start (start + windowMs) (serve limit checks).2).length ≤
          (allowedWithin c.clientId ((c.now : ℤ) - windowMs) c.now (serve limit checks).2).length := by
        rw [allowedWithin_eq h]
        apply List.Sublist.length_le
        apply List.monotone_filter_right
        intro p hp
        simp only [Bool.and_eq_true, decide_eq_true_eq] at hp ⊢
        refine ⟨hp.1.1, ?_⟩
        omega
      simp only [allowedWithin, List.filter_append, List.length_append] at hsub hfree ⊢
      have hone : (List.filter (fun p : Check × RateLimitResult => p.1.clientId = c.clientId && p.2.allowed &&
          start < p.1.now && p.1.now ≤ start + windowMs) [(c, (check limit (serve limit checks).1 c).1)]).length ≤ 1 :=
        List.length_filter_le _ _
      omega
    · have hout : allowedWithin clientId start (start + windowMs) [(c, (check limit (serve limit checks).1 c).1)] =
        [] := by
        apply List.filter_eq_nil_iff.mpr
        intro p hp
        rw [List.mem_singleton.mp hp]
        simp only [Bool.and_eq_true, decide_eq_true_eq]
        rintro ⟨⟨⟨hclient, hr⟩, hstart⟩, hfinish⟩
        exact hin ⟨hclient, hr, hstart, hfinish⟩
      simp only [allowedWithin, List.filter_append, List.length_append] at hbefore hout ⊢
      rw [hout]
      exact hbefore

end Runs

theorem sliding_window_exact (limit : ℕ) {checks : List Check} (h : SteadyChecks checks) :
    (∀ before c after, checks = before ++ c :: after →
      let window := allowedWithin c.clientId ((c.now : ℤ) - windowMs) c.now (serve limit before).2
      let result := (check limit (serve limit before).1 c).1
      (result.allowed = true ↔ window.length < limit) ∧
      result.count = window.length + (if result.allowed then 1 else 0) ∧
      (live c.clock ((serve limit before).1 (rateLimitKey c.clientId)) = none → window = [])) ∧
    ∀ clientId start,
      (allowedWithin clientId start (start + windowMs) (serve limit checks).2).length ≤ limit := by
  refine ⟨?_, fun clientId start => allowedWithin_le h clientId start⟩
  rintro before c after rfl
  exact check_exact limit h

-- the last check comes when the first two have just left the window
def burst : List Check :=
  [⟨"api-1", "anna", 10, "0.1", 10⟩, ⟨"api-2", "anna", 10, "0.2", 10⟩, ⟨"api-1", "anna", 5009, "0.3", 5009⟩,
    ⟨"api-2", "anna", 5010, "0.4", 5010⟩]

theorem burst_steady : SteadyChecks burst := ⟨by decide, by decide, by decide⟩

theorem sliding_window_exact_burst : (serve 2 burst).2.map (·.2.allowed) = [true, true, false, true] ∧
    ∀ clientId start, (allowedWithin clientId start (start + windowMs) (serve 2 burst).2).length ≤ 2 :=
  ⟨by decide, (sliding_window_exact 2 burst_steady).2⟩

end Marketplace
