import Marketplace.RateLimit

namespace Marketplace

open Redis

/-- What is assumed of the calls: Redis' clock agrees with `now`, and on one client key the timestamps do
not decrease in the order of the scripts. -/
structure OrderedChecks (checks : List Check) : Prop where
  clock : ∀ c ∈ checks, c.clock = c.now
  order : checks.Pairwise fun a b => a.clientId = b.clientId → a.now ≤ b.now

/-- What a client's key holds after the scripts up to `since`: at most `limit` entries in the order of their
scores, and it does not expire before the last of them has left the window. -/
structure WindowSet (limit since : ℕ) (key : SetKey) : Prop where
  sorted : (members key).Pairwise (·.score ≤ ·.score)
  size : (members key).length ≤ limit
  scores : ∀ entry ∈ members key, 0 ≤ entry.score ∧ entry.score ≤ since
  expiry : ∀ stored, key = some stored →
      ∃ t : ℕ, stored.expireAt = some t ∧ ∀ entry ∈ stored.value, entry.score + windowMs ≤ t

section Sets

variable {limit since now : ℕ} {key : SetKey} {set : List Scored} {expireAt : Option ℕ}

theorem sorted_orderedInsert (entry : Scored) (h : set.Pairwise (·.score ≤ ·.score)) :
    (set.orderedInsert Scored.before entry).Pairwise (·.score ≤ ·.score) := by
  induction set with
  | nil => simp
  | cons first rest ih =>
    obtain ⟨hfirst, hrest⟩ := List.pairwise_cons.mp h
    rw [List.orderedInsert_cons]
    split
    · rename_i hbefore
      have hle : entry.score ≤ first.score := by
        rcases hbefore with hlt | ⟨heq, -⟩ <;> omega
      refine List.pairwise_cons.mpr ⟨?_, h⟩
      intro other hother
      rcases List.mem_cons.mp hother with rfl | hother
      · exact hle
      · exact hle.trans (hfirst other hother)
    · rename_i hafter
      have hle : first.score ≤ entry.score := by
        by_contra hlt
        exact hafter (.inl (by omega))
      refine List.pairwise_cons.mpr ⟨?_, ih hrest⟩
      intro other hother
      rcases (List.mem_orderedInsert _).mp hother with rfl | hother
      · exact hle
      · exact hfirst other hother

theorem WindowSet.visible_eq (h : WindowSet limit since key) (now : ℕ) :
    visible now key = (members key).filter fun entry => (now : ℤ) - windowMs < entry.score := by
  have hprune (set : List Scored) (hset : ∀ entry ∈ set, 0 ≤ entry.score) :
      zremrangebyscore 0 ((now : ℤ) - windowMs) set = set.filter fun entry => (now : ℤ) - windowMs < entry.score := by
    apply List.filter_congr
    intro entry hentry
    have hscore := hset entry hentry
    by_cases hin : (now : ℤ) - windowMs < entry.score
    · simp [hin]
    · simp [hin, not_lt.mp hin, hscore]
  cases key with
  | none => rfl
  | some stored =>
    obtain ⟨t, ht, hentries⟩ := h.expiry stored rfl
    unfold visible
    rw [members_live_some, ht]
    split
    · exact hprune stored.value fun entry hentry => (h.scores entry hentry).1
    · rename_i hexpired
      simp only [Option.all_some, decide_eq_true_eq, not_le] at hexpired
      symm
      apply List.filter_eq_nil_iff.mpr
      intro entry hentry
      have hleft := hentries entry hentry
      simp only [decide_eq_true_eq]
      omega

theorem WindowSet.empty : WindowSet limit since none := ⟨.nil, Nat.zero_le _, nofun, nofun⟩

theorem WindowSet.later (h : WindowSet limit since key) (hle : since ≤ now) : WindowSet limit now key :=
  ⟨h.sorted, h.size, fun entry hentry =>
      ⟨(h.scores entry hentry).1, by have := (h.scores entry hentry).2; omega⟩, h.expiry⟩

theorem WindowSet.pruned (h : WindowSet limit since key) (hle : since ≤ now) :
    WindowSet limit now (storeSet (visible now key) ((live now key).bind Stored.expireAt)) := by
  have hsub : (visible now key).Sublist (members key) := by
    rw [h.visible_eq]
    exact List.filter_sublist
  refine ⟨?_, ?_, ?_, ?_⟩
  · rw [members_storeSet]
    exact h.sorted.sublist hsub
  · rw [members_storeSet]
    exact hsub.length_le.trans h.size
  · rw [members_storeSet]
    exact fun entry hentry => (h.later hle).scores entry (hsub.subset hentry)
  · intro stored hstored
    unfold storeSet at hstored
    split_ifs at hstored with hempty
    cases hstored
    cases hlive : live now key with
    | none =>
      have hnone : visible now key = [] := by simp [visible, hlive, members, zremrangebyscore]
      exact absurd hnone hempty
    | some stored =>
      obtain ⟨rfl, -⟩ := live_eq_some.mp hlive
      obtain ⟨t, ht, hentries⟩ := h.expiry stored rfl
      exact ⟨t, ht, fun entry hentry => hentries entry (hsub.subset hentry)⟩

theorem WindowSet.added (h : WindowSet limit since key) (hle : since ≤ now) (hfree : (visible now key).length < limit)
    (member : String) :
    WindowSet limit now (storeSet (zadd ⟨member, now⟩ (visible now key)) (some (now + windowMs))) := by
  have hpruned := h.pruned hle
  have hsorted := hpruned.sorted
  have hscores := hpruned.scores
  rw [members_storeSet] at hsorted hscores
  have hmem : ∀ entry ∈ zadd ⟨member, now⟩ (visible now key), 0 ≤ entry.score ∧ entry.score ≤ now := by
    intro entry hentry
    rcases (List.mem_orderedInsert _).mp hentry with rfl | hentry
    · exact ⟨Int.natCast_nonneg _, le_refl _⟩
    · exact hscores entry (List.mem_of_mem_filter hentry)
  refine ⟨?_, ?_, ?_, ?_⟩
  · rw [members_storeSet]
    exact sorted_orderedInsert _ (hsorted.sublist List.filter_sublist)
  · rw [members_storeSet]
    have hlength : ((visible now key).filter fun other => other.member ≠ member).length ≤ (visible now key).length :=
      List.length_filter_le _ _
    rw [zadd, List.orderedInsert_length]
    exact Nat.lt_of_le_of_lt hlength hfree
  · rw [members_storeSet]
    exact hmem
  · intro stored hstored
    unfold storeSet at hstored
    split_ifs at hstored
    cases hstored
    refine ⟨_, rfl, fun entry hentry => ?_⟩
    have := (hmem entry hentry).2
    push_cast
    omega

end Sets

section Runs

variable {limit : ℕ} {checks before between : List Check} {c later : Check} {clientId : String}

theorem OrderedChecks.earlier {after : List Check} (h : OrderedChecks (before ++ after)) : OrderedChecks before :=
  ⟨fun a ha => h.clock a (List.mem_append_left _ ha), (List.pairwise_append.mp h.order).1⟩

theorem windowSet_check (redis : RateLimitKeys) {since : ℕ}
    (h : WindowSet limit since (redis (rateLimitKey c.clientId))) (hclock : c.clock = c.now)
    (hle : since ≤ c.now) :
    WindowSet limit c.now ((check limit redis c).2 (rateLimitKey c.clientId)) := by
  rcases check_cases limit redis hclock with ⟨-, -, -, hkey⟩ | ⟨hfree, -, -, hkey⟩
  · rw [hkey]
    exact h.pruned hle
  · rw [hkey]
    exact h.added hle hfree c.member

theorem windowSet_run (limit : ℕ) (h : OrderedChecks checks) (since : ℕ)
    (hsince : ∀ c ∈ checks, c.clientId = clientId → c.now ≤ since) :
    WindowSet limit since ((serve limit checks).1 (rateLimitKey clientId)) := by
  induction checks using List.reverseRecOn generalizing since with
  | nil => exact .empty
  | append_singleton checks c ih =>
    simp only [serve_snoc]
    by_cases hclient : c.clientId = clientId
    · subst hclient
      have hlast := (List.pairwise_append.mp h.order).2.2
      have hbefore := ih h.earlier c.now fun a ha hclient => hlast a ha c (List.mem_singleton_self c) hclient
      exact (windowSet_check _ hbefore (h.clock c (by simp)) (le_refl _)).later (hsince c (by simp) rfl)
    · have hkey : rateLimitKey c.clientId ≠ rateLimitKey clientId := fun heq => hclient (rateLimitKey_injective heq)
      simp only [check_key_other _ hkey]
      exact ih h.earlier since fun a ha => hsince a (List.mem_append_left _ ha)

theorem serve_others (checks : List Check) (h : ∀ a ∈ between, a.clientId ≠ clientId) :
    (serve limit (checks ++ between)).1 (rateLimitKey clientId) = (serve limit checks).1 (rateLimitKey clientId) := by
  induction between using List.reverseRecOn with
  | nil => rw [List.append_nil]
  | append_singleton between a ih =>
    have hkey : rateLimitKey a.clientId ≠ rateLimitKey clientId :=
      fun heq => h a (by simp) (rateLimitKey_injective heq)
    rw [← List.append_assoc]
    simp only [serve_snoc, check_key_other _ hkey]
    exact ih fun b hb => h b (List.mem_append_left _ hb)

theorem retryAfterSeconds_eq (redis : RateLimitKeys) (hclock : c.clock = c.now)
    (hfull : limit ≤ (visible c.now (redis (rateLimitKey c.clientId))).length) {oldest : Scored} {rest : List Scored}
    (hentries : visible c.now (redis (rateLimitKey c.clientId)) = oldest :: rest) :
    (check limit redis c).1.retryAfterSeconds = max 1 (ceilSeconds (windowMs - (c.now - oldest.score))) := by
  unfold visible at hfull hentries
  simp only [check, slidingWindowScript, hclock, hentries] at hfull ⊢
  rw [if_pos hfull]

theorem allowed_after_blocked (hlimit : 1 ≤ limit) (h : OrderedChecks (before ++ [c]))
    (hbetween : ∀ a ∈ between, a.clientId ≠ c.clientId) (hlater : later.clientId = c.clientId)
    (hclock : later.clock = later.now) (hblocked : (check limit (serve limit before).1 c).1.allowed = false) :
    ∃ oldest : Scored, (c.now : ℤ) - windowMs < oldest.score ∧
      (check limit (serve limit before).1 c).1.retryAfterSeconds =
      max 1 (ceilSeconds (windowMs - (c.now - oldest.score))) ∧
      ((check limit (serve limit (before ++ c :: between)).1 later).1.allowed = true ↔
      oldest.score + windowMs ≤ later.now) := by
  have hcclock := h.clock c (by simp)
  have hlast := (List.pairwise_append.mp h.order).2.2
  have hset := windowSet_run limit h.earlier c.now fun a ha hclient => hlast a ha c (List.mem_singleton_self c) hclient
  have hpruned := hset.pruned (le_refl c.now)
  have hkey : (serve limit (before ++ c :: between)).1 (rateLimitKey later.clientId) =
      (check limit (serve limit before).1 c).2 (rateLimitKey c.clientId) := by
    have hsplit : before ++ c :: between = (before ++ [c]) ++ between := by simp
    rw [hlater, hsplit, serve_others _ hbetween]
    simp only [serve_snoc]
  rcases check_cases limit (serve limit before).1 hcclock with ⟨hfull, -, -, hstored⟩ | ⟨-, hr, -⟩
  swap
  · rw [hr] at hblocked
    cases hblocked
  rw [← hstored, ← hkey] at hpruned
  have hvisible := hpruned.visible_eq later.now
  have hsorted := hpruned.sorted
  have hsize := hpruned.size
  rw [hkey, hstored, members_storeSet] at hsorted hsize
  have hallowed : (check limit (serve limit (before ++ c :: between)).1 later).1.allowed = true ↔
      (visible later.now ((serve limit (before ++ c :: between)).1 (rateLimitKey later.clientId))).length < limit := by
    rcases check_cases limit (serve limit (before ++ c :: between)).1 hclock with ⟨hfull, hr, -⟩ | ⟨hfree, hr, -⟩
    · simpa [hr] using hfull
    · simpa [hr] using hfree
  rw [hallowed, hvisible, hkey, hstored, members_storeSet]
  cases hentries : visible c.now ((serve limit before).1 (rateLimitKey c.clientId)) with
  | nil =>
    rw [hentries, List.length_nil] at hfull
    omega
  | cons oldest rest =>
    have hin : (c.now : ℤ) - windowMs < oldest.score := by
      have hmem : oldest ∈ visible c.now ((serve limit before).1 (rateLimitKey c.clientId)) := by
        rw [hentries]
        exact List.mem_cons_self
      rw [hset.visible_eq] at hmem
      simpa using (List.mem_filter.mp hmem).2
    refine ⟨oldest, hin, retryAfterSeconds_eq _ hcclock hfull hentries, ?_⟩
    rw [hentries] at hsorted hsize hfull
    constructor
    · intro hfree
      by_contra hkept
      -- nothing has left the window before the oldest entry
      have hall : (oldest :: rest).filter (fun entry => (later.now : ℤ) - windowMs < entry.score) = oldest :: rest := by
        apply List.filter_eq_self.mpr
        intro entry hentry
        simp only [decide_eq_true_eq]
        rcases List.mem_cons.mp hentry with rfl | hentry
        · omega
        · have := (List.pairwise_cons.mp hsorted).1 entry hentry
          omega
      rw [hall] at hfree
      omega
    · intro hleft
      have hout : ¬((later.now : ℤ) - windowMs < oldest.score) := by omega
      rw [List.filter_cons_of_neg (by simpa using hout)]
      have hrest := List.length_filter_le (fun entry : Scored => decide ((later.now : ℤ) - windowMs < entry.score)) rest
      rw [List.length_cons] at hsize
      omega

end Runs

/-- `retryAfterSeconds` is the least number of whole seconds after which a check is allowed again. -/
theorem retry_after_exact {limit : ℕ} (hlimit : 1 ≤ limit) {before between : List Check} {c later : Check}
    (h : OrderedChecks (before ++ [c])) (hbetween : ∀ a ∈ between, a.clientId ≠ c.clientId)
    (hlater : later.clientId = c.clientId) (hclock : later.clock = later.now)
    (hblocked : (check limit (serve limit before).1 c).1.allowed = false) :
    let retryAfter := (check limit (serve limit before).1 c).1.retryAfterSeconds
    let allowed := (check limit (serve limit (before ++ c :: between)).1 later).1.allowed
    ((later.now : ℤ) = c.now + 1000 * retryAfter → allowed = true) ∧
      ∀ k : ℤ, 1 ≤ k → k < retryAfter → (later.now : ℤ) = c.now + 1000 * k → allowed = false := by
  intro retryAfter allowed
  obtain ⟨oldest, hin, hretry, hallowed⟩ := allowed_after_blocked hlimit h hbetween hlater hclock hblocked
  have hretry : retryAfter = max 1 (ceilSeconds (windowMs - (c.now - oldest.score))) := hretry
  unfold ceilSeconds at hretry
  constructor
  · intro hnow
    apply hallowed.mpr
    omega
  · intro k hpos hk hnow
    apply Bool.eq_false_iff.mpr
    intro hr
    have hleft := hallowed.mp hr
    omega

-- the third check is blocked for five seconds, less a hundred milliseconds
def blockedBurst : List Check :=
  [⟨"api-1", "anna", 10, "0.1", 10⟩, ⟨"api-2", "anna", 20, "0.2", 20⟩]

theorem retry_after_exact_burst :
    (check 2 (serve 2 blockedBurst).1 ⟨"api-1", "anna", 110, "0.3", 110⟩).1.retryAfterSeconds = 5 ∧
    (check 2 (serve 2 (blockedBurst ++ [⟨"api-1", "anna", 110, "0.3", 110⟩])).1
      ⟨"api-1", "anna", 5110, "0.4", 5110⟩).1.allowed = true := by
  refine ⟨by decide, ?_⟩
  have h := @retry_after_exact 2 (by decide) blockedBurst [] ⟨"api-1", "anna", 110, "0.3", 110⟩
    ⟨"api-1", "anna", 5110, "0.4", 5110⟩ ⟨by decide, by decide⟩ (by simp) rfl rfl (by decide)
  exact h.1 (by decide)

end Marketplace
