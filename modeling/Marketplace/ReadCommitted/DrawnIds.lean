import Marketplace.ReadCommitted.Phases

/-!
The ids that clients have drawn from a sequence for rows they have yet to insert, and the run theorem:
clients that follow a policy are in their phases in every reachable state.
-/

namespace ReadCommitted

open Concurrent

variable {T Q K L X Ext : Type} {R : K → Type} {ExtRes : Ext → Type} {E α : Type} [DecidableEq T]

def Database.Free (db : Database T Q K R) (k : K) : Prop := db.committed k = none ∧ db.held k = none

/-- A drawn id belongs to the client that drew it until that client inserts the row. -/
structure DrawnIds (ids : Q → ℕ → Option K) (db : Database T Q K R) (z : T → Phase Q K L) : Prop where
  free : ∀ t k, (z t).fresh k → db.Free k
  own : ∀ t u k, (z t).fresh k → (z u).fresh k → t = u
  drawn : ∀ t k, (z t).fresh k → ∃ q n, ids q n = some k ∧ n < db.seq q
  next : ∀ q n k, ids q n = some k → db.seq q ≤ n → db.Free k

namespace DrawnIds

variable [DecidableEq Q] [DecidableEq K] {ids : Q → ℕ → Option K} {db db' : Database T Q K R} {z : T → Phase Q K L}
    {t : T} {z' : Phase Q K L}

omit [DecidableEq Q] [DecidableEq K] [DecidableEq T] in
theorem start (h : db.Quiescent) (hnext : ∀ q n k, ids q n = some k → db.seq q ≤ n → db.committed k = none) :
    DrawnIds ids db fun _ : T => (.start : Phase Q K L) where
  free _ _ h := h.elim
  own _ _ _ h := h.elim
  drawn _ _ h := h.elim
  next q n k hk hn := ⟨hnext q n k hk hn, h.held k⟩

omit [DecidableEq Q] [DecidableEq K] in
theorem fresh_update (hz : ∀ k, z'.fresh k → (z t).fresh k) {u : T} {k : K} (hk : (Function.update z t z' u).fresh k) :
    (z u).fresh k := by
  by_cases hu : u = t
  · subst hu
    rw [Function.update_self] at hk
    exact hz k hk
  · rwa [Function.update_of_ne hu] at hk

omit [DecidableEq Q] [DecidableEq K] in
theorem mono (h : DrawnIds ids db z) (hfree : ∀ k, db.Free k → db'.Free k) (hseq : db'.seq = db.seq)
    (hz : ∀ k, z'.fresh k → (z t).fresh k) : DrawnIds ids db' (Function.update z t z') where
  free u k hk := hfree k (h.free u k (fresh_update hz hk))
  own u v k hk hk' := h.own u v k (fresh_update hz hk) (fresh_update hz hk')
  drawn u k hk := by
    rw [hseq]
    exact h.drawn u k (fresh_update hz hk)
  next q n k hk hn := hfree k (h.next q n k hk (hseq ▸ hn))

omit [DecidableEq Q] [DecidableEq T] in
theorem free_hold {k j : K} {r : R j} (hk : db.Free k) (hne : k ≠ j) : (db.hold t j r).Free k :=
  ⟨hk.1, by simpa [Database.hold, hne] using hk.2⟩

omit [DecidableEq Q] in
theorem free_locks {j k : K} {r : Option (R j)} (hlocks : db.Locks t j r db') (hk : db.Free k) : db'.Free k := by
  cases hlocks with
  | again _ => exact hk
  | missing _ => exact hk
  | taken _ hc =>
    refine free_hold hk ?_
    rintro rfl
    rw [hk.1] at hc
    cases hc

omit [DecidableEq Q] in
theorem seq_locks {j : K} {r : Option (R j)} (hlocks : db.Locks t j r db') : db'.seq = db.seq := by
  cases hlocks <;> rfl

omit [DecidableEq Q] [DecidableEq K] in
theorem free_release {k : K} (hk : db.held k = none) : db.release t k = none := by
  simp [Database.release, hk]

omit [DecidableEq Q] [DecidableEq K] in
theorem free_commit {k : K} (hk : db.Free k) : (db.commit t).Free k := by
  unfold Database.commit
  split
  · exact ⟨by simp [Database.visible, hk.1, hk.2], free_release hk.2⟩
  · exact hk

omit [DecidableEq Q] [DecidableEq K] in
theorem free_rollback {k : K} (hk : db.Free k) : (db.rollback t).Free k := by
  unfold Database.rollback
  split
  · exact ⟨hk.1, free_release hk.2⟩
  · exact hk

variable (hinj : ∀ {q n q' n' k}, ids q n = some k → ids q' n' = some k → q = q' ∧ n = n')

include hinj

omit [DecidableEq Q] in
theorem reserve (h : DrawnIds ids db z) {k : K} {r : R k} {l : L} (hk : (∃ q n, ids q n = some k) → (z t).fresh k) :
    DrawnIds ids (db.hold t k r) (Function.update z t ((z t).insert k l)) := by
  have hz : ∀ j, ((z t).insert k l).fresh j → (z t).fresh j := fun _ h => h.2
  have hne : ∀ u j, (Function.update z t ((z t).insert k l) u).fresh j → j ≠ k := by
    rintro u j hj rfl
    obtain ⟨q, n, hids, -⟩ := h.drawn u j (fresh_update hz hj)
    obtain rfl := h.own _ _ j (hk ⟨q, n, hids⟩) (fresh_update hz hj)
    rw [Function.update_self] at hj
    exact hj.1 rfl
  refine ⟨fun u j hj => free_hold (h.free u j (fresh_update hz hj)) (hne u j hj),
    fun u v j hj hj' => h.own u v j (fresh_update hz hj) (fresh_update hz hj'),
    fun u j hj => h.drawn u j (fresh_update hz hj), fun q n j hids hn => free_hold (h.next q n j hids hn) ?_⟩
  rintro rfl
  obtain ⟨q', n', hids', hn'⟩ := h.drawn t j (hk ⟨q, n, hids⟩)
  obtain ⟨rfl, rfl⟩ := hinj hids hids'
  exact absurd hn' (Nat.not_lt.mpr hn)

omit [DecidableEq K] in
theorem draw (h : DrawnIds ids db z) (q : Q) :
    DrawnIds ids { db with seq := Function.update db.seq q (db.seq q + 1) }
      (Function.update z t ((z t).draw ids q (db.seq q))) := by
  have hle : ∀ q', db.seq q' ≤ Function.update db.seq q (db.seq q + 1) q' := by
    intro q'
    by_cases hq : q' = q
    · subst hq
      simp
    · simp [hq]
  have hcases : ∀ u k, (Function.update z t ((z t).draw ids q (db.seq q)) u).fresh k →
      (u = t ∧ ids q (db.seq q) = some k) ∨ (z u).fresh k := by
    intro u k hk
    by_cases hu : u = t
    · subst hu
      rw [Function.update_self] at hk
      exact hk.imp_left fun hk => ⟨rfl, hk⟩
    · rw [Function.update_of_ne hu] at hk
      exact .inr hk
  have hdistinct : ∀ u k, ids q (db.seq q) = some k → ¬(z u).fresh k := by
    intro u k hk hfresh
    obtain ⟨q', n', hids, hn⟩ := h.drawn u k hfresh
    obtain ⟨rfl, rfl⟩ := hinj hk hids
    exact absurd hn (Nat.lt_irrefl _)
  refine ⟨fun u k hk => ?_, fun u v k hk hk' => ?_, fun u k hk => ?_, fun q' n k hids hn => ?_⟩
  · rcases hcases u k hk with ⟨-, hids⟩ | hfresh
    · exact h.next q _ k hids le_rfl
    · exact h.free u k hfresh
  · rcases hcases u k hk with ⟨rfl, hids⟩ | hfresh
    · rcases hcases v k hk' with ⟨rfl, -⟩ | hfresh'
      · rfl
      · exact absurd hfresh' (hdistinct v k hids)
    · rcases hcases v k hk' with ⟨-, hids⟩ | hfresh'
      · exact absurd hfresh (hdistinct u k hids)
      · exact h.own u v k hfresh hfresh'
  · rcases hcases u k hk with ⟨-, hids⟩ | hfresh
    · exact ⟨q, _, hids, by simp⟩
    · obtain ⟨q', n, hids, hn⟩ := h.drawn u k hfresh
      exact ⟨q', n, hids, hn.trans_le (hle q')⟩
  · exact h.next q' n k hids ((hle q').trans hn)

end DrawnIds

section Runs

variable [DecidableEq Q] [DecidableEq K] {S : Policy Q K R Ext L} {G : Except E α → Phase Q K L → Prop}
  {M : Machine T X Ext ExtRes E} {e : E}

omit [DecidableEq T] [DecidableEq K] in
theorem Policy.After.fresh {z z' : Phase Q K L} {a : Action Q K R Ext} {r : Except E (a.Res ExtRes)}
    (h : S.After z a r z') (ha : ∀ q, a ≠ .sql (.nextval q)) : ∀ k, z'.fresh k → z.fresh k := by
  have hsame : z' = z → ∀ k, z'.fresh k → z.fresh k := by
    rintro rfl k hk
    exact hk
  have hended : z' = z ∨ z' = z.release → ∀ k, z'.fresh k → z.fresh k := by
    rintro (rfl | rfl) k hk
    · exact hk
    · exact hk
  cases a with
  | ext o => exact hsame h
  | sql o =>
    cases o with
    | nextval q => exact absurd rfl (ha q)
    | begin => exact hsame h
    | put k x => exact hsame h
    | commit => exact hended h
    | rollback => exact hended h
    | statement =>
      cases r with
      | error e => exact hsame h
      | ok view => exact h.1 ▸ fun _ h => h
    | lock k =>
      rcases r with e | _ | x
      · exact hsame h
      · exact hsame h.1
      · exact h ▸ fun _ h => h
    | tryLock k =>
      rcases r with e | _ | x
      · exact hsame h
      · exact hsame h
      · exact h ▸ fun _ h => h
    | reserve k x =>
      rcases r with e | _ | _
      · exact hsame h
      · exact hsame h
      · exact h ▸ fun _ h => h.2

structure Policy.Draws (S : Policy Q K R Ext L) : Prop where
  inj : ∀ {q n q' n' k}, S.ids q n = some k → S.ids q' n' = some k → q = q' ∧ n = n'
  reserves : ∀ {z k r A}, S.allows z (.sql (.reserve k r)) A → (∃ q n, S.ids q n = some k) → z.fresh k

omit [DecidableEq Q] [DecidableEq K] in
theorem Policy.of_draws {label : (k : K) → R k → L} {asks : Phase Q K L → Action Q K R Ext → Prop} :
    (Policy.of label asks).Draws := by
  constructor
  · intro q n q' n' k h
    cases h
  · rintro z k r A - ⟨q, n, h⟩
    cases h

theorem DrawnIds.performs {z : T → Phase Q K L} {t : T} {z' : Phase Q K L} {a : Action Q K R Ext}
    {w w' : World T Q K R X} {r : Except E (a.Res ExtRes)} {A : K → Prop} (hS : S.Draws)
    (h : DrawnIds S.ids w.db z) (hallows : S.allows (z t) a A) (hafter : S.After (z t) a r z')
    (hp : Performs M e t a w r w') : DrawnIds S.ids w'.db (Function.update z t z') := by
  cases hp with
  | @answer _ o _ db' hx =>
    cases o with
    | begin =>
      cases hx
      exact h.mono (fun _ h => h) rfl (hafter.fresh nofun)
    | statement =>
      cases hx
      exact h.mono (fun _ h => h) rfl (hafter.fresh nofun)
    | lock k =>
      have hlocks := Database.locks_of_lock hx
      exact h.mono (fun _ => free_locks hlocks) (seq_locks hlocks) (hafter.fresh nofun)
    | tryLock k =>
      have hlocks := Database.locks_of_tryLock hx
      exact h.mono (fun _ => free_locks hlocks) (seq_locks hlocks) (hafter.fresh nofun)
    | put k x =>
      obtain ⟨⟨y, hy⟩, rfl⟩ := Database.put_eq hx
      refine h.mono (fun j hj => free_hold hj ?_) rfl (hafter.fresh nofun)
      rintro rfl
      have hheld := Database.held_of_workspace hy
      rw [hj.2] at hheld
      cases hheld
    | reserve k x =>
      rcases Database.reserve_eq hx with ⟨rfl, rfl, -⟩ | ⟨rfl, rfl, -, -⟩
      · exact h.mono (fun _ h => h) rfl (hafter.fresh nofun)
      · obtain rfl : z' = (z t).insert k (S.label k x) := hafter
        exact h.reserve hS.inj (hS.reserves hallows)
    | nextval q =>
      cases hx
      obtain ⟨-, rfl⟩ := hafter
      exact h.draw hS.inj q
    | commit =>
      cases hx
      exact h.mono (fun _ => free_commit) Database.seq_commit (hafter.fresh nofun)
    | rollback =>
      cases hx
      exact h.mono (fun _ => free_rollback) Database.seq_rollback (hafter.fresh nofun)
  | @refuse w o ho =>
    refine h.mono (fun _ h => h) rfl ?_
    cases o with
    | nextval q =>
      obtain rfl : z' = z t := hafter
      exact fun _ h => h
    | _ => exact hafter.fresh nofun
  | lostCommit => exact h.mono (fun _ => free_commit) Database.seq_commit (hafter.fresh nofun)
  | lostRollback => exact h.mono (fun _ => free_rollback) Database.seq_rollback (hafter.fresh nofun)
  | ext hx => exact h.mono (fun _ h => h) rfl (hafter.fresh nofun)

/-- Every client of a run is in a phase of its program, and the ids it has drawn are its own. -/
theorem follows_reachable {code : T → Client Q K R ExtRes E α} (hS : S.Draws) (hcode : ∀ t, Follows S G .start (code t))
    {w : World T Q K R X} (hw : w.db.Quiescent)
    (hnext : ∀ q n k, S.ids q n = some k → w.db.seq q ≤ n → w.db.committed k = none)
    (hviews : ∀ {c : Config T (World T Q K R X) (Action Q K R Ext) (Action.Res ExtRes) E α},
      (withDatabase M e).Reachable (.start w code) c → ∀ {z : T → Phase Q K L}, Phased S c.shared.db z →
      ∀ t, S.views (z t) (c.shared.db.snapshot t))
    {c : Config T (World T Q K R X) (Action Q K R Ext) (Action.Res ExtRes) E α}
    (h : (withDatabase M e).Reachable (.start w code) c) :
    ∃ z : T → Phase Q K L, Phased S c.shared.db z ∧ DrawnIds S.ids c.shared.db z ∧
      ∀ t p, c.prog t = some p → Follows S G (z t) p := by
  induction h with
  | refl =>
    refine ⟨fun _ => .start, .start hw, .start hw hnext, fun t p hp => ?_⟩
    cases hp
    exact hcode t
  | @tail c d hc hs ih =>
    obtain ⟨z, hphased, hdrawn, hprogs⟩ := ih
    have hothers {u : T} {p : Option (Client Q K R ExtRes E α)} {z' : Phase Q K L}
        (hp : ∀ p', p = some p' → Follows S G z' p') : ∀ t p', Function.update c.prog u p t = some p' →
        Follows S G (Function.update z u z' t) p' := by
      intro t p' hp'
      by_cases ht : t = u
      · subst ht
        rw [Function.update_self] at hp' ⊢
        exact hp p' hp'
      · rw [Function.update_of_ne ht] at hp' ⊢
        exact hprogs t p' hp'
    cases hs with
    | @call u a next r w' hprog hperform =>
      obtain ⟨hallows, hkeeps, hnext⟩ := hprogs u _ hprog
      obtain ⟨z', hafter, hphased'⟩ := hphased.performs hkeeps (hviews hc hphased u) hperform
      refine ⟨_, hphased', hdrawn.performs hS hallows hafter hperform, hothers fun p' hp' => ?_⟩
      cases hp'
      exact hnext r z' hafter
    | @crash u a next w' hprog hcrash =>
      have hdb : w'.db = c.shared.db.rollback u := hcrash.1
      obtain ⟨z', hz, hphased'⟩ := hphased.crash u
      have hfresh : ∀ k, z'.fresh k → (z u).fresh k := by
        rcases hz with rfl | rfl
        · exact fun _ h => h
        · exact fun _ h => h
      refine ⟨_, hdb ▸ hphased', ?_, hothers fun p' hp' => nomatch hp'⟩
      simp only [hdb]
      exact hdrawn.mono (fun _ => DrawnIds.free_rollback) Database.seq_rollback hfresh

end Runs

end ReadCommitted
