import Mathlib.Data.Prod.Lex
import Marketplace.TokenLocks

/-!
The waits between token calls. A revocation locks a family's rows one after the other, and it may meet
another one that has begun with a row it has yet to lock.
-/

namespace Marketplace

open Concurrent ReadCommitted

variable {T α : Type} [DecidableEq T] {c : AuthConfig T α}

-- `FOR UPDATE` on the rows of tokens and users
def tokenLocks : LockScheme Key (Row T) where
  mode
    | .user _ => .update
    | .refreshToken _ => .update
    | _ => .noKeyUpdate
  references := Row.references

def StillLocks (c : AuthConfig T α) (t u : T) : Prop :=
    ∃ p k, c.prog t = some p ∧ k ∈ locksAhead p ∧ c.shared.db.Holds u k

/-- Two clients are in statements each of which has yet to lock a row that the other holds. -/
def Crossed (c : AuthConfig T α) : Prop := ∃ t u, t ≠ u ∧ StillLocks c t u ∧ StillLocks c u t

omit [DecidableEq T] in
theorem holds_unique {db : Database T Serial Key (Row T)} {t u : T} {k : Key} (ht : db.Holds t k) (hu : db.Holds u k) :
    t = u := by
  obtain ⟨_, ht⟩ := ht
  obtain ⟨_, hu⟩ := hu
  rw [ht] at hu
  cases hu
  rfl

omit [DecidableEq T] in
theorem row_references {k : Key} {row : Row T k} {j : Key} (h : j ∈ Row.references k row) :
    (∃ v, j = .user v) ∨ (∃ n, j = .order n) ∨ ∃ n, j = .product n := by
  cases k <;> simp only [Row.references, List.mem_cons, List.not_mem_nil, or_false, List.mem_map] at h
  case order => exact .inl ⟨_, h⟩
  case orderItem => exact .inr (h.imp (fun h => ⟨_, h⟩) fun h => ⟨_, h⟩)
  case postProcessingTask => exact .inr (.inl ⟨_, h⟩)
  case idempotencyKey =>
    obtain ⟨id, -, rfl⟩ := h
    exact .inr (.inl ⟨id, rfl⟩)
  case refreshToken => exact .inl ⟨_, h⟩

/-- The rows of a family that an UPDATE has seen. Less comes later. -/
structure SeenRows where
  sees : ℕ → Prop

instance : Preorder SeenRows where
  le s s' := ∀ i, s'.sees i → s.sees i
  le_refl _ _ h := h
  le_trans _ _ _ h h' i hi := h i (h' i hi)

def SeenRows.none : SeenRows := ⟨fun _ => False⟩

def seenOf (z : T → TokenPhase) (t : T) (l : String × ℕ) : SeenRows := ⟨fun i => (z t).seen (.refreshToken i) l⟩

structure InPhase (c : AuthConfig T α) (z : T → TokenPhase) : Prop where
  phased : Phased (tokenPolicy T) c.shared.db z
  drawn : DrawnIds tokenIds c.shared.db z
  allows : ∀ {t a next}, c.prog t = some (.call a next) →
      (tokenPolicy T).allows (z t) a (· ∈ locksAhead (Prog.call a next))
  keeps : ∀ {t a next}, c.prog t = some (.call a next) → (z t).Keeps tokenLabel a

def UpdatesFamily (c : AuthConfig T α) (z : T → TokenPhase) (t : T) (l : String × ℕ) : Prop :=
  ∃ i next, c.prog t = some (.call (.sql (.lock (.refreshToken i))) next) ∧ (z t).seen (.refreshToken i) l ∧
    Revoking l (fun j => Key.refreshToken j ∈ locksAhead (.call (.sql (.lock (Key.refreshToken i))) next)) (z t)

def UpdatesWithUser (c : AuthConfig T α) (z : T → TokenPhase) (t : T) (l : String × ℕ) : Prop :=
  UpdatesFamily c z t l ∧ c.shared.db.Holds t (.user l.2)

structure Selects (c : AuthConfig T α) (z : T → TokenPhase) (t : T) (i : ℕ) (l : String × ℕ) : Prop where
  prog : ∃ next, c.prog t = some (.call (.sql (.lock (.user l.2))) next)
  inserted : ∀ k, ¬(z t).inserted k
  known : (z t).known (.refreshToken i) l
  held : ∀ k, (z t).held k → k = .refreshToken i

namespace InPhase

variable {z : T → TokenPhase} {t u : T} {l l' : String × ℕ} {i : ℕ}

theorem holds (h : InPhase c z) {k : Key} : (z t).held k ↔ c.shared.db.Holds t k := (h.phased.tracks t).held k

theorem label_eq (h : InPhase c z) (ht : (z t).seen (.refreshToken i) l) (htinserted : ∀ k, ¬(z t).inserted k)
    (hu : (z u).known (.refreshToken i) l') (huheld : (z u).held (.refreshToken i)) :
    l' = l := by
  obtain ⟨old, hold, rfl⟩ := h.phased.seen t _ l ht (htinserted _)
  obtain ⟨row, hrow, rfl⟩ := (h.phased.tracks u).known _ _ hu
  obtain ⟨row', hheld⟩ := h.holds.mp huheld
  rw [Database.visible_of_workspace (Database.workspace_of_held hheld)] at hrow
  cases hrow
  exact h.phased.labels _ u _ old hheld hold

theorem seen_lt (h : InPhase c z) (ht : ∀ k, ¬(z t).inserted k) (hu : ∀ k, ¬(z u).inserted k)
    (hseen : (z t).seen (.refreshToken i) l) (hunseen : ¬(z u).seen (.refreshToken i) l) :
    seenOf z t l < seenOf z u l := by
  rcases h.phased.nested t u with hwithin | hwithin
  · exact absurd (hwithin _ l hseen (ht _)) hunseen
  · exact ⟨fun j hj => hwithin _ l hj (hu _), fun hle => hunseen (hle i hseen)⟩

end InPhase

section Waiting

variable {z : T → TokenPhase} {t u : T} {l l' : String × ℕ} {i : ℕ}

omit [DecidableEq T] in
theorem UpdatesFamily.revoking (ht : UpdatesFamily c z t l) : ∃ ahead, Revoking l ahead (z t) := by
  obtain ⟨i, next, -, -, hr⟩ := ht
  exact ⟨_, hr⟩

theorem UpdatesFamily.stillLocks (h : InPhase c z) (ht : UpdatesFamily c z t l) (hseen : (z t).seen (.refreshToken i) l)
    (hu : c.shared.db.Holds u (.refreshToken i)) (hne : t ≠ u) : StillLocks c t u := by
  obtain ⟨j, next, hprog, -, hr⟩ := ht
  rcases hr.ahead i hseen with hheld | hahead
  · exact absurd (holds_unique (h.holds.mp hheld) hu) hne
  · exact ⟨_, _, hprog, hahead, hu⟩

theorem UpdatesFamily.unique (h : InPhase c z) (ht : UpdatesFamily c z t l) (ht' : UpdatesFamily c z t l') :
    l = l' := by
  obtain ⟨i, next, hprog, hseen, hr⟩ := ht
  obtain ⟨i', next', hprog', hseen', -⟩ := ht'
  rw [hprog] at hprog'
  cases hprog'
  obtain ⟨row, hrow, rfl⟩ := h.phased.seen t _ _ hseen (hr.inserted _)
  obtain ⟨row', hrow', rfl⟩ := h.phased.seen t _ _ hseen' (hr.inserted _)
  rw [hrow] at hrow'
  cases hrow'
  rfl

theorem request_waits {o : Stmt Serial Key (Row T)} {next k} (hprog : c.prog t = some (.call (.sql o) next))
    (hk : o.requests = some k) (hlock : ∀ j r, ¬o.Writes j r) (hwaits : WaitsFor tokenLocks c t u) :
    t ≠ u ∧ (c.shared.db.Holds u k ∨ ∃ j r, c.shared.db.held j = some (u, r) ∧ k ∈ Row.references j r ∧
      ∀ old, c.shared.db.committed j = some old → k ∉ Row.references j old) := by
  cases hwaits with
  | row hprog' hk' hblocked hheld =>
    rw [hprog] at hprog'
    cases hprog'
    rw [hk] at hk'
    cases hk'
    refine ⟨?_, .inl hheld⟩
    rintro rfl
    exact not_holds_requested hk hblocked hheld
  | foreignKey hprog' hwrites =>
    rw [hprog] at hprog'
    cases hprog'
    exact absurd hwrites (hlock _ _)
  | keyShare hprog' hk' hmode hheld hj hset hne =>
    rw [hprog] at hprog'
    cases hprog'
    rw [hk] at hk'
    cases hk'
    exact ⟨hne, .inr ⟨_, _, hheld, hj, hset⟩⟩

omit [DecidableEq T] in
theorem lock_writes_nothing {k j : Key} {r : Row T j} : ¬(Stmt.lock k : Stmt Serial Key (Row T)).Writes j r := by
  rintro ⟨⟩

theorem UpdatesFamily.waits (ht : UpdatesFamily c z t l) (hwaits : WaitsFor tokenLocks c t u) :
    t ≠ u ∧ StillLocks c t u ∧ ∃ i, (z t).seen (.refreshToken i) l ∧ c.shared.db.Holds u (.refreshToken i) := by
  obtain ⟨i, next, hprog, hseen, hr⟩ := ht
  obtain ⟨hne, hheld | ⟨j, r, -, hj, -⟩⟩ := request_waits hprog rfl (fun _ _ => lock_writes_nothing) hwaits
  · exact ⟨hne, ⟨_, _, hprog, List.mem_cons_self, hheld⟩, i, hseen, hheld⟩
  · rcases row_references hj with ⟨v, hv⟩ | ⟨n, hn⟩ | ⟨n, hn⟩ <;> contradiction

theorem InPhase.referrer (h : InPhase c z) {j : Key} {r : Row T j} {v : ℕ} (hheld : c.shared.db.held j = some (u, r))
    (hj : .user v ∈ Row.references j r)
    (hset : ∀ old, c.shared.db.committed j = some old → .user v ∉ Row.references j old)
    (hinserted : ∀ k, ¬(z u).inserted k) (hkeys : ∀ k, (z u).held k → (∃ v, k = .user v) ∨ ∃ i, k = .refreshToken i) :
    False := by
  have hz : (z u).held j := h.holds.mpr ⟨r, hheld⟩
  rcases hkeys j hz with ⟨v, rfl⟩ | ⟨i, rfl⟩
  · cases hj
  · cases hc : c.shared.db.committed (.refreshToken i) with
    | none => exact hinserted _ ((h.phased.tracks u).inserted _ hz hc)
    | some old =>
      have hlabel : tokenLabel (.refreshToken i) r = tokenLabel (.refreshToken i) old :=
        h.phased.labels _ u r old hheld hc
      have huser : r.userId = old.userId := congrArg Prod.snd hlabel
      refine hset old hc ?_
      simpa only [Row.references, huser] using hj

theorem Selects.waits (ht : Selects c z t i l) (hwaits : WaitsFor tokenLocks c t u) :
    t ≠ u ∧ (StillLocks c t u ∧ c.shared.db.Holds u (.user l.2) ∨ ∃ j r, c.shared.db.held j = some (u, r) ∧
      .user l.2 ∈ Row.references j r ∧ ∀ old, c.shared.db.committed j = some old →
      .user l.2 ∉ Row.references j old) := by
  obtain ⟨next, hprog⟩ := ht.prog
  obtain ⟨hne, hwaits⟩ := request_waits hprog rfl (fun _ _ => lock_writes_nothing) hwaits
  exact ⟨hne, hwaits.imp_left fun hheld => ⟨⟨_, _, hprog, List.mem_cons_self, hheld⟩, hheld⟩⟩

inductive Indexing : Stmt Serial Key (Row T) → Prop
  | tokenHash {hash : String} {id : ℕ} : Indexing (.reserve (.tokenHash hash) id)
  | denylist {jti : String} {row : AccessTokenDenylistRow} : Indexing (.reserve (.accessTokenDenylist jti) row)
  | denylisted {jti : String} : Indexing (.lock (.accessTokenDenylist jti))

theorem Indexing.waits {o : Stmt Serial Key (Row T)} {next} (ho : Indexing o)
    (hprog : c.prog t = some (.call (.sql o) next)) (hwaits : WaitsFor tokenLocks c t u) :
    (∃ hash, c.shared.db.Holds u (.tokenHash hash)) ∨ ∃ jti, c.shared.db.Holds u (.accessTokenDenylist jti) := by
  cases hwaits with
  | row hprog' hk hblocked hheld =>
    rw [hprog] at hprog'
    cases hprog'
    cases ho <;> cases hk
    · exact .inl ⟨_, hheld⟩
    · exact .inr ⟨_, hheld⟩
    · exact .inr ⟨_, hheld⟩
  | foreignKey hprog' hwrites hj =>
    rw [hprog] at hprog'
    cases hprog'
    cases ho <;> cases hwrites <;> cases hj
  | keyShare hprog' hk hmode =>
    rw [hprog] at hprog'
    cases hprog'
    cases ho <;> cases hk <;> cases hmode

inductive Waits (c : AuthConfig T α) (z : T → TokenPhase) (t : T) : Prop
  | updates {l : String × ℕ} (h : UpdatesFamily c z t l)
  | selects {i : ℕ} {l : String × ℕ} (h : Selects c z t i l)
  | indexes {o next} (h : Indexing o) (hprog : c.prog t = some (.call (.sql o) next)) (hz : Unindexed (z t))

theorem InPhase.lock_waits (h : InPhase c z) {k : Key} {next} (hprog : c.prog t = some (.call (.sql (.lock k)) next))
    (hasks : AsksOutside (z t) (.sql (.lock k) : AuthAction T)) (hholds : ∃ k, (z t).held k)
    (hwaits : WaitsFor tokenLocks c t u) : Waits c z t := by
  cases k with
  | refreshToken i =>
    obtain ⟨hne, hheld | ⟨j, r, -, hj, -⟩⟩ := request_waits hprog rfl (fun _ _ => lock_writes_nothing) hwaits
    · rcases hasks with hnone | hown
      · obtain ⟨k, hk⟩ := hholds
        exact absurd hk (hnone k)
      · exact absurd (holds_unique (h.holds.mp hown) hheld) hne
    · rcases row_references hj with ⟨v, hv⟩ | ⟨n, hn⟩ | ⟨n, hn⟩ <;> contradiction
  | user v =>
    obtain ⟨hinserted, i, familyId, hknown, hheld⟩ := hasks
    exact .selects (l := (familyId, v)) ⟨⟨next, hprog⟩, hinserted, hknown, hheld⟩
  | accessTokenDenylist jti => exact .indexes .denylisted hprog hasks
  | _ => exact hasks.elim

theorem InPhase.reserve_waits (h : InPhase c z) {k : Key} {r : Row T k} {next}
    (hprog : c.prog t = some (.call (.sql (.reserve k r)) next))
    (hasks : AsksOutside (z t) (.sql (.reserve k r) : AuthAction T)) (hholds : ∃ k, (z t).held k)
    (hwaits : WaitsFor tokenLocks c t u) : Waits c z t := by
  cases k with
  | refreshToken n =>
    obtain ⟨hfresh, -, huser⟩ := hasks
    cases hwaits with
    | row hprog' hk _ hheld =>
      rw [hprog] at hprog'
      cases hprog'
      cases hk
      obtain ⟨r', hr'⟩ := hheld
      rw [(h.drawn.free t _ hfresh).2] at hr'
      cases hr'
    | foreignKey hprog' hwrites hj _ hheld _ hne =>
      rw [hprog] at hprog'
      cases hprog'
      cases hwrites
      obtain rfl := List.mem_singleton.mp hj
      rcases huser with huser | hnone
      · exact absurd (holds_unique (h.holds.mp huser) hheld) hne
      · obtain ⟨k, hk⟩ := hholds
        exact absurd hk (hnone k)
    | keyShare hprog' hk _ _ hj =>
      rw [hprog] at hprog'
      cases hprog'
      cases hk
      rcases row_references hj with ⟨v, hv⟩ | ⟨n, hn⟩ | ⟨n, hn⟩ <;> contradiction
  | tokenHash hash => exact .indexes .tokenHash hprog hasks
  | accessTokenDenylist jti => exact .indexes .denylist hprog hasks
  | _ => exact hasks.elim

theorem InPhase.put_waits_not (h : InPhase c z) {k : Key} {r : Row T k} {next}
    (hprog : c.prog t = some (.call (.sql (.put k r)) next))
    (hasks : AsksOutside (z t) (.sql (.put k r) : AuthAction T)) :
    ¬WaitsFor tokenLocks c t u := by
  intro hwaits
  cases hwaits with
  | row hprog' hk =>
    rw [hprog] at hprog'
    cases hprog'
    cases hk
  | foreignKey hprog' hwrites hj hset =>
    rw [hprog] at hprog'
    cases hprog'
    cases hwrites
    cases k with
    | refreshToken i =>
      obtain ⟨hheld, hknown⟩ := h.keeps hprog
      obtain ⟨row, hrow⟩ := h.holds.mp hheld
      cases hc : c.shared.db.committed (.refreshToken i) with
      | none => exact hasks _ ((h.phased.tracks t).inserted _ hheld hc)
      | some old =>
        obtain ⟨row', hrow', hlabel⟩ := (h.phased.tracks t).known _ _ hknown
        rw [Database.visible_of_workspace (Database.workspace_of_held hrow)] at hrow'
        cases hrow'
        have huser : row.userId = old.userId := congrArg Prod.snd (h.phased.labels _ t row old hrow hc)
        have huser' : row.userId = r.userId := congrArg Prod.snd hlabel
        refine hset old hc ?_
        simpa only [tokenLocks, Row.references, ← huser, ← huser'] using hj
    | accessTokenDenylist jti => cases hj
    | _ => exact hasks
  | keyShare hprog' hk =>
    rw [hprog] at hprog'
    cases hprog'
    cases hk

theorem InPhase.waits (h : InPhase c z) (hholds : ∃ k, (z t).held k) (hwaits : WaitsFor tokenLocks c t u) :
    Waits c z t := by
  obtain ⟨o, next, hprog, ho⟩ : ∃ (o : Stmt Serial Key (Row T)) (next : _), c.prog t = some (.call (.sql o) next) ∧
      ((∃ k, o.requests = some k) ∨ ∃ k r, o.Writes k r) := by
    cases hwaits with
    | row hprog hk => exact ⟨_, _, hprog, .inl ⟨_, hk⟩⟩
    | foreignKey hprog hwrites => exact ⟨_, _, hprog, .inr ⟨_, _, hwrites⟩⟩
    | keyShare hprog hk => exact ⟨_, _, hprog, .inl ⟨_, hk⟩⟩
  rcases h.allows hprog with hasks | ⟨i, l, ha, hseen, hr⟩
  · cases o with
    | lock k => exact h.lock_waits hprog hasks hholds hwaits
    | reserve k r => exact h.reserve_waits hprog hasks hholds hwaits
    | put k r => exact absurd hwaits (h.put_waits_not hprog hasks)
    | _ =>
      rcases ho with ⟨k, hk⟩ | ⟨k, r, hk⟩
      · cases hk
      · cases hk
  · cases ha
    exact .updates ⟨i, next, hprog, hseen, hr⟩

/-- Updates of one family go by what they have seen of it, the one with the least last, and those that hold
the family's user come after those that wait for it. -/
abbrev WaitRank := ℕ ×ₗ SeenRows ×ₗ ℕ

def waitRank (n : ℕ) (seen : SeenRows) (m : ℕ) : WaitRank := toLex (n, toLex (seen, m))

theorem waitRank_lt {n n' m m' : ℕ} {s s' : SeenRows} (h : n < n') : waitRank n s m < waitRank n' s' m' :=
  Prod.Lex.toLex_lt_toLex.mpr (.inl h)

theorem waitRank_lt_of_seen {n m m' : ℕ} {s s' : SeenRows} (h : s < s') : waitRank n s m < waitRank n s' m' :=
  Prod.Lex.toLex_lt_toLex.mpr (.inr ⟨rfl, Prod.Lex.toLex_lt_toLex.mpr (.inl h)⟩)

theorem waitRank_lt_same {n : ℕ} {s : SeenRows} : waitRank n s 0 < waitRank n s 1 :=
  Prod.Lex.toLex_lt_toLex.mpr (.inr ⟨rfl, Prod.Lex.toLex_lt_toLex.mpr (.inr ⟨rfl, Nat.zero_lt_one⟩)⟩)

inductive Stage (c : AuthConfig T α) (z : T → TokenPhase) (t : T) : WaitRank → Prop
  | idle (h : ∀ k, ¬(z t).held k) : Stage c z t (waitRank 0 .none 0)
  | updates {l : String × ℕ} (h : UpdatesFamily c z t l) (huser : ∃ u, UpdatesWithUser c z u l) :
      Stage c z t (waitRank 3 (seenOf z t l) 1)
  | updatesTokens {l : String × ℕ} (h : UpdatesFamily c z t l) (huser : ¬∃ u, UpdatesWithUser c z u l) :
      Stage c z t (waitRank 1 (seenOf z t l) 1)
  | selects {i : ℕ} {l : String × ℕ} {u : T} (h : Selects c z t i l) (huser : UpdatesWithUser c z u l) :
      Stage c z t (waitRank 3 (seenOf z u l) 0)
  | selectsOther {i : ℕ} {l : String × ℕ} {u : T} {l' : String × ℕ} (h : Selects c z t i l)
    (hsame : ¬∃ u, UpdatesWithUser c z u l)
      (huser : UpdatesWithUser c z u l') (hl : l'.2 = l.2) : Stage c z t (waitRank 2 .none 0)
  | selectsFree {i : ℕ} {l : String × ℕ} (h : Selects c z t i l)
    (huser : ¬∃ u l', l'.2 = l.2 ∧ UpdatesWithUser c z u l') :
      Stage c z t (waitRank 4 .none 0)
  | indexes {o next} (h : Indexing o) (hprog : c.prog t = some (.call (.sql o) next)) (hz : Unindexed (z t)) :
      Stage c z t (waitRank 5 .none 0)
  | runs (h : ∀ u, ¬WaitsFor tokenLocks c t u) : Stage c z t (waitRank 6 .none 0)

theorem InPhase.stage (h : InPhase c z) (t : T) : ∃ r, Stage c z t r := by
  by_cases hholds : ∃ k, (z t).held k
  · by_cases hwaits : ∃ u, WaitsFor tokenLocks c t u
    · obtain ⟨u, hwaits⟩ := hwaits
      cases h.waits hholds hwaits with
      | @updates l ht =>
        by_cases huser : ∃ u, UpdatesWithUser c z u l
        · exact ⟨_, .updates ht huser⟩
        · exact ⟨_, .updatesTokens ht huser⟩
      | @selects i l ht =>
        by_cases hsame : ∃ u, UpdatesWithUser c z u l
        · obtain ⟨u, huser⟩ := hsame
          exact ⟨_, .selects ht huser⟩
        · by_cases huser : ∃ u l', l'.2 = l.2 ∧ UpdatesWithUser c z u l'
          · obtain ⟨u, l', hl, huser⟩ := huser
            exact ⟨_, .selectsOther ht hsame huser hl⟩
          · exact ⟨_, .selectsFree ht huser⟩
      | indexes ho hprog hz => exact ⟨_, .indexes ho hprog hz⟩
    · exact ⟨_, .runs fun u hu => hwaits ⟨u, hu⟩⟩
  · exact ⟨_, .idle fun k hk => hholds ⟨k, hk⟩⟩

theorem UpdatesFamily.seen_lt (h : InPhase c z) (hcrossed : ¬Crossed c) (ht : UpdatesFamily c z t l)
    (hu : UpdatesFamily c z u l) (hne : t ≠ u) (hstill : StillLocks c t u) : seenOf z t l < seenOf z u l := by
  obtain ⟨_, hr⟩ := ht.revoking
  obtain ⟨_, hr'⟩ := hu.revoking
  obtain ⟨i, hheld, hseen⟩ := hr.own_seen
  refine h.seen_lt hr.inserted hr'.inserted hseen fun hseen' => hcrossed ⟨t, u, hne, hstill, ?_⟩
  exact hu.stillLocks h hseen' (h.holds.mp hheld) hne.symm

/-- An update that waits for who waits for the family's user has seen more than the update that holds the user. -/
theorem UpdatesFamily.seen_lt_of_selects (h : InPhase c z) (hcrossed : ¬Crossed c) (ht : UpdatesFamily c z t l)
    (hu : Selects c z u i l) (hseen : (z t).seen (.refreshToken i) l)
    (hheld : c.shared.db.Holds u (.refreshToken i)) {v : T} (hv : UpdatesWithUser c z v l) :
    seenOf z t l < seenOf z v l := by
  obtain ⟨_, hr⟩ := ht.revoking
  obtain ⟨_, hr'⟩ := hv.1.revoking
  have hne : v ≠ u := by
    rintro rfl
    have hk := hu.held _ (h.holds.mpr hv.2)
    cases hk
  refine h.seen_lt hr.inserted hr'.inserted hseen fun hseen' => hcrossed ⟨v, u, hne, ?_, ?_⟩
  · exact hv.1.stillLocks h hseen' hheld hne
  · obtain ⟨next, hprog⟩ := hu.prog
    exact ⟨_, _, hprog, List.mem_cons_self, hv.2⟩

theorem UpdatesFamily.same_family (h : InPhase c z) (ht : UpdatesFamily c z t l)
    (hseen : (z t).seen (.refreshToken i) l) (hu : UpdatesFamily c z u l')
    (hheld : c.shared.db.Holds u (.refreshToken i)) : l' = l := by
  obtain ⟨_, hr⟩ := ht.revoking
  obtain ⟨_, hr'⟩ := hu.revoking
  rcases hr'.held _ (h.holds.mpr hheld) with hk | ⟨j, hk, hj⟩
  · cases hk
  · cases hk
    exact h.label_eq hseen hr.inserted (hr'.known _ hj) (h.holds.mpr hheld)

theorem Selects.same_family (h : InPhase c z) (ht : UpdatesFamily c z t l) (hseen : (z t).seen (.refreshToken i) l)
    {j : ℕ} (hu : Selects c z u j l') (hheld : c.shared.db.Holds u (.refreshToken i)) : j = i ∧ l' = l := by
  obtain ⟨_, hr⟩ := ht.revoking
  have hz := h.holds.mpr hheld
  have hk := hu.held _ hz
  cases hk
  exact ⟨rfl, h.label_eq hseen hr.inserted hu.known hz⟩

theorem Selects.not_holds_user (h : InPhase c z) {v : ℕ} (hu : Selects c z u i l) : ¬c.shared.db.Holds u (.user v) := by
  intro hheld
  have hk := hu.held _ (h.holds.mpr hheld)
  cases hk

section Edges

variable (h : InPhase c z) (hcrossed : ¬Crossed c) {r s : WaitRank}

include h

theorem Stage.pos (hu : Stage c z u s) {k : Key} (hheld : c.shared.db.Holds u k) : waitRank 0 .none 0 < s := by
  cases hu with
  | idle hnone => exact absurd (h.holds.mpr hheld) (hnone k)
  | updates => exact waitRank_lt (by decide)
  | updatesTokens => exact waitRank_lt (by decide)
  | selects => exact waitRank_lt (by decide)
  | selectsOther => exact waitRank_lt (by decide)
  | selectsFree => exact waitRank_lt (by decide)
  | indexes => exact waitRank_lt (by decide)
  | runs => exact waitRank_lt (by decide)

theorem Stage.referrer (hu : Stage c z u s) {j : Key} {row : Row T j} {v : ℕ}
    (hheld : c.shared.db.held j = some (u, row)) (hj : .user v ∈ Row.references j row)
    (hset : ∀ old, c.shared.db.committed j = some old → .user v ∉ Row.references j old) : waitRank 4 .none 0 < s := by
  have hupdates : ∀ l, ¬UpdatesFamily c z u l := by
    intro l ht
    obtain ⟨_, hr⟩ := ht.revoking
    exact h.referrer hheld hj hset hr.inserted fun k hk => (hr.held k hk).imp (fun hk => ⟨_, hk⟩) fun ⟨i, hk, _⟩ =>
      ⟨i, hk⟩
  have hselects : ∀ i l, ¬Selects c z u i l := fun i l ht =>
    h.referrer hheld hj hset ht.inserted fun k hk => .inr ⟨i, ht.held k hk⟩
  cases hu with
  | idle hnone => exact absurd (h.holds.mpr ⟨row, hheld⟩) (hnone j)
  | updates hu => exact absurd hu (hupdates _)
  | updatesTokens hu => exact absurd hu (hupdates _)
  | selects hu => exact absurd hu (hselects _ _)
  | selectsOther hu => exact absurd hu (hselects _ _)
  | selectsFree hu => exact absurd hu (hselects _ _)
  | indexes => exact waitRank_lt (by decide)
  | runs => exact waitRank_lt (by decide)

theorem Stage.user_held (hu : Stage c z u s) {v : ℕ} (hheld : c.shared.db.Holds u (.user v)) :
    (∃ l, l.2 = v ∧ UpdatesWithUser c z u l ∧ s = waitRank 3 (seenOf z u l) 1) ∨
      waitRank 4 .none 0 < s := by
  have hz := h.holds.mpr hheld
  cases hu with
  | idle hnone => exact absurd hz (hnone _)
  | @updates l hu =>
    obtain ⟨_, hr⟩ := hu.revoking
    rcases hr.held _ hz with hk | ⟨i, hk, -⟩
    · cases hk
      exact .inl ⟨l, rfl, ⟨hu, hheld⟩, rfl⟩
    · cases hk
  | @updatesTokens l hu hnone =>
    obtain ⟨_, hr⟩ := hu.revoking
    rcases hr.held _ hz with hk | ⟨i, hk, -⟩
    · cases hk
      exact absurd ⟨u, hu, hheld⟩ hnone
    · cases hk
  | selects hu => exact absurd hheld (hu.not_holds_user h)
  | selectsOther hu => exact absurd hheld (hu.not_holds_user h)
  | selectsFree hu => exact absurd hheld (hu.not_holds_user h)
  | indexes => exact .inr (waitRank_lt (by decide))
  | runs => exact .inr (waitRank_lt (by decide))

theorem Stage.lt_of_selects (ht : Selects c z t i l) (hu : Stage c z u s) (hwaits : WaitsFor tokenLocks c t u) :
    (∀ v, UpdatesWithUser c z v l → waitRank 3 (seenOf z v l) 0 < s) ∧
      (∀ v l', l'.2 = l.2 → UpdatesWithUser c z v l' → waitRank 2 .none 0 < s) ∧
      ((¬∃ v l', l'.2 = l.2 ∧ UpdatesWithUser c z v l') → waitRank 4 .none 0 < s) := by
  have hlast (hlt : waitRank 4 .none 0 < s) : (∀ v, UpdatesWithUser c z v l → waitRank 3 (seenOf z v l) 0 < s) ∧
      (∀ v l', l'.2 = l.2 → UpdatesWithUser c z v l' → waitRank 2 .none 0 < s) ∧
      ((¬∃ v l', l'.2 = l.2 ∧ UpdatesWithUser c z v l') → waitRank 4 .none 0 < s) :=
    ⟨fun _ _ => (waitRank_lt (by decide)).trans hlt, fun _ _ _ _ => (waitRank_lt (by decide)).trans hlt, fun _ => hlt⟩
  obtain ⟨-, ⟨-, hheld⟩ | ⟨j, row, hheld, hj, hset⟩⟩ := ht.waits hwaits
  · rcases hu.user_held h hheld with ⟨l', hl, huser, rfl⟩ | hlt
    · refine ⟨fun v hv => ?_, fun _ _ _ _ => waitRank_lt (by decide), fun hnone => absurd ⟨u, l', hl, huser⟩ hnone⟩
      obtain rfl := holds_unique hv.2 hheld
      obtain rfl := hv.1.unique h huser.1
      exact waitRank_lt_same
    · exact hlast hlt
  · exact hlast (hu.referrer h hheld hj hset)

theorem Stage.lt_of_indexes {o next} (ho : Indexing o) (hprog : c.prog t = some (.call (.sql o) next))
    (hu : Stage c z u s) (hwaits : WaitsFor tokenLocks c t u) : waitRank 5 .none 0 < s := by
  obtain ⟨k, hheld, hz⟩ : ∃ k, c.shared.db.Holds u k ∧ ¬(Unindexed (z u) ∧ (z u).held k) := by
    rcases ho.waits hprog hwaits with ⟨hash, hheld⟩ | ⟨jti, hheld⟩
    · exact ⟨_, hheld, fun hz => hz.1.1 hash hz.2⟩
    · exact ⟨_, hheld, fun hz => hz.1.2 jti hz.2⟩
  have hindexed : ¬Unindexed (z u) := fun hunindexed => hz ⟨hunindexed, h.holds.mpr hheld⟩
  have hupdates : ∀ l, ¬UpdatesFamily c z u l := by
    intro l ht
    obtain ⟨_, hr⟩ := ht.revoking
    exact hindexed hr.unindexed
  have hselects : ∀ i l, ¬Selects c z u i l := by
    intro i l ht
    refine hindexed ⟨fun hash hk => ?_, fun jti hk => ?_⟩
    · cases ht.held _ hk
    · cases ht.held _ hk
  cases hu with
  | idle hnone => exact absurd (h.holds.mpr hheld) (hnone k)
  | updates hu => exact absurd hu (hupdates _)
  | updatesTokens hu => exact absurd hu (hupdates _)
  | selects hu => exact absurd hu (hselects _ _)
  | selectsOther hu => exact absurd hu (hselects _ _)
  | selectsFree hu => exact absurd hu (hselects _ _)
  | indexes _ _ hu => exact absurd hu hindexed
  | runs => exact waitRank_lt (by decide)

include hcrossed

theorem Stage.lt_of_updates (ht : UpdatesFamily c z t l) (hu : Stage c z u s) (hwaits : WaitsFor tokenLocks c t u) :
    ((∃ v, UpdatesWithUser c z v l) → waitRank 3 (seenOf z t l) 1 < s) ∧
      ((¬∃ v, UpdatesWithUser c z v l) → waitRank 1 (seenOf z t l) 1 < s) := by
  obtain ⟨hne, hstill, i, hseen, hheld⟩ := ht.waits hwaits
  cases hu with
  | idle hnone => exact absurd (h.holds.mpr hheld) (hnone _)
  | updates hu huser =>
    obtain rfl := ht.same_family h hseen hu hheld
    exact ⟨fun _ => waitRank_lt_of_seen (ht.seen_lt h hcrossed hu hne hstill), fun hnone => absurd huser hnone⟩
  | updatesTokens hu hnone =>
    obtain rfl := ht.same_family h hseen hu hheld
    exact ⟨fun huser => absurd huser hnone, fun _ => waitRank_lt_of_seen (ht.seen_lt h hcrossed hu hne hstill)⟩
  | selects hu huser =>
    obtain ⟨rfl, rfl⟩ := hu.same_family h ht hseen hheld
    refine ⟨fun _ => ?_, fun hnone => absurd ⟨_, huser⟩ hnone⟩
    exact waitRank_lt_of_seen (ht.seen_lt_of_selects h hcrossed hu hseen hheld huser)
  | selectsOther hu hnone =>
    obtain ⟨rfl, rfl⟩ := hu.same_family h ht hseen hheld
    exact ⟨fun huser => absurd huser hnone, fun _ => waitRank_lt (by decide)⟩
  | selectsFree hu hnone =>
    obtain ⟨rfl, rfl⟩ := hu.same_family h ht hseen hheld
    refine ⟨fun ⟨v, hv⟩ => absurd ⟨v, _, rfl, hv⟩ hnone, fun _ => waitRank_lt (by decide)⟩
  | indexes => exact ⟨fun _ => waitRank_lt (by decide), fun _ => waitRank_lt (by decide)⟩
  | runs => exact ⟨fun _ => waitRank_lt (by decide), fun _ => waitRank_lt (by decide)⟩

theorem Stage.lt (ht : Stage c z t r) (hu : Stage c z u s) (hwaits : WaitsFor tokenLocks c t u) : r < s := by
  cases ht with
  | idle =>
    cases hwaits with
    | row _ _ _ hheld => exact hu.pos h hheld
    | foreignKey _ _ _ _ hheld _ _ => exact hu.pos h hheld
    | keyShare _ _ _ hheld _ _ _ => exact hu.pos h ⟨_, hheld⟩
  | updates ht huser => exact (Stage.lt_of_updates h hcrossed ht hu hwaits).1 huser
  | updatesTokens ht huser => exact (Stage.lt_of_updates h hcrossed ht hu hwaits).2 huser
  | selects ht huser => exact (Stage.lt_of_selects h ht hu hwaits).1 _ huser
  | selectsOther ht _ huser hl => exact (Stage.lt_of_selects h ht hu hwaits).2.1 _ _ hl huser
  | selectsFree ht huser => exact (Stage.lt_of_selects h ht hu hwaits).2.2 huser
  | indexes ho hprog => exact Stage.lt_of_indexes h ho hprog hu hwaits
  | runs hnone => exact absurd hwaits (hnone u)

theorem InPhase.acyclic : Acyclic (WaitsFor tokenLocks c) := by
  choose rank hrank using h.stage
  exact acyclic_of_increasing rank fun t u hwaits => Stage.lt h hcrossed (hrank t) (hrank u) hwaits

end Edges

end Waiting

section Runs

variable {crypto : AuthCrypto} {calls : T → TokenCall} {w : AuthWorld T}

/-- A view that shows no row of the client's own is one of the committed tables, up to columns that no call
updates twice. -/
theorem familyView_snapshot {w : AuthWorld T} {final : T → Prop} {z : T → TokenPhase} {t : T} (hi : TokenInv final w)
    (hphased : Phased (tokenPolicy T) w.db z) (hinserted : ∀ k, ¬(z t).inserted k) : FamilyView (w.db.snapshot t) := by
  have hcommitted : ∀ id row, w.db.visible t (.refreshToken id) = some row →
      ∃ old, w.db.committed (.refreshToken id) = some old ∧ old.familyId = row.familyId ∧ old.userId = row.userId := by
    intro id row hrow
    obtain ⟨old, hold, hlabel⟩ := (hphased.view t).1 (.refreshToken id) _ ⟨row, hrow, rfl⟩ (hinserted _)
    exact ⟨old, hold, congrArg Prod.fst hlabel, congrArg Prod.snd hlabel⟩
  constructor
  · intro id row hrow
    obtain ⟨old, hold, -⟩ := hcommitted id row hrow
    exact hi.tables.bounded id old hold
  · intro id row id' row' hrow hrow' hfamily
    obtain ⟨old, hold, hfold, huold⟩ := hcommitted id row hrow
    obtain ⟨old', hold', hfold', huold'⟩ := hcommitted id' row' hrow'
    have husers := hi.tables.users id old id' old' hold hold' (hfold.trans (hfamily.trans hfold'.symm))
    exact huold.symm.trans (husers.trans huold')

theorem inPhase_of_reachable {c : AuthConfig T (Option AuthResponse)} (hw : NoTokens w)
    (h : (AuthMachine T).Reachable (TokenCalls crypto calls w) c) : ∃ z, InPhase c z := by
  have hnext : ∀ q n k, tokenIds q n = some k → w.db.seq q ≤ n → w.db.committed k = none := by
    rintro q n k hk -
    cases q <;> cases hk
    exact hw.rows n
  obtain ⟨z, hphased, hdrawn, hprogs⟩ := follows_reachable tokenPolicy_draws
    (fun t => (calls t).run_policed crypto t .start ⟨fun _ h => h, fun _ h => h⟩) hw.quiescent hnext
    (fun hd _ hphased _ hinserted => familyView_snapshot (token_run hw (unwatched hd)).1.toTokenInv hphased hinserted) h
  exact ⟨z, hphased, hdrawn, fun hprog => (hprogs _ _ hprog).1, fun hprog => (hprogs _ _ hprog).2.1⟩

theorem token_calls_deadlock_only_crossed {c : AuthConfig T (Option AuthResponse)} (hw : NoTokens w)
    (h : (AuthMachine T).Reachable (TokenCalls crypto calls w) c) (hcrossed : ¬Crossed c) :
    Acyclic (WaitsFor tokenLocks c) := by
  obtain ⟨z, hz⟩ := inPhase_of_reachable hw h
  exact hz.acyclic hcrossed

def overtakingCalls : Bool × Bool → TokenCall
  | (false, false) => annaLogin
  | (false, true) => .refresh "r1"
  | (true, false) => .refresh "r2"
  | (true, true) => .logout "a1" "r1"

-- the logout's UPDATE has locked "r1" and waits for the refresh that is rotating "r2"
def overtakingSchedule : AuthSchedule (Bool × Bool) :=
  loginMoves (false, false) ++ rotationMoves (false, true) "r2" "a2" ++ goes (false, true) 1 ++ goes (true, false) 4 ++
    times (true, true) 2 1 ++ goes (true, true) 3 ++ times (true, true) 2 1 ++ goes (true, true) 3

theorem token_calls_deadlock_only_crossed_overtaking : ∃ c : AuthConfig (Bool × Bool) (Option AuthResponse),
    (AuthMachine (Bool × Bool)).Reachable (TokenCalls plainCrypto overtakingCalls annaWorld) c ∧
      WaitsFor tokenLocks c (true, true) (true, false) ∧ Acyclic (WaitsFor tokenLocks c) := by
  have hrun : ∃ c : AuthConfig (Bool × Bool) (Option AuthResponse),
      (AuthMachine (Bool × Bool)).Reachable (TokenCalls plainCrypto overtakingCalls annaWorld) c ∧
      WaitsFor tokenLocks c (true, true) (true, false) ∧ ∀ t u, t ≠ (true, true) → ¬StillLocks c t u := by
    apply exists_reachable (S := withDatabaseMoves authMoves .database) overtakingSchedule
    refine ⟨_, rfl, ?_, ?_⟩
    · exact .row rfl rfl rfl ⟨_, rfl⟩
    · rintro t u ht ⟨p, k, hp, hk, -⟩
      rcases t with ⟨_ | _, _ | _⟩
      · cases hp
        cases hk
      · cases hp
        cases hk
      · cases hp
        cases hk
      · exact ht rfl
  obtain ⟨c, hc, hwaits, hothers⟩ := hrun
  refine ⟨c, hc, hwaits, token_calls_deadlock_only_crossed annaWorld_noTokens hc ?_⟩
  rintro ⟨t, u, hne, ht, hu⟩
  by_cases hlast : t = (true, true)
  · exact hothers u t (fun h => hne (hlast.trans h.symm)) hu
  · exact hothers t u hlast ht

def rivalLogouts : ℕ → TokenCall
  | 0 => annaLogin
  | 1 => .refresh "r1"
  | 2 => .logout "a1" "r1"
  | _ => .logout "a2" "r2"

-- both logouts have locked their token before either begins with the family
def rivalLogoutsSchedule : AuthSchedule ℕ :=
  loginMoves 0 ++ rotationMoves 1 "r2" "a2" ++ goes 1 1 ++ times 2 2 1 ++ goes 2 3 ++ times 3 2 1 ++ goes 3 3 ++
    times 2 2 1 ++ goes 2 3 ++ times 3 2 1 ++ goes 3 1

theorem logouts_deadlock : ∃ c : AuthConfig ℕ (Option AuthResponse),
    (AuthMachine ℕ).Reachable (TokenCalls plainCrypto rivalLogouts annaWorld) c ∧ ¬Acyclic (WaitsFor tokenLocks c) := by
  have hrun : ∃ c : AuthConfig ℕ (Option AuthResponse),
      (AuthMachine ℕ).Reachable (TokenCalls plainCrypto rivalLogouts annaWorld) c ∧
      WaitsFor tokenLocks c 2 3 ∧ WaitsFor tokenLocks c 3 2 := by
    apply exists_reachable (S := withDatabaseMoves authMoves .database) rivalLogoutsSchedule
    refine ⟨_, rfl, ?_, ?_⟩
    · exact .row rfl rfl rfl ⟨_, rfl⟩
    · exact .row rfl rfl rfl ⟨_, rfl⟩
  obtain ⟨c, hc, hfirst, hsecond⟩ := hrun
  exact ⟨c, hc, fun hacyclic => hacyclic 2 (.tail (.single hfirst) hsecond)⟩

end Runs

end Marketplace
