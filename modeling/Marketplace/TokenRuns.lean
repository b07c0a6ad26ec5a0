import Marketplace.TokenCalls

namespace Marketplace

open Concurrent ReadCommitted

variable {T : Type} [DecidableEq T] {crypto : AuthCrypto} {calls : T → TokenCall} {w : AuthWorld T}
  {c d : AuthConfig T (Option AuthResponse)}

abbrev TokenCalls (crypto : AuthCrypto) (calls : T → TokenCall) (w : AuthWorld T) :
    AuthConfig T (Option AuthResponse) :=
  .start w fun t => (calls t).run crypto t

structure NoTokens (w : AuthWorld T) : Prop where
  quiescent : w.db.Quiescent
  rows : ∀ id, w.db.committed (.refreshToken id) = none
  hashes : ∀ hash, w.db.committed (.tokenHash hash) = none
  uuids : w.env.uuids = []

omit [DecidableEq T] in
theorem NoTokens.inv (hw : NoTokens w) (final : T → Prop) : TokenInv final w := by
  refine ⟨⟨?_, ?_, ?_, ?_, ?_, ?_⟩, ⟨?_, ?_, ?_⟩, by rw [hw.uuids]; exact List.nodup_nil⟩
  case refine_3 =>
    intro hash id hid
    rw [hw.hashes] at hid
    cases hid
  all_goals
    intro id row
    rw [hw.rows]
    intros
    contradiction

omit [DecidableEq T] in
theorem NoTokens.sound (hw : NoTokens w) (final : T → Prop) : TokenSound crypto calls final w where
  toTokenInv := hw.inv final
  decided t _ _ h := by simp [Through, hw.quiescent.txn t] at h

theorem token_run {watched : T → Prop} (hw : NoTokens w)
    (h : (WatchedMachine watched).Reachable (TokenCalls crypto calls w) c) :
    TokenSound crypto calls (finalCall calls watched) c.shared ∧
      (∀ t r, c.outcome t = some (.ok r) → Answered crypto t (calls t) c.shared) ∧
      ∀ t e, c.outcome t = some (.error e) → Rejected crypto t e (calls t) c.shared := by
  obtain ⟨hinv, hdone, -⟩ := Discipline.run_holds (D := tokenLedger crypto calls watched) (hw.sound _)
    hw.quiescent.workspace (fun _ => run_spec) h
  exact ⟨hinv, fun t r hr => hdone t _ hr, fun t e hr => hdone t _ hr⟩

theorem token_history {watched : T → Prop} (hw : NoTokens w)
    (h : (WatchedMachine watched).Reachable (TokenCalls crypto calls w) c)
    (hd : (WatchedMachine watched).Reachable c d) :
    TokenAlways (finalCall calls watched) c.shared.db.committed d.shared.db.committed :=
  Discipline.run_always (D := tokenLedger crypto calls watched) (hw.sound _) hw.quiescent.workspace
    (fun _ => run_spec) h hd

theorem unwatched (h : (AuthMachine T).Reachable c d) : (WatchedMachine fun _ => False).Reachable c d :=
  h.restrict (J := fun _ => True) (fun _ _ => trivial) (fun _ _ _ _ hwatched => hwatched.elim) fun _ _ => trivial

def FamilyClosed (familyId : String) (old new : Tables T) : Prop :=
  ∀ id row, new (.refreshToken id) = some row → row.familyId = familyId →
    row.revokedAt ≠ none ∧ ∃ before, old (.refreshToken id) = some before ∧ row.usedBy = before.usedBy

def TokenClosed (crypto : AuthCrypto) (refreshToken : String) (old new : Tables T) : Prop :=
  ∃ id row, old (.tokenHash (crypto.hashRefreshToken refreshToken)) = some id ∧
    old (.refreshToken id) = some row ∧ FamilyClosed row.familyId old new

theorem family_closed {watched : T → Prop} (hw : NoTokens w)
    (h : (WatchedMachine watched).Reachable (TokenCalls crypto calls w) c) (hd : (WatchedMachine watched).Reachable c d)
    {id : ℕ} {row : RefreshTokenRow T} {t : T} (hrow : c.shared.db.committed (.refreshToken id) = some row)
    (ht : t ∈ row.revokedBy) (hfinal : finalCall calls watched t) :
    FamilyClosed row.familyId c.shared.db.committed d.shared.db.committed := by
  have hhistory := token_history hw h hd
  intro j other hj hfamily
  obtain ⟨hinv, -⟩ := token_run hw (h.trans hd)
  obtain ⟨row', hrow', hkept⟩ := hhistory.rows id row hrow
  refine ⟨?_, hhistory.closed row.familyId ⟨id, row, t, hrow, rfl, ht, hfinal⟩ j other hj hfamily⟩
  exact hinv.live.final id row' t hrow' (hkept.revokedBy t ht) hfinal j other hj (hfamily.trans hkept.familyId.symm)

theorem refresh_rotates_once (hw : NoTokens w) (h : (AuthMachine T).Reachable (TokenCalls crypto calls w) c) :
    (∀ t t' refreshToken response response', calls t = .refresh refreshToken → calls t' = .refresh refreshToken →
      c.outcome t = some (.ok response) → c.outcome t' = some (.ok response') → t = t') ∧
      (∀ id row, c.shared.db.committed (.refreshToken id) = some row → ∃ live, ∀ id', id' = live ↔
      ∃ row', c.shared.db.committed (.refreshToken id') = some row' ∧ row'.familyId = row.familyId ∧
      row'.usedAt = none) ∧
      (∀ id row id' row', c.shared.db.committed (.refreshToken id) = some row →
      c.shared.db.committed (.refreshToken id') = some row' → row.familyId = row'.familyId → row.userId = row'.userId) ∧
      ∀ d, (AuthMachine T).Reachable c d → ∀ id row time, c.shared.db.committed (.refreshToken id) = some row →
      row.usedAt = some time → ∃ row', d.shared.db.committed (.refreshToken id) = some row' ∧
      row'.usedAt = some time := by
  obtain ⟨hinv, hdone, -⟩ := token_run hw (unwatched h)
  refine ⟨?_, ?_, hinv.tables.users, ?_⟩
  · intro t t' refreshToken response response' ht ht' hr hr'
    have hused := hdone t _ hr
    have hused' := hdone t' _ hr'
    rw [ht] at hused
    rw [ht'] at hused'
    obtain ⟨id, row, hhash, hrow, -, hby⟩ := hused
    obtain ⟨id', row', hhash', hrow', -, hby'⟩ := hused'
    rw [hhash] at hhash'
    cases hhash'
    rw [hrow] at hrow'
    cases hrow'
    rw [hby] at hby'
    exact Option.some.inj hby'
  · intro id row hrow
    obtain ⟨live, row', hlive, hfamily, hunused⟩ := hinv.live.live id row hrow
    refine ⟨live, fun id' => ⟨?_, ?_⟩⟩
    · rintro rfl
      exact ⟨row', hlive, hfamily, hunused⟩
    · rintro ⟨row'', hrow'', hfamily', hunused'⟩
      exact hinv.live.unique id' row'' live row' hrow'' hlive (hfamily'.trans hfamily.symm) hunused' hunused
  · intro d hd id row time hrow htime
    obtain ⟨row', hrow', hkept⟩ := (token_history hw (unwatched h) (unwatched hd)).rows id row hrow
    exact ⟨row', hrow', hkept.usedAt time htime⟩

/-- A `refresh` call that has committed without using its token has found it used; so has one that says so. -/
theorem reuse_closes_family (hw : NoTokens w) (h : (AuthMachine T).Reachable (TokenCalls crypto calls w) c)
    (hd : (AuthMachine T).Reachable c d) {t : T} {refreshToken : String} (ht : calls t = .refresh refreshToken) :
    (Through t c.shared → ¬Used crypto t refreshToken c.shared →
      TokenClosed crypto refreshToken c.shared.db.committed d.shared.db.committed) ∧
      (c.outcome t = some (.error reuseDetected) →
      TokenClosed crypto refreshToken c.shared.db.committed d.shared.db.committed) := by
  obtain ⟨hinv, -, hfailed⟩ := token_run hw (unwatched h)
  have hclosed (hreused : Reused crypto t refreshToken c.shared) :
      TokenClosed crypto refreshToken c.shared.db.committed d.shared.db.committed := by
    obtain ⟨id, row, hhash, hrow, hby⟩ := hreused
    exact ⟨id, row, hhash, hrow,
      family_closed hw (unwatched h) (unwatched hd) hrow hby (.inl (by rw [ht]; trivial))⟩
  refine ⟨fun hthrough hunused => hclosed ?_, fun hanswer => hclosed ?_⟩
  · exact (hinv.decided t refreshToken ht hthrough).resolve_left hunused
  · have hdenied := hfailed t _ hanswer
    rw [ht] at hdenied
    exact hdenied rfl

theorem logout_closes_family (hw : NoTokens w)
    (h : (WatchedMachine fun t => (calls t).IsLogout).Reachable (TokenCalls crypto calls w) c)
    (hd : (WatchedMachine fun t => (calls t).IsLogout).Reachable c d) {t : T} {accessToken refreshToken : String}
    (ht : calls t = .logout accessToken refreshToken) {id : ℕ} {row : RefreshTokenRow T}
    (hrow : c.shared.db.committed (.refreshToken id) = some row) (hby : t ∈ row.revokedBy) :
    FamilyClosed row.familyId c.shared.db.committed d.shared.db.committed :=
  family_closed hw h hd hrow hby (.inr (by simp [ht, TokenCall.IsLogout]))

section Runs

-- signatures are not checked, and a token is its own hash
def plainCrypto : AuthCrypto where
  scrypt _ _ n := List.replicate n 0
  hmacSha256 _ text := text
  refreshTokenPepper := ""
  sign payload := payload.jti
  verify _ token := some ⟨some "1", some "buyer", some token, some "f", some 600⟩

def annaTables : Tables T
  | .user 1 => some ⟨"anna@example.com", some "scrypt$salt$00", .buyer, 0⟩
  | _ => none

def annaWorld : AuthWorld T :=
  ⟨⟨annaTables, fun _ => none, fun q => if q = .users then 2 else 1, fun _ => ⟨.idle, 0⟩⟩, ⟨[], []⟩⟩

omit [DecidableEq T] in
theorem annaWorld_noTokens : NoTokens (annaWorld (T := T)) :=
  ⟨⟨fun _ => rfl, fun _ => rfl⟩, fun _ => rfl, fun _ => rfl, rfl⟩

def annaLogin : TokenCall := .login ⟨"anna@example.com", "Password123!"⟩

abbrev AuthSchedule (T : Type) := List (T × Option (DatabaseMove AuthMove))

def goes (t : T) (n : ℕ) : AuthSchedule T := List.replicate n (t, some .go)

def times (t : T) (now n : ℕ) : AuthSchedule T := List.replicate n (t, some (.ext (.time now)))

def draws (t : T) (values : List String) : AuthSchedule T := values.map fun value => (t, some (.ext (.draw value)))

def loginMoves (t : T) : AuthSchedule T :=
  goes t 1 ++ draws t ["f", "r1", "a1"] ++ times t 0 2 ++ goes t 6

-- everything but COMMIT
def rotationMoves (t : T) (refreshToken jti : String) : AuthSchedule T :=
  goes t 4 ++ times t 1 2 ++ goes t 3 ++ draws t [refreshToken, jti] ++ times t 1 2 ++ goes t 4

def reuseCalls : ℕ → TokenCall
  | 0 => annaLogin
  | _ => .refresh "r1"

def reuseSchedule : AuthSchedule ℕ :=
  loginMoves 0 ++ rotationMoves 1 "r2" "a2" ++ goes 1 1 ++ goes 2 4 ++ times 2 2 2 ++ goes 2 6

theorem reuse_run : ∃ c : AuthConfig ℕ (Option AuthResponse),
    (AuthMachine ℕ).Reachable (TokenCalls plainCrypto reuseCalls annaWorld) c ∧
    c.outcome 1 = some (.ok (some ⟨"a2", "r2"⟩)) ∧
    c.outcome 2 = some (.error (.unauthorized "Refresh token reuse detected")) ∧
    c.shared.db.committed (.refreshToken 2) = some ⟨"r2", "f", 1, none, some 2, 2592000001, none, [2]⟩ := by
  apply exists_reachable (S := withDatabaseMoves authMoves .database) reuseSchedule
  decide

theorem refresh_rotates_once_replayed : ∃ c : AuthConfig ℕ (Option AuthResponse),
    (AuthMachine ℕ).Reachable (TokenCalls plainCrypto reuseCalls annaWorld) c ∧
    c.outcome 1 = some (.ok (some ⟨"a2", "r2"⟩)) ∧
    ∀ t response, reuseCalls t = .refresh "r1" → c.outcome t = some (.ok response) → 1 = t := by
  obtain ⟨c, hc, hfirst, -, -⟩ := reuse_run
  have h := (refresh_rotates_once annaWorld_noTokens hc).1
  exact ⟨c, hc, hfirst, fun t response ht hr => h 1 t "r1" _ response rfl ht hfirst hr⟩

theorem reuse_closes_family_replayed : ∃ c : AuthConfig ℕ (Option AuthResponse),
    (AuthMachine ℕ).Reachable (TokenCalls plainCrypto reuseCalls annaWorld) c ∧
    c.outcome 2 = some (.error (.unauthorized "Refresh token reuse detected")) ∧
    c.shared.db.committed (.refreshToken 2) = some ⟨"r2", "f", 1, none, some 2, 2592000001, none, [2]⟩ ∧
    TokenClosed plainCrypto "r1" c.shared.db.committed c.shared.db.committed := by
  obtain ⟨c, hc, -, hreuse, hrow⟩ := reuse_run
  exact ⟨c, hc, hreuse, hrow, (reuse_closes_family (t := 2) annaWorld_noTokens hc .refl rfl).2 hreuse⟩

-- the login is `false`, the logout `true`
def logoutCalls : Bool → TokenCall
  | false => annaLogin
  | true => .logout "a1" "r1"

def noTokenAdded (_ : Bool) (a : AuthAction Bool) (w : AuthWorld Bool) (_ : Except Failure (a.Res AuthOp.Res))
    (w' : AuthWorld Bool) : Bool :=
  (w.db.txn true).status ≠ .inProgress || (List.range (w'.db.seq .refreshTokens)).all fun id =>
    (w'.db.committed (.refreshToken id)).isNone || (w.db.committed (.refreshToken id)).isSome

@[reducible] def logoutMoves :
    Moves ((AuthMachine Bool).restrict (fun t a w r w' => noTokenAdded t a w r w' = true) fun _ _ _ => True) :=
  (withDatabaseMoves authMoves .database).restrict noTokenAdded fun h => h

theorem logout_run : ∃ c : AuthConfig Bool (Option AuthResponse),
    (WatchedMachine fun t => (logoutCalls t).IsLogout).Reachable (TokenCalls plainCrypto logoutCalls annaWorld) c ∧
    c.outcome true = some (.ok none) ∧
    c.shared.db.committed (.refreshToken 1) = some ⟨"r1", "f", 1, none, some 3, 2592000000, none, [true]⟩ := by
  have hrun : ∃ c : AuthConfig Bool (Option AuthResponse),
      ((AuthMachine Bool).restrict (fun t a w r w' => noTokenAdded t a w r w' = true) fun _ _ _ => True).Reachable
        (TokenCalls plainCrypto logoutCalls annaWorld) c ∧ c.outcome true = some (.ok none) ∧
      c.shared.db.committed (.refreshToken 1) = some ⟨"r1", "f", 1, none, some 3, 2592000000, none, [true]⟩ := by
    apply exists_reachable (S := logoutMoves)
      (loginMoves false ++ times true 2 1 ++ goes true 3 ++ times true 3 1 ++ goes true 3 ++ times true 3 1 ++
        goes true 3)
    decide
  obtain ⟨c, hc, hdone⟩ := hrun
  refine ⟨c, hc.map (J := TokenInv (finalCall logoutCalls fun _ => False)) (fun d hd => ?_) ?_ ?_, hdone⟩
  · exact (token_run annaWorld_noTokens (unwatched hd.of_restrict)).1.toTokenInv
  · rintro t a w r w' - hinv ⟨hperform, htest⟩
    refine ⟨hperform, fun t' familyId hwatched hout id row hrow _ => ?_⟩
    cases t' with
    | false => exact hwatched.elim
    | true =>
      simp only [noTokenAdded, Bool.or_eq_true, decide_eq_true_eq, List.all_eq_true, List.mem_range] at htest
      rcases htest with hidle | hold
      · exact absurd hout.1 hidle
      · rcases hold id (hinv.tables.bounded id row hrow) with hnone | hsome
        · rw [hrow] at hnone
          cases hnone
        · exact Option.isSome_iff_exists.mp hsome
  · exact fun _ _ hcrash => ⟨hcrash.1, trivial⟩

theorem logout_closes_family_undisturbed : ∃ c : AuthConfig Bool (Option AuthResponse),
    (WatchedMachine fun t => (logoutCalls t).IsLogout).Reachable (TokenCalls plainCrypto logoutCalls annaWorld) c ∧
    c.outcome true = some (.ok none) ∧
    c.shared.db.committed (.refreshToken 1) = some ⟨"r1", "f", 1, none, some 3, 2592000000, none, [true]⟩ ∧
    FamilyClosed "f" c.shared.db.committed c.shared.db.committed := by
  obtain ⟨c, hc, hdone, hrow⟩ := logout_run
  exact ⟨c, hc, hdone, hrow,
    logout_closes_family (t := true) annaWorld_noTokens hc .refl rfl hrow (List.mem_singleton_self true)⟩

def racingCalls : ℕ → TokenCall
  | 0 => annaLogin
  | 1 => .refresh "r1"
  | 2 => .refresh "r2"
  | _ => .logout "a1" "r1"

-- call 2 has inserted "r3" when the logout's family UPDATE starts, and commits while the UPDATE waits for "r2"
def racingSchedule : AuthSchedule ℕ :=
  loginMoves 0 ++ rotationMoves 1 "r2" "a2" ++ goes 1 1 ++ rotationMoves 2 "r3" "a3" ++ times 3 2 1 ++ goes 3 3 ++
    times 3 2 1 ++ goes 3 3 ++ goes 2 1 ++ goes 3 2 ++ times 3 2 1 ++ goes 3 3

theorem logout_missed_token : ∃ c : AuthConfig ℕ (Option AuthResponse),
    (AuthMachine ℕ).Reachable (TokenCalls plainCrypto racingCalls annaWorld) c ∧ c.outcome 3 = some (.ok none) ∧
    ∃ row missed : RefreshTokenRow ℕ, c.shared.db.committed (.refreshToken 1) = some row ∧ 3 ∈ row.revokedBy ∧
      c.shared.db.committed (.refreshToken 3) = some missed ∧ missed.familyId = row.familyId ∧
      missed.revokedAt = none := by
  have hrun : ∃ c : AuthConfig ℕ (Option AuthResponse),
      (AuthMachine ℕ).Reachable (TokenCalls plainCrypto racingCalls annaWorld) c ∧ c.outcome 3 = some (.ok none) ∧
      c.shared.db.committed (.refreshToken 1) = some ⟨"r1", "f", 1, some 1, some 2, 2592000000, some 1, [3]⟩ ∧
      c.shared.db.committed (.refreshToken 3) = some ⟨"r3", "f", 1, none, none, 2592000001, none, []⟩ := by
    apply exists_reachable (S := withDatabaseMoves authMoves .database) racingSchedule
    decide
  obtain ⟨c, hc, hdone, hrow, hmissed⟩ := hrun
  exact ⟨c, hc, hdone, _, _, hrow, List.mem_singleton_self 3, hmissed, rfl, rfl⟩

end Runs

end Marketplace
