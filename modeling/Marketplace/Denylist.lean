import Marketplace.OrdersApi
import Marketplace.ReadCommitted.Writes
import Marketplace.TokenRuns

namespace Marketplace

open Concurrent ReadCommitted

/-- What `jsonwebtoken` reads from a signed token before it looks at `exp`, and what the one signer of
access tokens signs: every token expires, and no two have one `jti`. -/
structure AccessTokens (crypto : AuthCrypto) (decode : String → Option JwtPayload) : Prop where
  verify : ∀ now token, crypto.verify now token = (decode token).filter fun p => p.exp.all fun exp => now < exp
  expires : ∀ token p, decode token = some p → p.exp ≠ none
  jti : ∀ token p token' p', decode token = some p → decode token' = some p' → p.jti = p'.jti → p.exp = p'.exp

variable {T : Type}

def DeniedUntil (decode : String → Option JwtPayload) (jti : String) (row : AccessTokenDenylistRow) : Prop :=
  ∃ token p exp, decode token = some p ∧ p.jti = some jti ∧ p.exp = some exp ∧ row.expiresAt = exp * 1000

def DenylistWrites (decode : String → Option JwtPayload) : (k : Key) → Row T k → Prop
  | .accessTokenDenylist jti, row => DeniedUntil decode jti row
  | _, _ => True

section Tokens

variable {crypto : AuthCrypto} {decode : String → Option JwtPayload} {now : ℕ} {token : String}
  {payload : AccessTokenPayload}

theorem AccessTokens.deniedUntil_unique (ht : AccessTokens crypto decode) {jti : String}
    {row row' : AccessTokenDenylistRow} (h : DeniedUntil decode jti row) (h' : DeniedUntil decode jti row') :
    row' = row := by
  obtain ⟨token, p, exp, hp, hjti, hexp, hrow⟩ := h
  obtain ⟨token', p', exp', hp', hjti', hexp', hrow'⟩ := h'
  have hsame := ht.jti token p token' p' hp hp' (hjti.trans hjti'.symm)
  rw [hexp, hexp'] at hsame
  cases hsame
  cases row
  cases row'
  simp only at hrow hrow'
  rw [hrow, hrow']

-- the checks of `verifyAccessToken` on what `jsonwebtoken` has read
def JwtPayload.claims : JwtPayload → Option AccessTokenPayload
  | ⟨some sub, some role, some jti, some familyId, exp⟩ =>
    if sub = "" || jti = "" then none
    else (userRole role).map fun role => ⟨sub, role, jti, familyId, exp⟩
  | _ => none

theorem verifyAccessToken_eq :
    crypto.verifyAccessToken now token = (crypto.verify now token).bind JwtPayload.claims := by
  unfold AuthCrypto.verifyAccessToken
  cases crypto.verify now token with
  | none => rfl
  | some p =>
    obtain ⟨sub, role, jti, familyId, exp⟩ := p
    cases sub <;> cases role <;> cases jti <;> cases familyId <;> rfl

theorem claims_kept {p : JwtPayload} (h : p.claims = some payload) :
    p.jti = some payload.jti ∧ p.exp = payload.exp := by
  unfold JwtPayload.claims at h
  split at h
  · split_ifs at h
    obtain ⟨role, -, rfl⟩ := Option.map_eq_some_iff.mp h
    exact ⟨rfl, rfl⟩
  · cases h

def CarriesPayload (decode : String → Option JwtPayload) (token : String) (payload : AccessTokenPayload) (exp : ℕ) :
    Prop :=
  ∃ p, decode token = some p ∧ p.claims = some payload ∧ p.exp = some exp

theorem AccessTokens.verifyAccessToken_iff (ht : AccessTokens crypto decode) :
    crypto.verifyAccessToken now token = some payload ↔ ∃ exp, CarriesPayload decode token payload exp ∧ now < exp := by
  rw [verifyAccessToken_eq, ht.verify]
  cases hp : decode token with
  | none => simp [CarriesPayload, hp]
  | some p =>
    obtain ⟨exp, hexp⟩ := Option.ne_none_iff_exists'.mp (ht.expires token p hp)
    by_cases hnow : now < exp
    · rw [Option.filter_some_pos (by simp [hexp, hnow])]
      exact ⟨fun h => ⟨exp, ⟨p, hp, h, hexp⟩, hnow⟩, fun ⟨_, ⟨p', hp', hclaims, _⟩, _⟩ => by
        rw [hp] at hp'
        cases hp'
        exact hclaims⟩
    · rw [Option.filter_some_neg (by simp [hexp, hnow])]
      refine ⟨nofun, ?_⟩
      rintro ⟨exp', ⟨p', hp', -, hexp'⟩, hnow'⟩
      rw [hp] at hp'
      cases hp'
      rw [hexp] at hexp'
      cases hexp'
      exact absurd hnow' hnow

theorem CarriesPayload.deniedUntil {exp : ℕ} (h : CarriesPayload decode token payload exp) :
    DeniedUntil decode payload.jti ⟨payload.exp.getD 0 * 1000⟩ ∧ payload.exp = some exp := by
  obtain ⟨p, hp, hclaims, hexp⟩ := h
  obtain ⟨hjti, hpayload⟩ := claims_kept hclaims
  rw [hexp] at hpayload
  exact ⟨⟨token, p, exp, hp, hjti, hexp, by simp [← hpayload]⟩, hpayload.symm⟩

theorem CarriesPayload.unique {payload' : AccessTokenPayload} {exp exp' : ℕ}
    (h : CarriesPayload decode token payload exp) (h' : CarriesPayload decode token payload' exp') :
    payload' = payload ∧ exp' = exp := by
  obtain ⟨p, hp, hclaims, hexp⟩ := h
  obtain ⟨p', hp', hclaims', hexp'⟩ := h'
  rw [hp] at hp'
  cases hp'
  rw [hclaims] at hclaims'
  rw [hexp] at hexp'
  cases hclaims'
  cases hexp'
  exact ⟨rfl, rfl⟩

end Tokens

section Programs

variable {crypto : AuthCrypto} {decode : String → Option JwtPayload}

theorem drawing_writes (o : AuthOp) : InnerWrites (DenylistWrites (T := T) decode) (drawing o) :=
  .perform ⟨trivial, trivial⟩

theorem signAccessToken_writes (userId : ℕ) (role : UserRole) (familyId : String) :
    OnlyWrites (DenylistWrites (T := T) decode) (signAccessToken crypto userId role familyId) :=
  .bind (drawing_writes .randomUUID).onlyWrites fun _ => .bind (drawing_writes .clock).onlyWrites fun _ => trivial

theorem insertRefreshToken_writes (row : RefreshTokenRow T) :
    OnlyWrites (DenylistWrites decode) (insertRefreshToken row) :=
  .bind (onlyWrites_insertWithId fun _ => trivial) fun _ => onlyWrites_insertOrFail trivial

theorem issueTokenPair_writes (userId : ℕ) (role : UserRole) (familyId : String) :
    OnlyWrites (DenylistWrites (T := T) decode) (issueTokenPair crypto userId role familyId) := by
  refine .bind (drawing_writes .createRefreshToken).onlyWrites fun _ => .bind (signAccessToken_writes _ _ _) fun _ => ?_
  refine .bind (drawing_writes .clock).onlyWrites fun _ => ?_
  exact .bind (onlyWrites_autocommit (insertRefreshToken_writes _)) fun _ => trivial

theorem login_writes (input : LoginInput) : OnlyWrites (DenylistWrites (T := T) decode) (login crypto input) := by
  refine .bind onlyWrites_statement fun view => ?_
  split
  · trivial
  · split
    · trivial
    · split_ifs
      · trivial
      · exact .bind (drawing_writes .randomUUID).onlyWrites fun _ => issueTokenPair_writes _ _ _
      · trivial

theorem selectToken_writes (tokenHash : String) :
    InnerWrites (DenylistWrites (T := T) decode) (selectToken tokenHash) := by
  refine .bind innerWrites_statement fun view => ?_
  split
  · trivial
  · refine .bind (innerWrites_lock _) fun current => ?_
    split
    · trivial
    · split_ifs <;> trivial

theorem selectTokenAndUser_writes (tokenHash : String) :
    InnerWrites (DenylistWrites (T := T) decode) (selectTokenAndUser tokenHash) := by
  refine .bind innerWrites_statement fun view => ?_
  split
  · trivial
  · split
    · trivial
    · refine .bind (innerWrites_lock _) fun current => .bind (innerWrites_lock _) fun user => ?_
      split
      · split_ifs <;> trivial
      · trivial

theorem revokeRows_writes (self : T) (familyId : String) (now : ℕ) (ids : List ℕ) :
    InnerWrites (DenylistWrites decode) (revokeRows self familyId now ids) := by
  induction ids with
  | nil => trivial
  | cons id ids ih =>
    refine .bind (innerWrites_lock _) fun latest => ?_
    split
    · exact ih
    · split_ifs
      · exact .bind (innerWrites_put trivial) fun _ => ih
      · exact ih

theorem revokeFamily_writes (self : T) (familyId : String) :
    InnerWrites (DenylistWrites decode) (revokeFamily self familyId) :=
  .bind (drawing_writes .clock) fun _ => .bind innerWrites_statement fun _ => revokeRows_writes _ _ _ _

theorem refresh_writes (self : T) (refreshToken : String) :
    OnlyWrites (DenylistWrites decode) (refresh crypto self refreshToken) := by
  refine .bind onlyWrites_begin fun _ => .bind (.handle ?_ fun error => ?_) fun response => ?_
  · refine .bind (selectTokenAndUser_writes _).onlyWrites fun found => ?_
    split
    · trivial
    · refine .bind (drawing_writes .clock).onlyWrites fun now => ?_
      split
      · trivial
      · split
        · refine .bind (revokeFamily_writes _ _).onlyWrites fun _ => ?_
          exact .bind onlyWrites_commit fun _ => trivial
        · refine .bind (drawing_writes .clock).onlyWrites fun usedAt => ?_
          refine .bind (onlyWrites_updateWhere fun _ => trivial) fun _ => ?_
          refine .bind (drawing_writes .createRefreshToken).onlyWrites fun _ => ?_
          refine .bind (signAccessToken_writes _ _ _) fun _ => .bind (drawing_writes .clock).onlyWrites fun _ => ?_
          exact .bind (insertRefreshToken_writes _) fun _ => .bind onlyWrites_commit fun _ => trivial
  · exact .bind onlyWrites_rollback fun _ => trivial
  · split <;> trivial

end Programs

inductive AccessCall
  | token (call : TokenCall)
  | guard (verifiedAt deniedAt : ℕ) (authorization : Option String)

def AccessCall.run (crypto : AuthCrypto) (self : T) : AccessCall → AuthCall T (Option AccessTokenPayload)
  | .token call => do
    let _ ← call.run crypto self
    pure none
  | .guard verifiedAt deniedAt authorization => do
    let payload ← AuthGuard.canActivateAt crypto verifiedAt deniedAt authorization
    pure (some payload)

def ReadsUntil (bound : Option ℕ) (_ : T) (a : AuthAction T) (_ : AuthWorld T) (r : Except Failure (a.Res AuthOp.Res))
    (_ : AuthWorld T) : Prop :=
  match a, r with
  | .ext .clock, .ok now => ∀ last ∈ bound, now ≤ last
  | _, _ => True

variable [DecidableEq T]

abbrev TimedMachine (T : Type) [DecidableEq T] (bound : Option ℕ) :
    Machine T (AuthWorld T) (AuthAction T) (Action.Res AuthOp.Res) Failure :=
  (AuthMachine T).restrict (ReadsUntil bound) fun _ _ _ => True

def denylistKept (decode : String → Option JwtPayload) (bound : Option ℕ) : Discipline (TimedMachine T bound) where
  inv _ := True
  always w w' := ∀ jti row, DeniedUntil decode jti row → w.db.committed (.accessTokenDenylist jti) = some row →
    w'.db.committed (.accessTokenDenylist jti) = some row
  rely _ _ _ := True
  gone _ _ := True
  always_refl _ _ _ _ h := h
  always_trans h h' jti row hrow hold := h' jti row hrow (h jti row hrow hold)
  rely_refl _ _ := trivial
  rely_trans _ _ _ _ _ _ := trivial

section Calls

variable {crypto : AuthCrypto} {decode : String → Option JwtPayload} {bound : Option ℕ} {t : T}

theorem denylistKept_calm : Calm (denylistKept (T := T) decode bound) := by
  apply Calm.of_committed
  · exact fun _ _ _ _ _ => trivial
  · intro w w' hc jti row _ hrow
    rw [hc]
    exact hrow
  · exact fun _ _ _ _ => trivial
  · exact fun _ _ => trivial

theorem denylistKept_rules (ht : AccessTokens crypto decode) :
    WriteRules (denylistKept decode bound) t (DenylistWrites decode) where
  calm := denylistKept_calm
  starts _ := ⟨trivial, fun _ _ _ h => h, fun _ _ => trivial⟩
  external _ _ := ⟨trivial, fun _ _ _ h => h, fun _ _ => trivial⟩
  commits {ws c w} _ hat hws := by
    refine ⟨trivial, fun jti row hdenied hrow => ?_, fun _ _ => trivial⟩
    rw [hat.committed_commit]
    rcases hws.onto (fun k ch hk => hat.committed_old hk) (.accessTokenDenylist jti) with hsame | ⟨row', hnew, hdenied'⟩
    · exact hsame.trans hrow
    · rw [hnew, ht.deniedUntil_unique hdenied hdenied']

theorem readClock_spec {P : AuthWorld T → Prop} (hP : (denylistKept decode bound).Stable t P) :
    (denylistKept decode bound).Triple t P readClock (fun now w => (∀ last ∈ bound, now ≤ last) ∧ P w)
      fun _ _ => True := by
  apply Discipline.Triple.perform hP _ (fun w w' hi _ hc => denylistKept_calm.crash hi hc.1 hc.2)
    (fun _ => .and .const hP) fun _ => .const
  rintro w r w' hi hp ⟨h, ha⟩
  cases h with
  | ext h =>
    cases h with
    | clock now => exact ⟨denylistKept_calm.works hi (Database.works_refl _ _), ha, hp⟩

/-- The denylist holds the access token, unless it had expired when the clock was last read. -/
def LoggedOut (decode : String → Option JwtPayload) (bound : Option ℕ) (accessToken : String) (w : AuthWorld T) :
    Prop :=
  ∃ payload exp, CarriesPayload decode accessToken payload exp ∧ ∀ last ∈ bound, last < exp * 1000 →
    w.db.committed (.accessTokenDenylist payload.jti) = some ⟨exp * 1000⟩

theorem loggedOut_stable {accessToken : String} :
    (denylistKept decode bound).Stable t (LoggedOut decode bound accessToken) := by
  rintro w w' _ ⟨payload, exp, hcarries, h⟩ hs
  obtain ⟨hdenied, hexp⟩ := hcarries.deniedUntil
  rw [hexp, Option.getD_some] at hdenied
  exact ⟨payload, exp, hcarries, fun last hlast hlt => hs.always _ _ hdenied (h last hlast hlt)⟩

theorem logout_denies (ht : AccessTokens crypto decode) {accessToken refreshToken : String} :
    (denylistKept decode bound).Triple t (fun w => w.db.workspace t = Workspace.empty)
      (logout crypto t accessToken refreshToken)
      (fun _ w => LoggedOut decode bound accessToken w) fun _ _ => True := by
  have hD : Calm (denylistKept (T := T) decode bound) := denylistKept_calm
  have hrules : WriteRules (denylistKept decode bound) t (DenylistWrites decode) := denylistKept_rules ht
  have hidle : (denylistKept decode bound).Stable t fun w => w.db.workspace t = Workspace.empty :=
    fun _ _ _ h hs => hs.frame.db.workspace.trans h
  refine .bind (readClock_spec hidle) fun verifiedAt => .pure_pre fun _ => ?_
  split
  · exact .throw .const fun _ _ _ => trivial
  rename_i payload hverified
  obtain ⟨exp, hcarries, -⟩ := ht.verifyAccessToken_iff.mp hverified
  have hdenied := hcarries.deniedUntil
  have hexpires : payload.exp.getD 0 * 1000 = exp * 1000 := by rw [hdenied.2, Option.getD_some]
  have hinside {α β : Type} {p : AuthCall T α} {f : α → AuthCall T β} {Q : β → AuthWorld T → Prop}
      (hp : InnerWrites (DenylistWrites decode) p)
      (hf : ∀ a, (denylistKept decode bound).Triple t (Inside (DenylistWrites decode) t) (f a) Q fun _ _ => True) :
      (denylistKept decode bound).Triple t (Inside (DenylistWrites decode) t) (p.bind f) Q fun _ _ => True :=
    .bind ((hrules.inner hp).conseq (fun _ _ h => h) (fun _ _ _ h => h) fun _ _ _ _ => trivial) hf
  refine .bind ((begin_spec (F := fun _ => True) (Y := fun _ _ => True) hD .const
    (fun w hi _ => ⟨hrules.starts hi, trivial⟩)
    (fun _ _ _ => trivial) fun _ => .const).pre fun w _ h => ⟨h, trivial⟩) fun _ => ?_
  refine Discipline.Triple.handle (Y := fun _ _ => True) ?_ fun error =>
    rollback_throw_spec hD .const error (fun _ => .const) fun _ _ _ => ⟨trivial, trivial⟩
  refine (hinside (selectToken_writes _) fun found => ?_).pre fun w _ h => ⟨_, _, .empty, h.1⟩
  split
  · exact .throw .const fun _ _ _ => trivial
  split
  · exact .throw .const fun _ _ _ => trivial
  refine hinside (revokeFamily_writes _ _) fun _ => ?_
  refine .bind (readClock_spec Inside.stable) fun now => .pure_pre fun hnow => ?_
  refine .exists_pre fun ws => .exists_pre fun c => .pure_pre fun hws => ?_
  split
  · refine .bind ((insertOrUpdate_spec (F := fun _ => True) hD .const .any).pre fun w _ h => ⟨h, trivial⟩)
      fun _ => .exists_pre fun ch => .pure_pre fun hch => ?_
    have hnew : ch.new = ⟨payload.exp.getD 0 * 1000⟩ := by
      rcases hch with h | ⟨_, h⟩
      · exact h
      · exact h
    refine commit_spec hD .const .any loggedOut_stable fun w r hi hat _ _ => ⟨?_, fun _ => ?_, fun _ => trivial⟩
    · exact hrules.commits hi hat (hws.set (hnew ▸ hdenied.1))
    · refine ⟨payload, exp, hcarries, fun _ _ _ => ?_⟩
      rw [hat.committed_commit, Workspace.onto_of_some
        (k := Key.accessTokenDenylist payload.jti) Workspace.set_self, hnew,
        hexpires]
  · rename_i hpast
    refine (commit_spec (F := fun _ => True) hD .const .any loggedOut_stable fun w r hi hat _ _ =>
      ⟨?_, fun _ => ?_, fun _ => trivial⟩).pre
      fun w _ h => ⟨h, trivial⟩
    · exact hrules.commits hi hat hws
    · refine ⟨payload, exp, hcarries, fun last hlast hlt => absurd ?_ hpast⟩
      have hle := hnow last hlast
      omega

omit [DecidableEq T] in
theorem bearerToken_bearer (token : String) : bearerToken (some ("Bearer " ++ token)) = some token := by
  have hlength : "Bearer ".length = 7 := rfl
  simp [bearerToken, hlength]

omit [DecidableEq T] in
theorem canActivateAt_verified {verifiedAt deniedAt : ℕ} {token : String} {payload : AccessTokenPayload}
    (h : crypto.verifyAccessToken (verifiedAt / 1000) token = some payload) :
    (AuthGuard.canActivateAt crypto verifiedAt deniedAt (some ("Bearer " ++ token)) : AuthCall T AccessTokenPayload) =
      (do
        if ← isAccessTokenDenied deniedAt payload.jti then throw (.unauthorized "Access token revoked")
        else pure payload) := by
  unfold AuthGuard.canActivateAt
  simp only [bearerToken_bearer, h]

theorem guard_rejects (ht : AccessTokens crypto decode) {token : String} {payload : AccessTokenPayload}
    {exp verifiedAt deniedAt : ℕ} (hcarries : CarriesPayload decode token payload exp)
    (h : exp * 1000 ≤ verifiedAt ∨ deniedAt < exp * 1000) :
    (denylistKept decode bound).Triple t (fun w => w.db.workspace t = Workspace.empty ∧
      (verifiedAt < exp * 1000 → w.db.committed (.accessTokenDenylist payload.jti) = some ⟨exp * 1000⟩))
      (AccessCall.run crypto t (.guard verifiedAt deniedAt (some ("Bearer " ++ token)))) (fun _ _ => False)
      fun _ _ => True := by
  cases hverify : crypto.verifyAccessToken (verifiedAt / 1000) token with
  | none =>
    simp only [AccessCall.run, AuthGuard.canActivateAt, bearerToken_bearer, hverify]
    exact .throw .const fun _ _ _ => trivial
  | some payload' =>
    obtain ⟨exp', hcarries', hlt⟩ := ht.verifyAccessToken_iff.mp hverify
    obtain ⟨rfl, rfl⟩ := hcarries.unique hcarries'
    have hbefore : verifiedAt < exp' * 1000 := by omega
    have hafter : deniedAt < exp' * 1000 := by omega
    obtain ⟨hdenied, hexp⟩ := hcarries.deniedUntil
    rw [hexp, Option.getD_some] at hdenied
    have hP : (denylistKept decode bound).Stable t fun w => w.db.workspace t = Workspace.empty ∧
        (verifiedAt < exp' * 1000 → w.db.committed (.accessTokenDenylist payload'.jti) = some ⟨exp' * 1000⟩) :=
      fun w w' _ h hs => ⟨hs.frame.db.workspace.trans h.1, fun hb => hs.always _ _ hdenied (h.2 hb)⟩
    simp only [AccessCall.run, canActivateAt_verified hverify]
    refine .bind (R := fun _ _ => False) (.bind (R := fun denied _ => denied = true) (.bind
      (R := fun view _ => view.row (.accessTokenDenylist payload'.jti) = some ⟨exp' * 1000⟩) ?_ fun view => ?_)
      fun denied => ?_) fun _ => ?_
    · refine denylistKept_calm.inner (o := .statement) trivial hP ?_ (fun _ _ _ => trivial)
        (fun _ => .const) fun _ => .const
      rintro w view db _ ⟨hidle, hrow⟩ hx -
      cases hx
      exact (Database.visible_of_none (by rw [hidle]; rfl)).trans (hrow hbefore)
    · refine .pure .const fun w _ hrow => ?_
      simp [hrow, hafter]
    · cases denied with
      | true => exact .throw .const fun _ _ _ => trivial
      | false =>
        intro w _ hfalse
        cases hfalse
    · intro w _ hfalse
      exact hfalse.elim

def AccessCall.Answered (decode : String → Option JwtPayload) (bound : Option ℕ) : AccessCall → AuthWorld T → Prop
  | .token (.logout accessToken _), w => LoggedOut decode bound accessToken w
  | _, _ => True

theorem AccessCall.run_spec (ht : AccessTokens crypto decode) (call : AccessCall) :
    (denylistKept decode bound).Triple t (fun w => w.db.workspace t = Workspace.empty) (call.run crypto t)
      (fun _ => call.Answered decode bound) fun _ _ => True := by
  have hother {p : AuthCall T (Option AccessTokenPayload)} (hp : OnlyWrites (DenylistWrites decode) p) :
      (denylistKept decode bound).Triple t (fun w => w.db.workspace t = Workspace.empty) p (fun _ _ => True)
        fun _ _ => True := by
    refine ((denylistKept_rules ht).call hp).conseq (fun w _ h => ?_) (fun _ _ _ _ => trivial) fun _ _ _ _ => trivial
    unfold Changes
    rw [h]
    exact .empty
  cases call with
  | token call =>
    cases call with
    | login input => exact hother (.bind (.bind (login_writes input) fun _ => trivial) fun _ => trivial)
    | refresh refreshToken => exact hother (.bind (.bind (refresh_writes t refreshToken) fun _ => trivial)
      fun _ => trivial)
    | logout accessToken refreshToken =>
      refine .bind (R := fun _ => LoggedOut decode bound accessToken) (.bind (logout_denies ht)
        fun _ => .pure loggedOut_stable fun _ _ h => h) fun _ => ?_
      exact .pure loggedOut_stable fun _ _ h => h
  | guard verifiedAt deniedAt authorization =>
    refine hother (.bind ?_ fun _ => trivial)
    unfold AuthGuard.canActivateAt
    split
    · trivial
    · split
      · trivial
      · refine .bind (.bind onlyWrites_statement fun _ => trivial) fun denied => ?_
        split <;> trivial

end Calls

abbrev AccessConfig (T : Type) := AuthConfig T (Option AccessTokenPayload)

theorem guard_accepts {crypto : AuthCrypto} {c : AccessConfig T} {g : T} {verifiedAt deniedAt : ℕ} {token : String}
    {payload : AccessTokenPayload} (hverify : crypto.verifyAccessToken (verifiedAt / 1000) token = some payload)
    (hg : c.prog g = some (AccessCall.run crypto g (.guard verifiedAt deniedAt (some ("Bearer " ++ token)))))
    (hrow : ∀ row, c.shared.db.visible g (.accessTokenDenylist payload.jti) = some row → row.expiresAt ≤ deniedAt) :
    ∃ d, (AuthMachine T).Reachable c d ∧ d.outcome g = some (.ok (some payload)) := by
  simp only [AccessCall.run, canActivateAt_verified hverify] at hg
  refine ⟨_, .single (.call hg (.answer (o := .statement) rfl)), ?_⟩
  have hany : ((c.shared.db.snapshot g).row (.accessTokenDenylist payload.jti)).any
    (fun row => deniedAt < row.expiresAt) =
      false := by
    cases hr : (c.shared.db.snapshot g).row (.accessTokenDenylist payload.jti) with
    | none => rfl
    | some row => simpa using hrow row hr
  simp only [Config.outcome_eq_some, Function.update_self]
  simp only [Prog.bind, Prog.pure_def, hany]
  rfl

omit [DecidableEq T] in
theorem readsUntil_none {t : T} {a : AuthAction T} {w w' : AuthWorld T} {r : Except Failure (a.Res AuthOp.Res)} :
    ReadsUntil none t a w r w' := by
  unfold ReadsUntil
  split
  · exact nofun
  · trivial

theorem Reachable.timed {c d : AccessConfig T} (h : (AuthMachine T).Reachable c d) :
    (TimedMachine T none).Reachable c d :=
  h.restrict (J := fun _ => True) (fun _ _ => trivial) (fun _ _ => readsUntil_none) fun _ _ => trivial

/-- The access token of a `logout` that has returned is let in by no later request, exactly if it has expired when
it is verified or the denylist is asked before it expires. -/
theorem logged_out_token_rejected {crypto : AuthCrypto} {decode : String → Option JwtPayload}
    (ht : AccessTokens crypto decode) {calls : T → AccessCall} {w : AuthWorld T} (hw : w.db.Quiescent)
    {c : AccessConfig T} {loggedOutAt verifiedAt deniedAt : ℕ}
    (h : (TimedMachine T (some loggedOutAt)).Reachable (.start w fun t => (calls t).run crypto t) c)
    {t g : T} {accessToken refreshToken : String} (hlogout : calls t = .token (.logout accessToken refreshToken))
    (hreturned : c.outcome t = some (.ok none))
    (hguard : calls g = .guard verifiedAt deniedAt (some ("Bearer " ++ accessToken)))
    (hunstarted : c.prog g = some ((calls g).run crypto g)) {exp : ℕ}
    (hexp : (decode accessToken).bind JwtPayload.exp = some exp) (hbefore : loggedOutAt < verifiedAt) :
    (∀ d, (AuthMachine T).Reachable c d → ∀ payload, d.outcome g ≠ some (.ok payload)) ↔
      exp * 1000 ≤ verifiedAt ∨ deniedAt < exp * 1000 := by
  have hstart : ∀ t, w.db.workspace t = Workspace.empty := hw.workspace
  have hunstarted' := hunstarted
  rw [hguard] at hunstarted'
  have hidle : c.shared.db.workspace g = Workspace.empty :=
    (Machine.Reachable.unstarted h hunstarted).db.workspace.trans (hstart g)
  obtain ⟨-, hout, -⟩ := Discipline.run_holds (D := denylistKept decode (some loggedOutAt)) trivial hstart
    (fun t => AccessCall.run_spec ht (calls t)) h
  have hanswered := hout t _ hreturned
  simp only [hlogout, Discipline.Post, AccessCall.Answered] at hanswered
  obtain ⟨payload, exp', hcarries, hrow⟩ := hanswered
  have hcarries' := hcarries
  obtain ⟨p, hp, -, hpexp⟩ := hcarries'
  rw [hp] at hexp
  cases hpexp.symm.trans hexp
  replace hrow := hrow loggedOutAt rfl
  constructor
  · intro hall
    by_contra hcon
    have hverify : crypto.verifyAccessToken (verifiedAt / 1000) accessToken = some payload :=
      ht.verifyAccessToken_iff.mpr ⟨exp, hcarries, by omega⟩
    have hlapsed : ∀ row, c.shared.db.visible g (.accessTokenDenylist payload.jti) = some row →
      row.expiresAt ≤ deniedAt := by
      intro row hr
      rw [Database.visible_of_none (by rw [hidle]; rfl), hrow (by omega)] at hr
      cases hr
      show exp * 1000 ≤ deniedAt
      omega
    obtain ⟨d, hd, hlet⟩ := guard_accepts hverify hunstarted' hlapsed
    exact hall d hd _ hlet
  · intro hcond d hd payload' hlet
    have hsafe : ∀ t, (denylistKept decode none).Holds t (Discipline.Post (fun _ => (calls t).Answered decode none)
        fun _ _ => True) w (some ((calls t).run crypto t)) :=
            fun t => AccessCall.run_spec ht (calls t) w trivial (hstart t)
    obtain ⟨hinv, -, hall⟩ := Discipline.reachable_holds trivial hsafe (Reachable.timed h.of_restrict)
    have hg : (denylistKept decode none).Holds g (Discipline.Post (fun _ _ => False) fun _ _ => True) c.shared
      (c.prog g) := by
      rw [hunstarted']
      exact guard_rejects ht hcarries hcond c.shared hinv ⟨hidle, fun hlt => hrow (by omega)⟩
    have hholds := (Discipline.reachable_holds hinv (Discipline.Holds.update hall hg) (Reachable.timed hd)).2.2 g
    rw [Config.outcome_eq_some.mp hlet, Function.update_self] at hholds
    exact Discipline.Safe.outcome hholds trivial

section Runs

-- every token is its own `jti` and expires ten minutes after the start
def tenMinuteToken (token : String) : Option JwtPayload := some ⟨some "1", some "buyer", some token, some "f", some 600⟩

def expiringCrypto : AuthCrypto :=
  { plainCrypto with verify := fun now token => (tenMinuteToken token).filter fun p => p.exp.all fun exp => now < exp }

theorem expiringCrypto_tokens : AccessTokens expiringCrypto tenMinuteToken where
  verify _ _ := rfl
  expires _ _ h := by
    cases h
    exact Option.some_ne_none 600
  jti _ _ _ _ h h' _ := by
    cases h
    cases h'
    rfl

def loggedOutCalls (verifiedAt deniedAt : ℕ) : ℕ → AccessCall
  | 0 => .token annaLogin
  | 1 => .token (.logout "a1" "r1")
  | _ => .guard verifiedAt deniedAt (some ("Bearer " ++ "a1"))

def logoutSchedule : AuthSchedule ℕ :=
  loginMoves 0 ++ times 1 2 1 ++ goes 1 3 ++ times 1 3 1 ++ goes 1 3 ++ times 1 3 1 ++ goes 1 3

@[reducible] def timedMoves : Moves (TimedMachine ℕ (some 3)) :=
  (withDatabaseMoves authMoves .database).restrict (fun _ a _ r _ => match a, r with
    | .ext .clock, .ok now => now ≤ 3
    | _, _ => true) (by
      intro t a w r w' htest
      match a, r, htest with
      | .sql _, _, _ => trivial
      | .ext .clock, .ok now, htest =>
        rintro _ ⟨⟩
        exact of_decide_eq_true htest
      | .ext .clock, .error _, _ => trivial
      | .ext .randomUUID, _, _ => trivial
      | .ext .createRefreshToken, _, _ => trivial)

theorem logoutSchedule_others : ∀ move ∈ logoutSchedule, move.1 ≠ 2 := by decide

/-- The denylist row lapses between the two questions of the guard. -/
theorem logged_out_token_accepted : ∃ c d : AccessConfig ℕ,
    (TimedMachine ℕ (some 3)).Reachable
      (.start annaWorld fun t => (loggedOutCalls 599999 600000 t).run expiringCrypto t) c ∧
      c.outcome 1 = some (.ok none) ∧
      c.prog 2 = some ((loggedOutCalls 599999 600000 2).run expiringCrypto 2) ∧
      (AuthMachine ℕ).Reachable c d ∧ ∃ payload, d.outcome 2 = some (.ok (some payload)) := by
  obtain ⟨c, d, hc, hd, hprog, hreturned, haccepted⟩ := exists_reachable_later (S := timedMoves)
    (c := .start annaWorld fun t => (loggedOutCalls 599999 600000 t).run expiringCrypto t) (t := 2)
    (P := fun c d => c.outcome 1 = some (.ok none) ∧ d.outcome 2 = some (.ok (some ⟨"1", .buyer, "a1", "f", some 600⟩)))
    logoutSchedule (goes 2 1) logoutSchedule_others (by decide)
  exact ⟨c, d, hc, hreturned, hprog, hd.of_restrict, _, haccepted⟩

theorem logged_out_token_rejected_early : ∃ c : AccessConfig ℕ, c.outcome 1 = some (.ok none) ∧
    ∀ d, (AuthMachine ℕ).Reachable c d → ∀ payload, d.outcome 2 ≠ some (.ok payload) := by
  obtain ⟨c, -, hc, -, hprog, hreturned⟩ := exists_reachable_later (S := timedMoves)
    (c := .start annaWorld fun t => (loggedOutCalls 10000 20000 t).run expiringCrypto t) (t := 2)
    (P := fun c _ => c.outcome 1 = some (.ok none)) logoutSchedule [] logoutSchedule_others (by decide)
  exact ⟨c, hreturned, (logged_out_token_rejected expiringCrypto_tokens annaWorld_noTokens.quiescent hc (t := 1) rfl
    hreturned rfl hprog (show (_ : Option ℕ) = some 600 from rfl) (by decide)).mpr (.inr (by decide))⟩

end Runs

end Marketplace
