import Marketplace.Password
import Marketplace.Schema

namespace Marketplace

open Concurrent ReadCommitted

structure LoginInput where
  email : String
  password : String
  deriving DecidableEq, Repr

structure AuthResponse where
  accessToken : String
  refreshToken : String
  deriving DecidableEq, Repr

structure AccessTokenPayload where
  sub : String
  role : UserRole
  jti : String
  familyId : String
  exp : Option ℕ
  deriving DecidableEq, Repr

-- what `jsonwebtoken` reads from a token whose signature is right
structure JwtPayload where
  sub : Option String
  role : Option String
  jti : Option String
  familyId : Option String
  exp : Option ℕ
  deriving DecidableEq, Repr

/-- node's cryptography and `jsonwebtoken`, under the configured keys. -/
structure AuthCrypto where
  scrypt : String → String → ℕ → List ℕ
  hmacSha256 : String → String → String
  refreshTokenPepper : String
  sign : AccessTokenPayload → String
  -- at a time in seconds
  verify : ℕ → String → Option JwtPayload

def accessTokenTtlSeconds : ℕ := 10 * 60

def refreshTokenTtlSeconds : ℕ := 30 * 24 * 60 * 60

def AuthCrypto.hashRefreshToken (crypto : AuthCrypto) (refreshToken : String) : String :=
  crypto.hmacSha256 crypto.refreshTokenPepper refreshToken

def userRole : String → Option UserRole
  | "buyer" => some .buyer
  | "seller" => some .seller
  | "admin" => some .admin
  | _ => none

def AuthCrypto.verifyAccessToken (crypto : AuthCrypto) (now : ℕ) (token : String) : Option AccessTokenPayload :=
  match crypto.verify now token with
  | some ⟨some sub, some role, some jti, some familyId, exp⟩ =>
    if sub = "" || jti = "" then none
    else (userRole role).map fun role => ⟨sub, role, jti, familyId, exp⟩
  | _ => none

inductive AuthOp
  | clock
  | randomUUID
  | createRefreshToken

abbrev AuthOp.Res : AuthOp → Type
  | .clock => ℕ
  | _ => String

structure Drawn (T : Type) where
  drawnBy : T
  uuid : String
  deriving DecidableEq, Repr

structure Randomness (T : Type) where
  uuids : List (Drawn T)
  tokens : List String
  deriving DecidableEq, Repr

variable {T : Type}

/-- Neither `randomUUID` nor `createRefreshToken` returns a value twice. -/
inductive AuthPerforms (t : T) : (o : AuthOp) → Randomness T → Except Failure o.Res → Randomness T → Prop
  | clock {s} (now : ℕ) : AuthPerforms t .clock s (.ok now) s
  | randomUUID {s} (uuid : String) (h : ∀ drawn ∈ s.uuids, drawn.uuid ≠ uuid) :
      AuthPerforms t .randomUUID s (.ok uuid) { s with uuids := ⟨t, uuid⟩ :: s.uuids }
  | createRefreshToken {s} (token : String) (h : token ∉ s.tokens) :
      AuthPerforms t .createRefreshToken s (.ok token) { s with tokens := token :: s.tokens }

def authentication : Machine T (Randomness T) AuthOp AuthOp.Res Failure where
  perform := AuthPerforms
  crash _ s s' := s' = s
  frame _ s s' := ∀ drawn ∈ s.uuids, drawn ∈ s'.uuids
  frame_refl _ _ _ h := h
  frame_trans h h' drawn hmem := h' drawn (h drawn hmem)
  perform_frame _ h := by
    cases h with
    | clock now => exact fun _ h => h
    | randomUUID uuid _ => exact fun _ h => List.mem_cons_of_mem _ h
    | createRefreshToken token _ => exact fun _ h => h
  crash_frame _ h := by
    subst h
    exact fun _ h => h

inductive AuthMove
  | time (now : ℕ)
  | draw (value : String)
  deriving DecidableEq, Repr

@[reducible] def authMoves : Moves (authentication (T := T)) where
  Move := AuthMove
  play t
    | .clock, .time now, s => some (.ok now, s)
    | .randomUUID, .draw uuid, s =>
      if ∀ drawn ∈ s.uuids, drawn.uuid ≠ uuid then some (.ok uuid, { s with uuids := ⟨t, uuid⟩ :: s.uuids })
      else none
    | .createRefreshToken, .draw token, s =>
      if token ∉ s.tokens then some (.ok token, { s with tokens := token :: s.tokens }) else none
    | _, _, _ => none
  die _ s := some s
  play_sound := by
    intro t o m s r s' h
    cases o <;> cases m <;> simp only at h
    · cases h
      exact .clock _
    · cases h
    · cases h
    · split_ifs at h with hfresh
      cases h
      exact .randomUUID _ hfresh
    · cases h
    · split_ifs at h with hfresh
      cases h
      exact .createRefreshToken _ hfresh
  die_sound h := (Option.some.inj h).symm

abbrev AuthWorld (T : Type) := World T Serial Key (Row T) (Randomness T)

abbrev AuthAction (T : Type) := Action Serial Key (Row T) AuthOp

abbrev AuthCall (T α : Type) := Client Serial Key (Row T) AuthOp.Res Failure α

abbrev AuthMachine (T : Type) [DecidableEq T] :
    Machine T (AuthWorld T) (AuthAction T) (Action.Res AuthOp.Res) Failure :=
  withDatabase authentication .database

abbrev AuthConfig (T α : Type) := Config T (AuthWorld T) (AuthAction T) (Action.Res AuthOp.Res) Failure α

def drawing (o : AuthOp) : AuthCall T o.Res := Prog.perform (Action.ext o)

def readClock : AuthCall T ℕ := drawing .clock

def randomUUID : AuthCall T String := drawing .randomUUID

def createRefreshToken : AuthCall T String := drawing .createRefreshToken

def signAccessToken (crypto : AuthCrypto) (userId : ℕ) (role : UserRole) (familyId : String) : AuthCall T String := do
  let jti ← randomUUID
  let now ← readClock
  pure (crypto.sign ⟨Nat.repr userId, role, jti, familyId, some (now / 1000 + accessTokenTtlSeconds)⟩)

def insertRefreshToken (row : RefreshTokenRow T) : AuthCall T Unit := do
  let id ← insertReturningId .refreshTokens .refreshToken fun _ => row
  insertUnique (.tokenHash row.tokenHash) id

def issueTokenPair (crypto : AuthCrypto) (userId : ℕ) (role : UserRole) (familyId : String) :
    AuthCall T AuthResponse := do
  let refreshToken ← createRefreshToken
  let access ← signAccessToken crypto userId role familyId
  let now ← readClock
  autocommit (insertRefreshToken
    { tokenHash := crypto.hashRefreshToken refreshToken
      familyId := familyId
      userId := userId
      usedAt := none
      revokedAt := none
      expiresAt := now + refreshTokenTtlSeconds * 1000
      usedBy := none
      revokedBy := [] })
  pure ⟨access, refreshToken⟩

def View.userByEmail (view : View T) (email : String) : Option (ℕ × UserRow) :=
  (List.range (view.seq .users)).findSome? fun id =>
    ((view.row (.user id)).filter fun row => row.email = email).map fun row => (id, row)

def invalidCredentials : Failure := .unauthorized "Invalid credentials"

def login (crypto : AuthCrypto) (input : LoginInput) : AuthCall T AuthResponse := do
  let view ← statement
  match View.userByEmail view input.email with
  | none => throw invalidCredentials
  | some (userId, user) =>
    match user.passwordHash with
    | none => throw invalidCredentials
    | some passwordHash =>
      if passwordHash = "" then throw invalidCredentials
      else if verifyPassword crypto.scrypt input.password passwordHash then do
        let familyId ← randomUUID
        issueTokenPair crypto userId user.role familyId
      else throw invalidCredentials

-- the row of `refresh_tokens` with this hash, by the unique index
def View.tokenByHash (view : View T) (tokenHash : String) : Option (ℕ × RefreshTokenRow T) :=
  (view.row (.tokenHash tokenHash)).bind fun id => (view.row (.refreshToken id)).map fun row => (id, row)

/-- `SELECT .. FROM refresh_tokens rt JOIN users u .. WHERE rt.token_hash = $1 FOR UPDATE`. It locks the
token's row, then the user's, and answers with their latest versions. -/
def selectTokenAndUser (tokenHash : String) : AuthCall T (Option (ℕ × RefreshTokenRow T × UserRow)) := do
  let view ← statement
  match View.tokenByHash view tokenHash with
  | none => pure none
  | some (id, seen) =>
    match view.row (.user seen.userId) with
    | none => pure none
    | some _ =>
      let current ← lock (Key.refreshToken id)
      let user ← lock (Key.user seen.userId)
      match current, user with
      | some current, some user =>
        if current.tokenHash = tokenHash ∧ current.userId = seen.userId then pure (some (id, current, user))
        else pure none
      | _, _ => pure none

-- the same without the join: only the token's row is locked
def selectToken (tokenHash : String) : AuthCall T (Option (ℕ × RefreshTokenRow T)) := do
  let view ← statement
  match View.tokenByHash view tokenHash with
  | none => pure none
  | some (id, _) =>
    match ← lock (Key.refreshToken id) with
    | none => pure none
    | some current => if current.tokenHash = tokenHash then pure (some (id, current)) else pure none

def RefreshTokenRow.revoke (self : T) (now : ℕ) (row : RefreshTokenRow T) : RefreshTokenRow T :=
  { row with revokedAt := some (row.revokedAt.getD now), revokedBy := self :: row.revokedBy }

def RefreshTokenRow.use (self : T) (now : ℕ) (row : RefreshTokenRow T) : RefreshTokenRow T :=
  { row with usedAt := some now, usedBy := some self }

def revokeRows (self : T) (familyId : String) (now : ℕ) : List ℕ → AuthCall T Unit
  | [] => pure ()
  | id :: ids => do
    match ← lock (Key.refreshToken id) with
    | none => revokeRows self familyId now ids
    | some latest =>
      if latest.familyId = familyId then do
        put (Key.refreshToken id) (latest.revoke self now)
        revokeRows self familyId now ids
      else revokeRows self familyId now ids

def View.family (view : View T) (familyId : String) : List ℕ :=
  (List.range (view.seq .refreshTokens)).filter fun id =>
    (view.row (.refreshToken id)).any fun row => row.familyId = familyId

/-- `UPDATE refresh_tokens SET revoked_at = COALESCE(revoked_at, now()) WHERE family_id = $1`: the rows of
the family in the snapshot are locked and updated one after the other. -/
def revokeFamily (self : T) (familyId : String) : AuthCall T Unit := do
  let now ← readClock
  let view ← statement
  revokeRows self familyId now (View.family view familyId)

def refresh (crypto : AuthCrypto) (self : T) (refreshToken : String) : AuthCall T AuthResponse := do
  let tokenHash := crypto.hashRefreshToken refreshToken
  begin
  let response ← tryCatch (do
    match ← selectTokenAndUser tokenHash with
    | none => throw (.unauthorized "Invalid refresh token")
    | some (id, current, user) =>
      let now ← readClock
      if current.revokedAt.isSome || current.expiresAt ≤ now then
        throw (.unauthorized "Refresh token is not active")
      else if current.usedAt.isSome then
        revokeFamily self current.familyId
        commit
        -- thrown below: after COMMIT no transaction is active and the catch rolls nothing back
        pure none
      else
        let usedAt ← readClock
        let _ ← update (Key.refreshToken id) (fun _ => true) (RefreshTokenRow.use self usedAt)
        let newRefreshToken ← createRefreshToken
        let access ← signAccessToken crypto current.userId user.role current.familyId
        let issuedAt ← readClock
        insertRefreshToken
          { tokenHash := crypto.hashRefreshToken newRefreshToken
            familyId := current.familyId
            userId := current.userId
            usedAt := none
            revokedAt := none
            expiresAt := issuedAt + refreshTokenTtlSeconds * 1000
            usedBy := none
            revokedBy := [] }
        commit
        pure (some ⟨access, newRefreshToken⟩))
    (fun error => do
      rollback
      throw error)
  match response with
  | none => throw (.unauthorized "Refresh token reuse detected")
  | some response => pure response

-- `Number(text)` of a string of digits
def decimal (text : String) : Option ℕ :=
  text.toList.foldl (fun value c => value.bind fun n =>
    if c.isDigit then some (10 * n + (c.toNat - '0'.toNat)) else none) (some 0)

def logout (crypto : AuthCrypto) (self : T) (accessToken refreshToken : String) : AuthCall T Unit := do
  let verifiedAt ← readClock
  match crypto.verifyAccessToken (verifiedAt / 1000) accessToken with
  | none => throw (.unauthorized "Invalid access token")
  | some payload =>
    let refreshHash := crypto.hashRefreshToken refreshToken
    begin
    tryCatch (do
      match ← selectToken refreshHash with
      | none => throw (.unauthorized "Invalid refresh token")
      | some (_, current) =>
        -- `sub` holds the digits that `signAccessToken` wrote
        if current.familyId ≠ payload.familyId ∨ some current.userId ≠ decimal payload.sub then
          throw (.unauthorized "Token pair mismatch")
        else
          revokeFamily self current.familyId
          let expiresAt := payload.exp.getD 0 * 1000
          let now ← readClock
          if now < expiresAt then
            insertOrUpdate .database Row.valid (Key.accessTokenDenylist payload.jti) ⟨expiresAt⟩ fun _ => ⟨expiresAt⟩
          else pure ()
          commit)
      (fun error => do
        rollback
        throw error)

end Marketplace
