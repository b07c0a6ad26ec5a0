import Marketplace.Denylist
import Marketplace.ProductsApi
import Marketplace.TokenReplay

namespace Marketplace

open Concurrent ReadCommitted

variable {T : Type}

section Code

-- `false` is a 403 as well
def RolesGuard.canActivate (requiredRoles : List UserRole) (user : Option AccessTokenPayload) : Except String Bool :=
  if requiredRoles = [] then pure true
  else
    match user with
    | none => pure false
    | some user => if user.role ∈ requiredRoles then pure true else throw "Insufficient permissions"

def productRoles : List UserRole := [.seller, .admin]

inductive RouteFailure
  | forbidden (message : String)
  | product (failure : ProductFailure)
  deriving DecidableEq, Repr

/-- `POST /products` with its guards. The INSERT draws `id`, and `users` tells who is there. -/
def postProducts (crypto : AuthCrypto) (users : ℤ → Bool) (id : ℕ) (authorization : Option String)
    (body : CreateProductRequest) : AuthCall T (Except RouteFailure ProductResponse) := do
  let now ← readClock
  let user ← AuthGuard.canActivate crypto now authorization
  match RolesGuard.canActivate productRoles (some user) with
  | .error message => pure (.error (.forbidden message))
  | .ok false => pure (.error (.forbidden "Forbidden resource"))
  | .ok true => pure ((createProduct users id (some user) body).mapError .product)

inductive ProductCall
  | token (call : TokenCall)
  | postProducts (authorization : Option String) (body : CreateProductRequest)

inductive ProductAnswer
  | tokens (response : Option AuthResponse)
  | product (answer : Except RouteFailure ProductResponse)
  deriving DecidableEq, Repr

def ProductCall.run (crypto : AuthCrypto) (users : ℤ → Bool) (id : T → ℕ) (self : T) :
    ProductCall → AuthCall T ProductAnswer
  | .token call => do
    let response ← call.run crypto self
    pure (.tokens response)
  | .postProducts authorization body => do
    let answer ← Marketplace.postProducts crypto users (id self) authorization body
    pure (.product answer)

end Code

variable {initial : Tables T} {crypto : AuthCrypto} {calls : T → ProductCall}

def Authenticated (initial : Tables T) (crypto : AuthCrypto) (calls : T → ProductCall) (userId : ℕ) : Prop :=
  ∃ user hash t input, initial (.user userId) = some user ∧ calls t = .token (.login input) ∧
    user.email = input.email ∧ user.passwordHash = some hash ∧ verifyPassword crypto.scrypt input.password hash = true

/-- No user is ever changed, and every refresh token is of an authenticated user. -/
def AuthenticatedRows (initial : Tables T) (crypto : AuthCrypto) (calls : T → ProductCall) : (k : Key) → Row T k → Prop
  | .user id, row => initial (.user id) = some row
  | .refreshToken _, row => Authenticated initial crypto calls (RefreshTokenRow.userId row)
  | _, _ => True

def TokenOf (initial : Tables T) (crypto : AuthCrypto) (calls : T → ProductCall) (accessToken : String) : Prop :=
  ∃ userId user jti familyId exp, initial (.user userId) = some user ∧ Authenticated initial crypto calls userId ∧
    accessToken = crypto.sign ⟨Nat.repr userId, user.role, jti, familyId, exp⟩

section Sound

variable {self : T}

theorem drawing_authenticated (o : AuthOp) :
    SoundClient (AuthenticatedRows initial crypto calls) (fun _ => True) (drawing o : AuthCall T o.Res) :=
  .of_onlyWrites (.perform trivial)

theorem signAccessToken_authenticated {userId : ℕ} {user : UserRow} {familyId : String}
    (huser : initial (.user userId) = some user) (h : Authenticated initial crypto calls userId) :
    SoundClient (AuthenticatedRows initial crypto calls) (TokenOf initial crypto calls)
      (signAccessToken crypto userId user.role familyId : AuthCall T String) :=
  .bind (drawing_authenticated _) fun _ _ => .bind (drawing_authenticated _) fun _ _ =>
    ⟨userId, user, _, familyId, _, huser, h, rfl⟩

theorem insertRefreshToken_authenticated {row : RefreshTokenRow T} (h : Authenticated initial crypto calls row.userId) :
    SoundClient (AuthenticatedRows initial crypto calls) (fun _ => True) (insertRefreshToken row) := by
  refine .bind (.of_onlyWrites (onlyWrites_insertWithId fun _ => h)) fun id _ => ?_
  exact .of_onlyWrites (onlyWrites_insertOrFail trivial)

theorem login_authenticated {t : T} {input : LoginInput} (ht : calls t = .token (.login input)) :
    SoundClient (AuthenticatedRows initial crypto calls)
      (fun response => TokenOf initial crypto calls response.accessToken)
      (login crypto input : AuthCall T AuthResponse) := by
  refine .bind .statement fun view hview => ?_
  split
  · trivial
  · rename_i userId user huser
    obtain ⟨hrow, hemail⟩ : initial (.user userId) = some user ∧ user.email = input.email := by
      obtain ⟨id, -, hid⟩ := List.exists_of_findSome?_eq_some huser
      simp only [Option.map_eq_some_iff, Option.filter_eq_some_iff, Prod.mk.injEq, decide_eq_true_eq] at hid
      obtain ⟨row, ⟨hrow, hemail⟩, rfl, rfl⟩ := hid
      exact ⟨hview (.user id) row hrow, hemail⟩
    split
    · trivial
    · rename_i hash hhash
      split
      · trivial
      · split
        · rename_i hpassword
          have h : Authenticated initial crypto calls userId :=
            ⟨user, hash, t, input, hrow, ht, hemail, hhash, hpassword⟩
          refine .bind (drawing_authenticated _) fun familyId _ => .bind (drawing_authenticated _) fun token _ => ?_
          refine .bind (signAccessToken_authenticated hrow h) fun access haccess => ?_
          refine .bind (drawing_authenticated _) fun now _ => ?_
          exact .bind (.autocommit (insertRefreshToken_authenticated h)) fun _ _ => haccess
        · trivial

theorem selectTokenAndUser_authenticated {tokenHash : String} :
    SoundClient (AuthenticatedRows initial crypto calls)
      (fun r => ∀ id row user, r = some (id, row, user) → initial (.user (RefreshTokenRow.userId row)) = some user ∧
      Authenticated initial crypto calls (RefreshTokenRow.userId row))
      (selectTokenAndUser tokenHash : AuthCall T _) := by
  refine .bind .statement fun view _ => ?_
  split
  · exact nofun
  · split
    · exact nofun
    · refine .bind (.lock _) fun current hcurrent => .bind (.lock _) fun user huser => ?_
      cases current with
      | none => exact nofun
      | some row =>
        cases user with
        | none => exact nofun
        | some user =>
          dsimp only
          split
          · rename_i hsame
            rintro _ _ _ ⟨⟩
            exact ⟨hsame.2 ▸ huser user rfl, hcurrent row rfl⟩
          · exact nofun

theorem revokeRows_authenticated {familyId : String} {now : ℕ} (ids : List ℕ) :
    SoundClient (AuthenticatedRows initial crypto calls) (fun _ => True) (revokeRows self familyId now ids) := by
  induction ids with
  | nil => trivial
  | cons id ids ih =>
    refine .bind (.lock _) fun latest hlatest => ?_
    split
    · exact ih
    · rename_i row
      split
      · exact .bind (.of_onlyWrites (onlyWrites_put (hlatest row rfl))) fun _ _ => ih
      · exact ih

theorem revokeFamily_authenticated {familyId : String} :
    SoundClient (AuthenticatedRows initial crypto calls) (fun _ => True) (revokeFamily self familyId) :=
  .bind (drawing_authenticated _) fun _ _ => .bind .statement fun _ _ => revokeRows_authenticated _

theorem abandon_authenticated {α : Type} {Z : α → Prop} (error : Failure) :
    SoundClient (AuthenticatedRows initial crypto calls) Z (do
      rollback
      throw error : AuthCall T α) := .bind (.of_onlyWrites onlyWrites_rollback) fun _ _ => trivial

theorem refresh_authenticated {refreshToken : String} :
    SoundClient (AuthenticatedRows initial crypto calls)
      (fun response => TokenOf initial crypto calls response.accessToken)
      (refresh crypto self refreshToken) := by
  refine .bind (.of_onlyWrites onlyWrites_begin) fun _ _ => .bind
    (Z := fun issued => ∀ response, issued = some response → TokenOf initial crypto calls response.accessToken)
    (.handle (.bind selectTokenAndUser_authenticated ?_) abandon_authenticated) ?_
  · intro r hr
    split
    · trivial
    · rename_i id current user
      obtain ⟨huser, h⟩ := hr id current user rfl
      refine .bind (drawing_authenticated _) fun now _ => ?_
      split
      · trivial
      · split
        · exact .bind revokeFamily_authenticated fun _ _ => .bind (.of_onlyWrites onlyWrites_commit) fun _ _ => nofun
        · refine .bind (drawing_authenticated _) fun usedAt _ => .bind (.updateWhere fun _ h => h) fun _ _ => ?_
          refine .bind (drawing_authenticated _) fun token _ => ?_
          refine .bind (signAccessToken_authenticated huser h) fun access haccess => ?_
          refine .bind (drawing_authenticated _) fun issuedAt _ => ?_
          refine .bind (insertRefreshToken_authenticated h) fun _ _ => ?_
          refine .bind (.of_onlyWrites onlyWrites_commit) fun _ _ => ?_
          rintro _ ⟨⟩
          exact haccess
  · intro issued hissued
    split
    · trivial
    · exact hissued _ rfl

theorem selectToken_onlyWrites {W : (k : Key) → Row T k → Prop} (tokenHash : String) :
    OnlyWrites W (selectToken tokenHash : AuthCall T _) := by
  refine .bind onlyWrites_statement fun view => ?_
  split
  · trivial
  · refine .bind (.perform nofun) fun current => ?_
    split
    · trivial
    · split <;> trivial

theorem logout_authenticated {accessToken refreshToken : String} :
    SoundClient (AuthenticatedRows initial crypto calls) (fun _ => True)
      (logout crypto self accessToken refreshToken) := by
  refine .bind (drawing_authenticated _) fun verifiedAt _ => ?_
  split
  · trivial
  · refine .bind (.of_onlyWrites onlyWrites_begin) fun _ _ => .handle ?_ abandon_authenticated
    refine .bind (.of_onlyWrites (selectToken_onlyWrites _)) fun r _ => ?_
    split
    · trivial
    · split
      · trivial
      · refine .bind revokeFamily_authenticated fun _ _ => .bind (drawing_authenticated _) fun now _ => ?_
        dsimp only
        split
        · exact .bind (.insertOrUpdate trivial fun _ _ => trivial) fun _ _ => .of_onlyWrites onlyWrites_commit
        · exact .of_onlyWrites onlyWrites_commit

theorem tokenCall_authenticated {t : T} {call : TokenCall} (ht : calls t = .token call) :
    SoundClient (AuthenticatedRows initial crypto calls)
      (fun answer => ∀ response, answer = some response → TokenOf initial crypto calls response.accessToken)
      (call.run crypto self) := by
  cases call with
  | login input =>
    refine .bind (login_authenticated ht) fun response hresponse => ?_
    rintro _ ⟨⟩
    exact hresponse
  | refresh refreshToken =>
    refine .bind refresh_authenticated fun response hresponse => ?_
    rintro _ ⟨⟩
    exact hresponse
  | logout accessToken refreshToken => exact .bind logout_authenticated fun _ _ => nofun

def CreatedBy (crypto : AuthCrypto) (response : ProductResponse) (authorization : Option String) : Prop :=
  ∃ token now payload, bearerToken authorization = some token ∧ crypto.verifyAccessToken now token = some payload ∧
    payload.role ∈ productRoles ∧ response.ownerId = some (jsNumber payload.sub)

omit T in
theorem createProduct_ownerId {users : ℤ → Bool} {id : ℕ} {user : AccessTokenPayload} {body : CreateProductRequest}
    {response : ProductResponse} (h : createProduct users id (some user) body = .ok response) :
    response.ownerId = some (jsNumber user.sub) := by
  unfold createProduct at h
  cases hvalues : productValues (some user) body with
  | error failure =>
    rw [hvalues] at h
    cases h
  | ok values =>
    rw [hvalues] at h
    obtain ⟨name, price, stock, hchecked⟩ := productValues_checked hvalues
    cases hinsert : insertProduct users values with
    | error rule =>
      simp only [bind, Except.bind, hinsert] at h
      cases h
    | ok row =>
      simp only [bind, Except.bind, hinsert] at h
      cases h
      obtain ⟨rfl, -⟩ := insertProduct_eq_ok_iff.mp hinsert
      simp only [hchecked.values_eq]

theorem postProducts_authenticated {users : ℤ → Bool} {id : ℕ} {authorization : Option String}
    {body : CreateProductRequest} : SoundClient (AuthenticatedRows initial crypto calls)
      (fun answer => ∀ response, answer = .ok response → CreatedBy crypto response authorization)
      (postProducts crypto users id authorization body : AuthCall T _) := by
  refine .bind (drawing_authenticated _) fun now _ => .bind (Z := fun user =>
    ∃ token, bearerToken authorization = some token ∧ crypto.verifyAccessToken (now / 1000) token = some user)
    ?_ fun user huser => ?_
  · unfold AuthGuard.canActivate AuthGuard.canActivateAt
    split
    · trivial
    · rename_i token htoken
      split
      · trivial
      · rename_i payload hpayload
        refine .bind (Z := fun _ => True) (.bind .statement fun _ _ => trivial) fun denied _ => ?_
        split
        · trivial
        · exact ⟨token, htoken, hpayload⟩
  · obtain ⟨token, htoken, hpayload⟩ := huser
    by_cases hrole : user.role ∈ productRoles
    · have hguard : RolesGuard.canActivate productRoles (some user) = .ok true := by
        simp only [RolesGuard.canActivate, hrole, if_true]
        rfl
      simp only [hguard]
      intro response hresponse
      cases hcreate : createProduct users id (some user) body with
      | error failure =>
        rw [hcreate] at hresponse
        cases hresponse
      | ok created =>
        rw [hcreate] at hresponse
        cases hresponse
        exact ⟨token, now / 1000, user, htoken, hpayload, hrole, createProduct_ownerId hcreate⟩
    · have hguard : RolesGuard.canActivate productRoles (some user) = .error "Insufficient permissions" := by
        simp only [RolesGuard.canActivate, hrole, if_false]
        rfl
      simp only [hguard]
      intro response hresponse
      cases hresponse

end Sound

def ProductAnswer.Authentic (initial : Tables T) (crypto : AuthCrypto) (calls : T → ProductCall) : ProductAnswer → Prop
  | .tokens response => ∀ issued, response = some issued → TokenOf initial crypto calls issued.accessToken
  | .product answer => ∀ response, answer = .ok response →
    ∃ t authorization body, calls t = .postProducts authorization body ∧ CreatedBy crypto response authorization

theorem productCall_authenticated {users : ℤ → Bool} {id : T → ℕ} (t : T) :
    SoundClient (AuthenticatedRows initial crypto calls) (ProductAnswer.Authentic initial crypto calls)
      ((calls t).run crypto users id t) := by
  cases ht : calls t with
  | token call =>
    exact .bind (tokenCall_authenticated ht) fun response hresponse => hresponse
  | postProducts authorization body =>
    refine .bind postProducts_authenticated fun answer hanswer => ?_
    exact fun response hresponse => ⟨t, authorization, body, ht, hanswer response hresponse⟩

def UserRole.text : UserRole → String
  | .buyer => "buyer"
  | .seller => "seller"
  | .admin => "admin"

def AuthCrypto.ReadsSigned (crypto : AuthCrypto) : Prop :=
  ∀ now payload p, crypto.verify now (crypto.sign payload) = some p →
    p = ⟨some payload.sub, some payload.role.text, some payload.jti, some payload.familyId, payload.exp⟩

theorem verifyAccessToken_signed (h : crypto.ReadsSigned) {now : ℕ} {payload payload' : AccessTokenPayload}
    (hverify : crypto.verifyAccessToken now (crypto.sign payload) = some payload') : payload' = payload := by
  obtain ⟨sub, role, jti, familyId, exp⟩ := payload
  unfold AuthCrypto.verifyAccessToken at hverify
  split at hverify
  · rename_i hp
    cases h now _ _ hp
    split_ifs at hverify
    have hrole : userRole role.text = some role := by cases role <;> rfl
    simp only [hrole, Option.map_some, Option.some.injEq] at hverify
    exact hverify.symm
  · cases hverify

variable [DecidableEq T]

/-- A token that admits to `POST /products` is one that a call of the run has returned. -/
def Unforged (crypto : AuthCrypto) (calls : T → ProductCall) (c : AuthConfig T ProductAnswer) : Prop :=
  ∀ t authorization body token now payload, calls t = .postProducts authorization body →
    bearerToken authorization = some token → crypto.verifyAccessToken now token = some payload →
      ∃ t' response, c.outcome t' = some (.ok (.tokens (some response))) ∧ response.accessToken = token

section Results

variable {w : AuthWorld T} (hw : NoTokens w) {users : ℤ → Bool} {id : T → ℕ} {c : AuthConfig T ProductAnswer}
  (h : (AuthMachine T).Reachable (.start w fun t => (calls t).run crypto users id t) c)

include hw h

theorem answers_authentic :
    Sound (AuthenticatedRows w.db.committed crypto calls) c.shared.db ∧
      ∀ t answer, c.outcome t = some (.ok answer) → answer.Authentic w.db.committed crypto calls := by
  have hsound : Sound (AuthenticatedRows w.db.committed crypto calls) w.db := by
    refine ⟨fun k r hk => ?_, fun k t r hk => ?_⟩
    · cases k with
      | user id => exact hk
      | refreshToken id =>
        rw [hw.rows] at hk
        cases hk
      | _ => trivial
    · rw [hw.quiescent.held k] at hk
      cases hk
  have hcalls : ∀ t, SoundClient (AuthenticatedRows w.db.committed crypto calls)
      (ProductAnswer.Authentic w.db.committed crypto calls) ((calls t).run crypto users id t) :=
    productCall_authenticated
  obtain ⟨hrows, hprogs⟩ := sound_run hsound hcalls h
  refine ⟨hrows, fun t answer hr => ?_⟩
  exact hprogs t _ (Config.outcome_eq_some.mp hr)

/-- Products are created by sellers and admins only, whose password has been checked, and belong to them. -/
theorem products_created_by_authenticated (hsigned : crypto.ReadsSigned) (hunforged : Unforged crypto calls c) {t : T}
    {response : ProductResponse} (hr : c.outcome t = some (.ok (.product (.ok response)))) :
    ∃ userId user, Authenticated w.db.committed crypto calls userId ∧
      c.shared.db.committed (.user userId) = some user ∧ user.role ∈ productRoles ∧
      response.ownerId = some (.integer userId) := by
  obtain ⟨hrows, hanswers⟩ := answers_authentic hw h
  obtain ⟨t, authorization, body, ht, token, now, payload, htoken, hverify, hrole, howner⟩ :=
    hanswers t _ hr response rfl
  obtain ⟨t', issued, hissued, rfl⟩ := hunforged t authorization body token now payload ht htoken hverify
  obtain ⟨userId, user, jti, familyId, exp, huser, hauthenticated, hsign⟩ := hanswers t' _ hissued issued rfl
  rw [hsign] at hverify
  have hpayload := verifyAccessToken_signed hsigned hverify
  subst hpayload
  -- the user is still there, unchanged
  have hpresent : (c.shared.db.committed (.user userId)).isSome :=
    present_run h (by rw [show (Config.start w _).shared = w from rfl, huser]; rfl)
  obtain ⟨user', huser'⟩ := Option.isSome_iff_exists.mp hpresent
  cases huser.symm.trans (hrows.committed _ user' huser')
  exact ⟨userId, user, hauthenticated, huser', hrole, by rw [howner, jsNumber_repr]⟩

end Results

def sellerClaims : AccessTokenPayload := ⟨"1", .seller, "a1", "f", some 600⟩

-- signs one token and accepts no other
def sellerCrypto : AuthCrypto :=
  { plainCrypto with
    sign := fun payload => if payload = sellerClaims then "seller" else ""
    verify := fun _ token =>
      if token = "seller" then some ⟨some "1", some "seller", some "a1", some "f", some 600⟩ else none }

theorem sellerCrypto_readsSigned : sellerCrypto.ReadsSigned := by
  intro now payload p h
  by_cases hpayload : payload = sellerClaims
  · subst hpayload
    exact (Option.some.inj h).symm
  · simp [sellerCrypto, hpayload] at h

def sellerTables : Tables T
  | .user 1 => some ⟨"anna@example.com", some "scrypt$salt$00", .seller, 0⟩
  | _ => none

def sellerWorld : AuthWorld T := ⟨{ annaWorld.db with committed := sellerTables }, ⟨[], []⟩⟩

def lamp : CreateProductRequest := ⟨some "Lamp", some "A lamp", .integer 1000, some (.integer 3)⟩

def sellerCalls : Bool → ProductCall
  | false => .token annaLogin
  | true => .postProducts (some ("Bearer " ++ "seller")) lamp

def sellerRun : AuthSchedule Bool := loginMoves false ++ times true 1 1 ++ goes true 1

theorem products_created_by_authenticated_seller :
    ∃ c : AuthConfig Bool ProductAnswer, (AuthMachine Bool).Reachable
      (.start sellerWorld fun t => (sellerCalls t).run sellerCrypto (· = 1) (fun _ => 1) t) c ∧
      ∃ (userId : ℕ) (user : UserRow), Authenticated sellerTables sellerCrypto sellerCalls userId ∧
      c.shared.db.committed (.user userId) = some user ∧ user.role ∈ productRoles ∧
      some (JsNumber.integer 1) = some (.integer userId) := by
  have hrun : ∃ c : AuthConfig Bool ProductAnswer, (AuthMachine Bool).Reachable
      (.start sellerWorld fun t => (sellerCalls t).run sellerCrypto (· = 1) (fun _ => 1) t) c ∧
      c.outcome false = some (.ok (.tokens (some ⟨"seller", "r1"⟩))) ∧
      c.outcome true = some (.ok (.product (.ok
        ⟨⟨some (.integer 1), some "Lamp", some "A lamp", some (.integer 1000), some (.integer 3), some true⟩,
          1⟩))) := by
    apply exists_reachable (S := withDatabaseMoves authMoves .database) sellerRun
    decide
  obtain ⟨c, hc, hissued, hcreated⟩ := hrun
  have hunforged : Unforged sellerCrypto sellerCalls c := by
    intro t authorization body token now payload ht htoken _
    cases t with
    | false => cases ht
    | true =>
      cases ht
      rw [bearerToken_bearer] at htoken
      cases htoken
      exact ⟨false, _, hissued, rfl⟩
  have hw : NoTokens (sellerWorld (T := Bool)) :=
    ⟨⟨fun _ => rfl, fun _ => rfl⟩, fun _ => rfl, fun _ => rfl, rfl⟩
  exact ⟨c, hc, products_created_by_authenticated hw hc sellerCrypto_readsSigned hunforged hcreated⟩

end Marketplace
