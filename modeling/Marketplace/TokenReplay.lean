import Marketplace.ReadCommitted.Session
import Marketplace.ReadCommitted.SoundRows
import Marketplace.TokenRuns

/-!
What presenting a used refresh token does to its family.
-/

namespace Marketplace

open Concurrent ReadCommitted

variable {T : Type}

section Owners

variable {users : Tables T} {crypto : AuthCrypto} {self : T}

def HasUser (users : Tables T) : (k : Key) → Row T k → Prop
  | .refreshToken _, row => (users (.user (RefreshTokenRow.userId row))).isSome
  | .user id, _ => (users (.user id)).isSome
  | _, _ => True

theorem drawing_sound (o : AuthOp) : SoundClient (HasUser users) (fun _ => True) (drawing o : AuthCall T o.Res) :=
  .of_onlyWrites (.perform trivial)

theorem signAccessToken_sound {userId : ℕ} {role : UserRole} {familyId : String} :
    SoundClient (HasUser users) (fun _ => True) (signAccessToken crypto userId role familyId : AuthCall T String) :=
  .bind (drawing_sound _) fun _ _ => .bind (drawing_sound _) fun _ _ => trivial

theorem insertRefreshToken_sound {row : RefreshTokenRow T} (h : (users (.user row.userId)).isSome) :
    SoundClient (HasUser users) (fun _ => True) (insertRefreshToken row) := by
  refine .bind (.of_onlyWrites (onlyWrites_insertWithId fun _ => h)) fun id _ => ?_
  exact .of_onlyWrites (onlyWrites_insertOrFail trivial)

theorem login_sound {input : LoginInput} :
    SoundClient (HasUser users) (fun _ => True) (login crypto input : AuthCall T AuthResponse) := by
  refine .bind .statement fun view hview => ?_
  split
  · trivial
  · rename_i userId user huser
    have hpresent : (users (.user userId)).isSome := by
      obtain ⟨id, -, hid⟩ := List.exists_of_findSome?_eq_some huser
      simp only [Option.map_eq_some_iff, Option.filter_eq_some_iff, Prod.mk.injEq] at hid
      obtain ⟨row, ⟨hrow, -⟩, rfl, rfl⟩ := hid
      exact hview (.user id) row hrow
    split
    · trivial
    · split
      · trivial
      · split
        · refine .bind (drawing_sound _) fun familyId _ => .bind (drawing_sound _) fun token _ => ?_
          refine .bind signAccessToken_sound fun access _ => .bind (drawing_sound _) fun now _ => ?_
          exact .bind (.autocommit (insertRefreshToken_sound hpresent)) fun _ _ => trivial
        · trivial

theorem selectTokenAndUser_sound {tokenHash : String} : SoundClient (HasUser users)
    (fun r => ∀ id row user, r = some (id, row, user) → (users (.user (RefreshTokenRow.userId row))).isSome)
    (selectTokenAndUser tokenHash : AuthCall T _) := by
  refine .bind .statement fun view _ => ?_
  split
  · exact nofun
  · split
    · exact nofun
    · refine .bind (.lock _) fun current hcurrent => .bind (.lock _) fun user _ => ?_
      cases current with
      | none => exact nofun
      | some row =>
        cases user with
        | none => exact nofun
        | some user =>
          dsimp only
          split
          · rintro _ _ _ ⟨⟩
            exact hcurrent row rfl
          · exact nofun

theorem revokeRows_sound {familyId : String} {now : ℕ} (ids : List ℕ) :
    SoundClient (HasUser users) (fun _ => True) (revokeRows self familyId now ids) := by
  induction ids with
  | nil => trivial
  | cons id ids ih =>
    refine .bind (.lock _) fun latest hlatest => ?_
    split
    · exact ih
    · rename_i row
      split
      · exact .bind (.of_onlyWrites (onlyWrites_put (hlatest row rfl))) fun _ _ => ih
      · exact ih

theorem revokeFamily_sound {familyId : String} :
    SoundClient (HasUser users) (fun _ => True) (revokeFamily self familyId) :=
  .bind (drawing_sound _) fun _ _ => .bind .statement fun _ _ => revokeRows_sound _

theorem abandon_sound {α : Type} (error : Failure) : SoundClient (HasUser users) (fun _ => True) (do
    rollback
    throw error : AuthCall T α) := .bind (.of_onlyWrites onlyWrites_rollback) fun _ _ => trivial

theorem refresh_sound {refreshToken : String} :
    SoundClient (HasUser users) (fun _ => True) (refresh crypto self refreshToken) := by
  refine .bind (.of_onlyWrites onlyWrites_begin) fun _ _ => .bind
    (.handle (.bind selectTokenAndUser_sound ?_) abandon_sound) ?_
  · intro r hr
    split
    · trivial
    · rename_i id current user
      refine .bind (drawing_sound _) fun now _ => ?_
      split
      · trivial
      · split
        · exact .bind revokeFamily_sound fun _ _ => .bind (.of_onlyWrites onlyWrites_commit) fun _ _ => trivial
        · refine .bind (drawing_sound _) fun usedAt _ => .bind (.updateWhere fun _ h => h) fun _ _ => ?_
          refine .bind (drawing_sound _) fun token _ => .bind signAccessToken_sound fun access _ => ?_
          refine .bind (drawing_sound _) fun issuedAt _ => ?_
          refine .bind (insertRefreshToken_sound (hr id current user rfl)) fun _ _ => ?_
          exact .bind (.of_onlyWrites onlyWrites_commit) fun _ _ => trivial
  · intro response _
    split <;> trivial

theorem logout_sound {accessToken refreshToken : String} :
    SoundClient (HasUser users) (fun _ => True) (logout crypto self accessToken refreshToken) := by
  refine .bind (drawing_sound _) fun verifiedAt _ => ?_
  split
  · trivial
  · refine .bind (.of_onlyWrites onlyWrites_begin) fun _ _ => .handle ?_ abandon_sound
    refine .bind (Z := fun _ => True) ?_ fun r _ => ?_
    · refine .bind .statement fun view _ => ?_
      split
      · trivial
      · refine .bind (.lock _) fun current _ => ?_
        split
        · trivial
        · split <;> trivial
    · split
      · trivial
      · split
        · trivial
        · refine .bind revokeFamily_sound fun _ _ => .bind (drawing_sound _) fun now _ => ?_
          dsimp only
          split
          · exact .bind (.insertOrUpdate trivial fun _ _ => trivial) fun _ _ => .of_onlyWrites onlyWrites_commit
          · exact .of_onlyWrites onlyWrites_commit

theorem run_sound (call : TokenCall) : SoundClient (HasUser users) (fun _ => True) (call.run crypto self) := by
  cases call with
  | login input => exact .bind login_sound fun _ _ => trivial
  | refresh refreshToken => exact .bind refresh_sound fun _ _ => trivial
  | logout accessToken refreshToken => exact .bind logout_sound fun _ _ => trivial

end Owners

variable [DecidableEq T]

section Alone

variable {ext : (o : AuthOp) → Randomness T → Except Failure o.Res × Randomness T} {now : ℕ} {crypto : AuthCrypto}
    {t : T}
  {base current : Tables T} {seq : Serial → ℕ} {C : Failure → AuthWorld T → Prop}

theorem readClock_solo (hclock : ∀ s, ext .clock s = (.ok now, s)) {P : AuthWorld T → Prop} :
    Prog.Solo (stepAlone ext .database t) P readClock (fun n w => n = now ∧ P w) C := by
  refine .perform fun w hw => ?_
  simp only [stepAlone, hclock]
  exact ⟨rfl, hw⟩

theorem selectTokenAndUser_solo {tokenHash : String} {id : ℕ} {row : RefreshTokenRow T} {user : UserRow}
    (hindex : base (.tokenHash tokenHash) = some id) (hrow : base (.refreshToken id) = some row)
    (huser : base (.user row.userId) = some user) (hhash : row.tokenHash = tokenHash) :
    Prog.Solo (stepAlone ext .database t) (Session t base seq base) (selectTokenAndUser tokenHash)
      (fun r w => r = some (id, row, user) ∧ Session t base seq base w) C := by
  have hfound : View.tokenByHash (⟨base, seq⟩ : View T) tokenHash = some (id, row) := by
    simp [View.tokenByHash, hindex, hrow]
  refine .bind_eq statement_solo ?_
  simp only [hfound, huser]
  refine .bind_eq lock_solo (.bind_eq (lock_solo.pre fun w h => h.2) ?_)
  simp only [hrow, huser, hhash, and_self, if_true]
  exact .pure fun w h => ⟨rfl, h.2⟩

theorem revokeRows_solo {familyId : String} {ids : List ℕ} (hnodup : ids.Nodup)
    (hrows : ∀ id ∈ ids, ∃ row, current (.refreshToken id) = some row ∧ row.familyId = familyId) :
    Prog.Solo (stepAlone ext .database t) (Session t base seq current) (revokeRows t familyId now ids)
      (fun _ w => ∃ new, FamilyRevoked t familyId ids current new ∧ Session t base seq new w) C := by
  induction ids generalizing current with
  | nil => exact .pure fun w h => ⟨current, ⟨by simp, fun _ _ => rfl, fun _ => rfl⟩, h⟩
  | cons id ids ih =>
    obtain ⟨hid, hnodup⟩ := List.nodup_cons.mp hnodup
    obtain ⟨row, hrow, hfamily⟩ := hrows id List.mem_cons_self
    refine .bind_eq lock_solo ?_
    simp only [hrow, hfamily, if_true]
    have hput {w : AuthWorld T} (h :
      (some row ≠ none → Holds t (Key.refreshToken id) w) ∧ Session t base seq current w) :
        Holds t (Key.refreshToken id) w ∧ Session t base seq current w := ⟨h.1 (by simp), h.2⟩
    refine .bind (put_solo.pre fun w h => hput h) fun _ => ?_
    have hne {j : ℕ} (hj : j ≠ id) :
      Function.update current (.refreshToken id) (some (row.revoke t now)) (.refreshToken j) =
        current (.refreshToken j) := Function.update_of_ne (by simpa using hj) ..
    refine (ih hnodup fun j hj => ?_).conseq (fun _ h => h) ?_ fun _ _ h => h
    · obtain ⟨other, hother, hsame⟩ := hrows j (List.mem_cons_of_mem _ hj)
      refine ⟨other, (hne ?_).trans hother, hsame⟩
      rintro rfl
      exact hid hj
    · rintro _ w ⟨new, hrevoked, hw⟩
      refine ⟨new, ⟨fun j hj => ?_, fun j hj => ?_, fun hash => ?_⟩, hw⟩
      · rcases List.mem_cons.mp hj with rfl | hmem
        · refine ⟨row, now, hrow, hfamily, (hrevoked.others j hid).trans ?_⟩
          exact Function.update_self ..
        · obtain ⟨other, time, hother, hsame, hnew⟩ := hrevoked.rows j hmem
          refine ⟨other, time, (hne ?_).symm.trans hother, hsame, hnew⟩
          rintro rfl
          exact hid hmem
      · simp only [List.mem_cons, not_or] at hj
        exact (hrevoked.others j hj.2).trans (hne hj.1)
      · exact (hrevoked.hashes hash).trans (Function.update_of_ne (by simp) ..)

theorem revokeFamily_solo (hclock : ∀ s, ext .clock s = (.ok now, s)) {familyId : String} :
    Prog.Solo (stepAlone ext .database t) (Session t base seq current) (revokeFamily t familyId)
      (fun _ w => ∃ new, FamilyRevoked t familyId (View.family ⟨current, seq⟩ familyId) current new ∧
      Session t base seq new w) C := by
  refine .bind_eq (readClock_solo hclock) (.bind_eq statement_solo ?_)
  exact revokeRows_solo (View.nodup_family _ _) fun id hid => (View.mem_family.mp hid).2

-- the presented row passes the tests for revocation and expiry
def RefreshTokenRow.Active (now : ℕ) (row : RefreshTokenRow T) : Prop := row.revokedAt = none ∧ now < row.expiresAt

theorem refresh_used_solo (hclock : ∀ s, ext .clock s = (.ok now, s)) {refreshToken : String} {id : ℕ}
    {row : RefreshTokenRow T} {user : UserRow}
    (hindex : base (.tokenHash (crypto.hashRefreshToken refreshToken)) = some id)
    (hrow : base (.refreshToken id) = some row) (huser : base (.user row.userId) = some user)
    (hhash : row.tokenHash = crypto.hashRefreshToken refreshToken) (hused : row.usedAt ≠ none) :
    Prog.Solo (stepAlone ext .database t) (Free base seq) (refresh crypto t refreshToken) (fun _ _ => False)
      fun error w => (∃ message, error = .unauthorized message) ∧ ∃ new, Free new seq w ∧
      (row.Active now → FamilyRevoked t row.familyId (View.family ⟨base, seq⟩ row.familyId) base new) ∧
      (¬row.Active now → new = base) := by
  refine .bind begin_solo fun _ => ?_
  refine .bind (Q := fun r w => r = none ∧ row.Active now ∧ ∃ new,
    FamilyRevoked t row.familyId (View.family ⟨base, seq⟩ row.familyId) base new ∧ Free new seq w)
    (.handle (Y := fun error w => (∃ message, error = .unauthorized message) ∧ ¬row.Active now ∧
        Session t base seq base w)
      ?_ fun error => ?_) fun r => .pure_pre ?_
  · refine .bind_eq (selectTokenAndUser_solo hindex hrow huser hhash) (.bind_eq (readClock_solo hclock) ?_)
    simp only [RefreshTokenRow.Active]
    split
    · rename_i hinactive
      refine .throw fun w hw => ⟨⟨_, rfl⟩, ?_, hw⟩
      rintro ⟨hrevoked, hexpires⟩
      rw [hrevoked] at hinactive
      simp at hinactive
      omega
    · rename_i hactive
      simp only [Bool.or_eq_true, Option.isSome_iff_ne_none, ne_eq, decide_eq_true_eq, not_or, not_not,
        not_le] at hactive
      rw [if_pos (Option.isSome_iff_ne_none.mpr hused)]
      refine .bind (revokeFamily_solo hclock) fun _ => ?_
      refine .bind (Q := fun _ w => ∃ new,
        FamilyRevoked t row.familyId (View.family ⟨base, seq⟩ row.familyId) base new ∧ Free new seq w)
        ?_ fun _ => .pure fun w hw => ⟨rfl, hactive, hw⟩
      rintro w ⟨new, hrevoked, hw⟩
      exact ⟨new, hrevoked, commit_solo (C := fun _ _ => False) w hw⟩
  · refine .pure_pre fun herror => .pure_pre fun hinactive => .bind rollback_solo fun _ => ?_
    exact .throw fun w hw => ⟨herror, base, hw, fun hactive => absurd hactive hinactive, fun _ => rfl⟩
  · rintro rfl
    refine .throw ?_
    rintro w ⟨hactive, new, hrevoked, hw⟩
    exact ⟨⟨_, rfl⟩, new, hw, fun _ => hrevoked, fun hinactive => absurd hactive hinactive⟩

end Alone

/-- The clock stands at `now`, and `draw` chooses the values that are drawn. -/
def authAt (t : T) (now : ℕ) (draw : Randomness T → String) :
    (o : AuthOp) → Randomness T → Except Failure o.Res × Randomness T
  | .clock, s => (.ok now, s)
  | .randomUUID, s => (.ok (draw s), { s with uuids := ⟨t, draw s⟩ :: s.uuids })
  | .createRefreshToken, s => (.ok (draw s), { s with tokens := draw s :: s.tokens })

omit [DecidableEq T] in
def atRest (w : AuthWorld T) : AuthWorld T := ⟨⟨w.db.committed, fun _ => none, w.db.seq, fun _ => ⟨.idle, 0⟩⟩, w.env⟩

def refreshAlone (crypto : AuthCrypto) (t : T) (now : ℕ) (draw : Randomness T → String) (refreshToken : String)
    (w : AuthWorld T) : Except Failure AuthResponse × AuthWorld T :=
  (refresh crypto t refreshToken).run (stepAlone (authAt t now draw) .database t) w

structure KillsFamily (familyId : String) (old : Tables T) (result : Except Failure AuthResponse × AuthWorld T) :
    Prop where
  rejects : ∃ message, result.1 = .error (.unauthorized message)
  revoked : ∀ id row, result.2.db.committed (.refreshToken id) = some row → row.familyId = familyId →
      row.revokedAt ≠ none
  kept : ∀ id row time, old (.refreshToken id) = some row → row.revokedAt = some time →
    ∃ row', result.2.db.committed (.refreshToken id) = some row' ∧ row'.revokedAt = some time
  ended : ∀ k, result.2.db.held k = none

variable {crypto : AuthCrypto} {calls : T → TokenCall} {w : AuthWorld T} {c : AuthConfig T (Option AuthResponse)}

theorem user_of_token (hw : NoTokens w) (h : (AuthMachine T).Reachable (TokenCalls crypto calls w) c) {id : ℕ}
    {row : RefreshTokenRow T} (hrow : c.shared.db.committed (.refreshToken id) = some row) :
    ∃ user : UserRow, c.shared.db.committed (.user row.userId) = some user := by
  have hsound : Sound (HasUser w.db.committed) w.db := by
    refine ⟨fun k r hk => ?_, fun k t r hk => ?_⟩
    · cases k with
      | refreshToken id =>
        rw [hw.rows] at hk
        cases hk
      | user id => exact Option.isSome_iff_exists.mpr ⟨r, hk⟩
      | _ => trivial
    · rw [hw.quiescent.held] at hk
      cases hk
  obtain ⟨hrows, -⟩ := sound_run hsound (fun t => run_sound (calls t)) h
  have huser : (w.db.committed (.user row.userId)).isSome := hrows.committed (.refreshToken id) row hrow
  exact Option.isSome_iff_exists.mp (present_run h huser)

theorem refreshAlone_used (hw : NoTokens w) (h : (AuthMachine T).Reachable (TokenCalls crypto calls w) c) {id : ℕ}
    {row : RefreshTokenRow T} {refreshToken : String} (hrow : c.shared.db.committed (.refreshToken id) = some row)
    (hhash : row.tokenHash = crypto.hashRefreshToken refreshToken) (hused : row.usedAt ≠ none) (t : T) (now : ℕ)
    (draw : Randomness T → String) {result : Except Failure AuthResponse × AuthWorld T}
    (hresult : refreshAlone crypto t now draw refreshToken (atRest c.shared) = result) :
    (∃ message, result.1 = .error (.unauthorized message)) ∧ (∀ k, result.2.db.held k = none) ∧
    (row.Active now → ∃ ids, FamilyRevoked t row.familyId ids c.shared.db.committed result.2.db.committed ∧
      ∀ id row', c.shared.db.committed (.refreshToken id) = some row' → row'.familyId = row.familyId → id ∈ ids) ∧
      (¬row.Active now → result.2.db.committed = c.shared.db.committed) := by
  obtain ⟨hinv, -⟩ := token_run hw (unwatched h)
  obtain ⟨user, huser⟩ := user_of_token hw h hrow
  have hindex := hinv.tables.indexed id row hrow
  rw [hhash] at hindex
  have hfree : Free c.shared.db.committed c.shared.db.seq (atRest c.shared) := ⟨rfl, rfl, fun _ => rfl⟩
  have hclock : ∀ s, authAt t now draw .clock s = (.ok now, s) := fun _ => rfl
  have hends := refresh_used_solo (t := t) hclock hindex hrow huser hhash hused _ hfree
  change Prog.Ends _ _ (refreshAlone crypto t now draw refreshToken (atRest c.shared)) at hends
  rw [hresult] at hends
  obtain ⟨r, w'⟩ := result
  cases r with
  | ok response => exact hends.elim
  | error error =>
    obtain ⟨⟨message, rfl⟩, new, hw', hactive, hinactive⟩ := hends
    obtain rfl := hw'.committed
    refine ⟨⟨message, rfl⟩, hw'.held, fun h => ⟨_, hactive h, ?_⟩, hinactive⟩
    exact fun j other hother hfamily => View.mem_family.mpr ⟨hinv.tables.bounded j other hother, other, hother, hfamily⟩

theorem used_token_kills_family_iff (hw : NoTokens w) (h : (AuthMachine T).Reachable (TokenCalls crypto calls w) c)
    {id : ℕ} {row : RefreshTokenRow T} {refreshToken : String}
    (hrow : c.shared.db.committed (.refreshToken id) = some row)
    (hhash : row.tokenHash = crypto.hashRefreshToken refreshToken) (hused : row.usedAt ≠ none) (t : T) (now : ℕ)
    (draw : Randomness T → String) :
    KillsFamily row.familyId c.shared.db.committed (refreshAlone crypto t now draw refreshToken (atRest c.shared)) ↔
      row.Active now ∨ ∀ id' row', c.shared.db.committed (.refreshToken id') = some row' →
      row'.familyId = row.familyId → row'.revokedAt ≠ none := by
  generalize hresult : refreshAlone crypto t now draw refreshToken (atRest c.shared) = result
  obtain ⟨hrejects, hended, hactive, hinactive⟩ := refreshAlone_used hw h hrow hhash hused t now draw hresult
  constructor
  · intro hkills
    by_cases ha : row.Active now
    · exact .inl ha
    · right
      rw [← hinactive ha]
      exact hkills.revoked
  · intro hcondition
    by_cases ha : row.Active now
    · obtain ⟨ids, hrevoked, hids⟩ := hactive ha
      refine ⟨hrejects, fun j row' hrow' hfamily => ?_, fun j other time hother htime => ?_, hended⟩
      · obtain ⟨other, hother, hkept⟩ := hrevoked.rewritten.from_old j row' hrow'
        obtain ⟨before, time, -, -, hnew⟩ := hrevoked.rows j (hids j other hother (hkept.familyId.symm.trans hfamily))
        rw [hrow'] at hnew
        cases hnew
        exact Option.some_ne_none _
      · obtain ⟨row', hrow', hkept⟩ := hrevoked.rewritten.kept j other hother
        exact ⟨row', hrow', hkept.revokedAt time htime⟩
    · have hsame := hinactive ha
      refine ⟨hrejects, ?_, fun j other time hother htime => ⟨other, ?_, htime⟩, hended⟩
      · rw [hsame]
        exact hcondition.resolve_left ha
      · rw [hsame]
        exact hother

def rotatedCalls : ℕ → TokenCall
  | 0 => annaLogin
  | _ => .refresh "r1"

-- "r1" has been exchanged for "r2", which expires one millisecond after "r1"
theorem rotated_run : ∃ c : AuthConfig ℕ (Option AuthResponse),
    (AuthMachine ℕ).Reachable (TokenCalls plainCrypto rotatedCalls annaWorld) c ∧
    c.shared.db.committed (.refreshToken 1) = some ⟨"r1", "f", 1, some 1, none, 2592000000, some 1, []⟩ ∧
    c.shared.db.committed (.refreshToken 2) = some ⟨"r2", "f", 1, none, none, 2592000001, none, []⟩ := by
  apply exists_reachable (S := withDatabaseMoves authMoves .database)
    (loginMoves 0 ++ rotationMoves 1 "r2" "a2" ++ goes 1 1)
  decide

theorem used_token_kills_family_iff_rotated : ∃ c : AuthConfig ℕ (Option AuthResponse),
    (AuthMachine ℕ).Reachable (TokenCalls plainCrypto rotatedCalls annaWorld) c ∧
    KillsFamily "f" c.shared.db.committed (refreshAlone plainCrypto 2 5 (fun _ => "") "r1" (atRest c.shared)) := by
  obtain ⟨c, hc, hrow, -⟩ := rotated_run
  refine ⟨c, hc, (used_token_kills_family_iff annaWorld_noTokens hc hrow rfl (by simp) 2 5 fun _ => "").mpr (.inl ?_)⟩
  exact ⟨rfl, by decide⟩

theorem expired_used_token_spares_successor : ∃ c : AuthConfig ℕ (Option AuthResponse), ∃ row : RefreshTokenRow ℕ,
    (AuthMachine ℕ).Reachable (TokenCalls plainCrypto rotatedCalls annaWorld) c ∧
    c.shared.db.committed (.refreshToken 1) = some row ∧ row.tokenHash = plainCrypto.hashRefreshToken "r1" ∧
    row.usedAt ≠ none ∧ ¬KillsFamily row.familyId c.shared.db.committed
      (refreshAlone plainCrypto 2 2592000000 (fun _ => "") "r1" (atRest c.shared)) := by
  obtain ⟨c, hc, hrow, hlive⟩ := rotated_run
  refine ⟨c, _, hc, hrow, rfl, by simp, fun hkills => ?_⟩
  obtain ⟨-, -, -, hinactive⟩ :=
    refreshAlone_used annaWorld_noTokens hc hrow rfl (by simp) 2 2592000000 (fun _ => "") rfl
  have hsame := hinactive fun hactive => absurd hactive.2 (by decide)
  rw [← hsame] at hlive
  exact hkills.revoked 2 _ hlive rfl rfl

end Marketplace
