import Marketplace.TokenLedger

namespace Marketplace

open Concurrent ReadCommitted

variable {T : Type} [DecidableEq T] {calls : T → TokenCall} {watched : T → Prop} {t : T} {familyId : String}
  {crypto : AuthCrypto}

theorem workspace_works {w : AuthWorld T} {db : Database T Serial Key (Row T)} (hw : w.db.Works t db) {k : Key}
    {old : Option (Row T k)} {new : Row T k} (h : w.db.workspace t k = some ⟨old, new⟩) :
    ∃ new', db.workspace t k = some ⟨old, new'⟩ := hw.own k _ h

def Guards (watched : T → Prop) (t : T) (familyId : String) (w : AuthWorld T) : Prop :=
  LocksUser t familyId w ∨ watched t ∧ LoggingOut t familyId w

theorem guards_kept : Kept (tokenLedger crypto calls watched) t (Guards watched t familyId) where
  stable w w' _ h hs := h.imp (fun hl => hl.frame hs.frame hs.always) fun hl => ⟨hl.1, hl.2.frame hs.frame⟩
  works {w db} _ h hw := by
    rcases h with ⟨id, row, ⟨old, new⟩, hrow, hfamily, hlock⟩ | ⟨hwatched, hs, hc, id, row, new, hlock, hfamily⟩
    · obtain ⟨new', hlock'⟩ := workspace_works hw hlock
      exact .inl ⟨id, row, _, by rw [hw.committed]; exact hrow, hfamily, hlock'⟩
    · obtain ⟨new', hlock'⟩ := workspace_works hw hlock
      exact .inr ⟨hwatched, hw.status.trans hs, Nat.le_trans hc hw.command, id, row, new', hlock', hfamily⟩

/-- The snapshot of the family UPDATE: if the revocation is to be final, none of the family's rows is missing. -/
structure Scanned (calls : T → TokenCall) (watched : T → Prop) (t : T) (familyId : String) (ids : List ℕ)
    (w : AuthWorld T) : Prop where
  covers : finalCall calls watched t → Guards watched t familyId w ∧ ∀ id row,
    w.db.committed (.refreshToken id) = some row → row.familyId = familyId → id ∈ ids
  family : ∀ id ∈ ids, ∃ row, w.db.committed (.refreshToken id) = some row ∧ row.familyId = familyId

theorem scanned_kept {ids : List ℕ} :
    Kept (tokenLedger crypto calls watched) t (Scanned calls watched t familyId ids) where
  stable w w' hi h hs := by
    refine ⟨fun hfinal => ?_, fun id hid => ?_⟩
    · obtain ⟨hg, hcovers⟩ := h.covers hfinal
      refine ⟨guards_kept.stable w w' hi hg hs, fun id row hrow hfamily => ?_⟩
      obtain ⟨old, hold⟩ := hs.rely.guarded familyId hg id row hrow hfamily
      obtain ⟨_, hrow', hkept⟩ := hs.always.rows id old hold
      rw [hrow] at hrow'
      cases hrow'
      exact hcovers id old hold (hkept.familyId.symm.trans hfamily)
    · obtain ⟨row, hrow, hfamily⟩ := h.family id hid
      obtain ⟨row', hrow', hkept⟩ := hs.always.rows id row hrow
      exact ⟨row', hrow', hkept.familyId.trans hfamily⟩
  works {w db} hi h hw := by
    refine ⟨fun hfinal => ?_, ?_⟩
    · obtain ⟨hg, hcovers⟩ := h.covers hfinal
      refine ⟨guards_kept.works hi hg hw, ?_⟩
      rw [hw.committed]
      exact hcovers
    · rw [hw.committed]
      exact h.family

theorem freshFamily_stable : (tokenLedger crypto calls watched).Stable t (FreshFamily t familyId) := by
  rintro w w' hi ⟨⟨d, hd, huuid, hdrawn⟩, hnone⟩ hs
  have hd' : d ∈ w'.env.uuids := hs.frame.env d hd
  refine ⟨⟨d, hd', huuid, hdrawn⟩, fun id row hrow hfamily => ?_⟩
  rcases hs.rely.families id row hrow with ⟨id', row', hrow', hsame⟩ | ⟨d', hmem, huuid', hne⟩
  · exact hnone id' row' hrow' (hsame.trans hfamily)
  · have heq := List.inj_on_of_nodup_map hs.inv.distinct hmem hd' (huuid'.trans (hfamily.trans huuid.symm))
    rw [heq] at hne
    exact hne hdrawn

theorem freshFamily_kept : Kept (tokenLedger crypto calls watched) t (FreshFamily t familyId) where
  stable := freshFamily_stable
  works {w db} _ h hw := by
    refine ⟨h.1, ?_⟩
    rw [hw.committed]
    exact h.2

theorem freshFamily_outlasts : Outlasts (tokenLedger crypto calls watched) t (FreshFamily t familyId) where
  stable := freshFamily_stable
  draws := by
    rintro w s hs ⟨⟨d, hd, huuid, hdrawn⟩, hnone⟩
    exact ⟨⟨d, hs d hd, huuid, hdrawn⟩, hnone⟩

theorem idle_outlasts : Outlasts (tokenLedger crypto calls watched) t fun w => w.db.workspace t = Workspace.empty where
  stable _ _ _ h hs := hs.frame.db.workspace.trans h
  draws _ h := h

theorem used_stable {refreshToken : String} :
    (tokenLedger crypto calls watched).Stable t (Used crypto t refreshToken) :=
  fun _ _ _ h hs => h.later hs.always

theorem reused_stable (refreshToken : String) :
    (tokenLedger crypto calls watched).Stable t (Reused crypto t refreshToken) :=
  fun _ _ _ h hs => h.later hs.always

def reuseDetected : Failure := .unauthorized "Refresh token reuse detected"

theorem begin_quiet {F : AuthWorld T → Prop} {φ : Failure → Prop} (hφ : φ .database)
    (hF : (tokenLedger crypto calls watched).Stable t F)
    (hb : ∀ w, F w → F ⟨w.db.setTxn t ⟨.inProgress, 0⟩, w.env⟩) :
    (tokenLedger crypto calls watched).Triple t (fun w => w.db.workspace t = Workspace.empty ∧ F w) begin
      (fun _ w => At t Workspace.empty 0 w ∧ F w) fun e _ => φ e := by
  apply begin_spec tokenLedger_calm.calm hF _ (fun _ _ _ => hφ) fun _ => .const
  intro w hi hf
  refine ⟨tokenLedger_quiet hi rfl (fun _ => Nat.le_refl _) (fun u hu => ?_) (fun _ h => h) hi.distinct, hb w hf⟩
  by_cases hut : t = u
  · subst hut
    rw [Through, Database.txn_setTxn] at hu
    cases hu
  · rwa [Through, Database.txn_setTxn_of_ne hut] at hu

theorem abandon_spec {α : Type} {Q : α → AuthWorld T → Prop} {φ : Failure → Prop} (hφ : φ .database)
    (error : Failure) : (tokenLedger crypto calls watched).Triple t (fun _ => φ error)
      (rollback >>= fun _ => (throw error : AuthCall T α)) Q fun e _ => φ e :=
  rollback_throw_spec tokenLedger_calm.calm .const error (fun _ => .const) fun _ _ h => ⟨h, hφ⟩

theorem insertFresh_spec {row : RefreshTokenRow T} (hcall : ∀ refreshToken, calls t ≠ .refresh refreshToken)
    (hfamily : row.familyId = familyId) (hunused : row.usedAt = none) (hby : row.usedBy = none)
    (hrevoked : row.revokedBy = []) :
    (tokenLedger crypto calls watched).Triple t (fun w => w.db.workspace t = Workspace.empty ∧ FreshFamily t familyId w)
      (autocommit (insertRefreshToken row)) (fun _ _ => True) fun _ _ => True := by
  refine .bind (begin_quiet (φ := fun _ => True) trivial freshFamily_stable fun _ h => h) fun _ => ?_
  refine .handle (Y := fun _ _ => True) ?_ fun error => ?_
  · refine .bind (insertRefreshToken_spec (n := 0) (φ := fun _ => True) tokenLedger_calm.calm freshFamily_kept trivial
      (fun _ _ _ => Nat.zero_le _) (fun _ _ => rfl) rfl) fun _ => ?_
    refine .exists_pre fun id => .pure_pre fun _ => ?_
    refine .bind ((commit_spec tokenLedger_calm.calm (freshFamily_kept.and (.seq_le .refreshTokens (id + 1)))
      .any .const fun w r hi hat hf _ => ⟨?_, fun _ => trivial, fun _ => trivial⟩)) fun _ =>
        .pure .const fun _ _ _ => trivial
    have hissued := issued_commit hat rfl rfl
    exact allows_issued hi hissued hf.2 (hfamily ▸ hf.1) hunused hby hrevoked fun _ ht => absurd ht (hcall _)
  · refine .bind (R := fun _ _ => True) (.handle (Y := fun _ _ => True) ?_ fun _ => .pure .const fun _ _ _ => trivial)
      fun _ => .throw .const fun _ _ _ => trivial
    exact tokenLedger_calm.calm.abort (P := fun _ => True) .const (fun _ _ _ => ⟨trivial, trivial⟩) .const
      fun _ => .const

theorem issueTokenPair_spec {userId : ℕ} {role : UserRole}
    (hcall : ∀ refreshToken, calls t ≠ .refresh refreshToken) :
    (tokenLedger crypto calls watched).Triple t (fun w => w.db.workspace t = Workspace.empty ∧ FreshFamily t familyId w)
      (issueTokenPair crypto userId role familyId) (fun _ _ => True) fun _ _ => True := by
  have hout : Outlasts (tokenLedger crypto calls watched) t
      fun w => w.db.workspace t = Workspace.empty ∧ FreshFamily t familyId w := idle_outlasts.and freshFamily_outlasts
  refine .bind (draw_spec (o := .createRefreshToken) tokenLedger_calm (fun _ => .const) hout) fun refreshToken => ?_
  refine .bind (signAccessToken_spec tokenLedger_calm (fun _ => .const) hout) fun access => ?_
  refine .bind (draw_spec (o := .clock) tokenLedger_calm (fun _ => .const) hout) fun now => ?_
  exact .bind (insertFresh_spec hcall rfl rfl rfl rfl) fun _ => .pure .const fun _ _ _ => trivial

theorem drawFamily_spec : (tokenLedger crypto calls watched).Triple t (fun w => w.db.workspace t = Workspace.empty)
    randomUUID (fun familyId w => w.db.workspace t = Workspace.empty ∧ FreshFamily t familyId w) fun _ _ => True := by
  apply drawing_spec (o := .randomUUID) tokenLedger_calm (fun _ => .const) idle_outlasts.stable
  · exact fun familyId => idle_outlasts.stable.and freshFamily_stable
  · intro w uuid s hi hidle hdraw
    cases hdraw with
    | randomUUID _ hfresh =>
      refine ⟨hidle, ⟨⟨t, uuid⟩, List.mem_cons_self .., rfl, rfl⟩, fun id row hrow hfamily => ?_⟩
      obtain ⟨d, hd, huuid⟩ := hi.tables.drawn id row hrow
      exact hfresh d hd (huuid.trans hfamily)

theorem login_spec {input : LoginInput} (hcall : ∀ refreshToken, calls t ≠ .refresh refreshToken) :
    (tokenLedger crypto calls watched).Triple t (fun w => w.db.workspace t = Workspace.empty) (login crypto input)
      (fun _ _ => True) fun _ _ => True := by
  have hfail {P : AuthWorld T → Prop} : (tokenLedger crypto calls watched).Triple t P
      (throw invalidCredentials : AuthCall T AuthResponse) (fun _ _ => True) fun _ _ => True :=
    .throw .const fun _ _ _ => trivial
  refine .bind (R := fun _ w => w.db.workspace t = Workspace.empty) (tokenLedger_calm.calm.inner (o := .statement)
    trivial idle_outlasts.stable ?_ (fun _ _ _ => trivial) (fun _ => idle_outlasts.stable) fun _ => .const)
      fun view => ?_
  · rintro w _ db _ hidle hx -
    cases hx
    exact hidle
  · split
    · exact hfail
    · split
      · exact hfail
      · split_ifs
        · exact hfail
        · exact .bind drawFamily_spec fun _ => issueTokenPair_spec hcall
        · exact hfail

section Locked

variable {id c : ℕ} {current : RefreshTokenRow T} {user : UserRow} {ids : List ℕ}

omit [DecidableEq T] in
theorem lockedToken_unrevoked : Unrevoked ids (lockedToken id current) := by
  intro j _
  by_cases hj : j = id
  · subst hj
    exact .inr ⟨current, Workspace.set_self⟩
  · exact .inl (Workspace.set_of_ne (by simpa using hj))

omit [DecidableEq T] in
theorem lockedTokenAndUser_unrevoked : Unrevoked ids (lockedTokenAndUser id current user) := by
  intro j hj
  rw [lockedTokenAndUser, Workspace.set_of_ne (by simp)]
  exact lockedToken_unrevoked j hj

omit [DecidableEq T] in
theorem lockedTokenAndUser_token :
    lockedTokenAndUser id current user (.refreshToken id) = some ⟨some current, current⟩ :=
  (Workspace.set_of_ne (by simp)).trans Workspace.set_self

omit [DecidableEq T] in
theorem lockedToken_unindexed {hash : String} : lockedToken id current (.tokenHash hash) = none :=
  Workspace.set_of_ne (by simp)

omit [DecidableEq T] in
theorem lockedTokenAndUser_unindexed {hash : String} :
    lockedTokenAndUser id current user (.tokenHash hash) = none :=
  (Workspace.set_of_ne (by simp)).trans lockedToken_unindexed

theorem locksUser_of_locked {w : AuthWorld T} (hat : At t (lockedTokenAndUser id current user) c w) :
    LocksUser t current.familyId w := by
  refine ⟨id, current, ⟨some user, user⟩, hat.committed_old lockedTokenAndUser_token, rfl, ?_⟩
  rw [hat.workspace]
  exact Workspace.set_self

theorem loggingOut_of_locked {w : AuthWorld T} (hat : At t (lockedToken id current) c w) (hc : 2 ≤ c) :
    LoggingOut t current.familyId w := by
  refine ⟨by rw [hat.txn], by rw [hat.txn]; exact hc, id, current, current, ?_, rfl⟩
  rw [hat.workspace]
  exact Workspace.set_self

theorem scanned_of_snapshot {w : AuthWorld T} {ws : Workspace Key (Row T)} (hi : TokenInv (finalCall calls watched) w)
    (hat : At t ws c w) (hws : ∀ ids, Unrevoked ids ws)
    (hg : finalCall calls watched t → Guards watched t familyId ⟨w.db.setTxn t ⟨.inProgress, c + 1⟩, w.env⟩) :
    Scanned calls watched t familyId (View.family (w.db.snapshot t) familyId)
      ⟨w.db.setTxn t ⟨.inProgress, c + 1⟩, w.env⟩ := by
  have hvisible (j : ℕ) : w.db.visible t (.refreshToken j) = w.db.committed (.refreshToken j) := by
    rcases hws [j] j (List.mem_singleton_self j) with hfree | ⟨row, hrow⟩
    · exact hat.visible_of_none hfree
    · rw [hat.visible_of_some hrow, hat.committed_old hrow]
  constructor
  · refine fun hfinal => ⟨hg hfinal, fun j row hrow hfamily => ?_⟩
    exact View.mem_family.mpr ⟨hi.tables.bounded j row hrow, row, (hvisible j).trans hrow, hfamily⟩
  · intro j hj
    obtain ⟨-, row, hrow, hfamily⟩ := View.mem_family.mp hj
    exact ⟨row, (hvisible j).symm.trans hrow, hfamily⟩

end Locked

omit [DecidableEq T] in
theorem Revokes.unrevoked {ids : List ℕ} {base ws : Workspace Key (Row T)} (h : Revokes t ids base ws)
    (hbase : ∀ ids, Unrevoked ids base) {id : ℕ} (hid : id ∉ ids) : ws (.refreshToken id) = none ∨
      ∃ row : RefreshTokenRow T, ws (.refreshToken id) = some ⟨some row, row⟩ := by
  rw [h.others (.refreshToken id)]
  · exact hbase [id] id (List.mem_singleton_self id)
  · rintro j hj heq
    cases heq
    exact hid hj

omit [DecidableEq T] in
theorem Revokes.unindexed {ids : List ℕ} {base ws : Workspace Key (Row T)} (h : Revokes t ids base ws)
    (hbase : ∀ hash, base (.tokenHash hash) = none) (hash : String) : ws (.tokenHash hash) = none :=
  (h.others (.tokenHash hash) (by simp)).trans (hbase hash)

theorem commitRevoked_spec {φ : Failure → Prop} (hφ : φ .database) {Z : AuthWorld T → Prop}
    (hZ : (tokenLedger crypto calls watched).Stable t Z) (hdecides : ∀ w, Z w → Decides crypto calls t w)
    {ids : List ℕ} {ws : Workspace Key (Row T)} {c : ℕ}
    (hrows : ∀ id ∈ ids, ∃ row now, ws (.refreshToken id) = some ⟨some row, RefreshTokenRow.revoke t now row⟩)
    (hothers : ∀ id, id ∉ ids → ws (.refreshToken id) = none ∨
      ∃ row : RefreshTokenRow T, ws (.refreshToken id) = some ⟨some row, row⟩)
    (hhashes : ∀ hash, ws (.tokenHash hash) = none)
    (hdone : ∀ w, TokenSound crypto calls (finalCall calls watched) w → At t ws c w →
      Scanned calls watched t familyId ids w → FamilyRevoked t familyId ids w.db.committed (w.db.commit t).committed →
      Z ⟨w.db.commit t, w.env⟩) :
    (tokenLedger crypto calls watched).Triple t (fun w => At t ws c w ∧ True ∧ Scanned calls watched t familyId ids w)
      commit (fun _ => Z) fun e _ => φ e := by
  refine commit_spec tokenLedger_calm.calm (Kept.const.and scanned_kept) (.const hφ) hZ ?_
  intro w r hi hat hs _
  have h := familyRevoked_commit hat hrows hothers hhashes hs.2.family
  have hz := hdone w hi hat hs.2 h
  exact ⟨allows_revoked hi h (fun hfinal => (hs.2.covers hfinal).2) (hdecides _ hz), fun _ => hz, fun _ => hφ⟩

theorem revoke_spec {φ : Failure → Prop} (hφ : φ .database) {ws : Workspace Key (Row T)}
    (hws : ∀ ids, Unrevoked ids ws)
    (hg : ∀ w, At t ws 2 w → finalCall calls watched t → Guards watched t familyId w) :
    (tokenLedger crypto calls watched).Triple t (fun w => At t ws 1 w ∧ True) (revokeFamily t familyId)
      (fun _ w => ∃ ids ws', Revokes t ids ws ws' ∧ At t ws' 2 w ∧ True ∧ Scanned calls watched t familyId ids w)
      fun e _ => φ e := by
  refine revokeFamily_spec (F := fun _ => True) tokenLedger_calm .const hφ ⟨.const, fun _ _ => trivial⟩
    (fun _ => scanned_kept) ?_ (fun _ _ _ hg => hg.family) hws
  intro w hi hat _
  exact scanned_of_snapshot hi.toTokenInv hat hws fun hfinal => hg _ ⟨hat.workspace, Database.txn_setTxn⟩ hfinal

theorem rotation_spec {φ : Failure → Prop} (hφ : φ .database) {refreshToken : String}
    (hcall : calls t = .refresh refreshToken) {id : ℕ} {current : RefreshTokenRow T} {user : UserRow}
    (hhash : current.tokenHash = crypto.hashRefreshToken refreshToken) (hunused : current.usedAt = none)
    (hactive : current.revokedAt = none) :
    (tokenLedger crypto calls watched).Triple t (At t (lockedTokenAndUser id current user) 1) (do
        let usedAt ← readClock
        let _ ← update (Key.refreshToken id) (fun _ => true) (RefreshTokenRow.use t usedAt)
        let newRefreshToken ← createRefreshToken
        let access ← signAccessToken crypto current.userId user.role current.familyId
        let issuedAt ← readClock
        insertRefreshToken
          { tokenHash := crypto.hashRefreshToken newRefreshToken
            familyId := current.familyId
            userId := current.userId
            usedAt := none
            revokedAt := none
            expiresAt := issuedAt + refreshTokenTtlSeconds * 1000
            usedBy := none
            revokedBy := [] }
        commit
        pure (some ⟨access, newRefreshToken⟩) : AuthCall T (Option AuthResponse))
      (fun r w => ∃ response, r = some response ∧ Used crypto t refreshToken w) fun e _ => φ e := by
  have hlocked {w : AuthWorld T} (hi : TokenSound crypto calls (finalCall calls watched) w)
      (hat : At t (lockedTokenAndUser id current user) 1 w) : id + 1 ≤ w.db.seq .refreshTokens :=
    hi.tables.bounded id current (hat.committed_old lockedTokenAndUser_token)
  refine .bind ((draw_spec (o := .clock) tokenLedger_calm (fun _ => .const)
    (At.outlasts.and (seq_outlasts .refreshTokens (id + 1)))).pre fun w hi hat => ⟨hat, hlocked hi hat⟩)
        fun usedAt => ?_
  refine .bind (updateWhere_own_spec tokenLedger_calm.calm (.seq_le .refreshTokens (id + 1)) (.const hφ)
    lockedTokenAndUser_token rfl) fun _ => .pure_pre fun _ => ?_
  have hout {c : ℕ} {ws : Workspace Key (Row T)} : Outlasts (tokenLedger crypto calls watched) t
      fun w => At t ws c w ∧ id + 1 ≤ w.db.seq .refreshTokens := At.outlasts.and (seq_outlasts _ _)
  refine .bind (draw_spec (o := .createRefreshToken) tokenLedger_calm (fun _ => .const) hout) fun newToken => ?_
  refine .bind (signAccessToken_spec tokenLedger_calm (fun _ => .const) hout) fun access => ?_
  refine .bind (draw_spec (o := .clock) tokenLedger_calm (fun _ => .const) hout) fun issuedAt => ?_
  refine .bind (insertRefreshToken_spec (n := id + 1) tokenLedger_calm.calm (.seq_le .refreshTokens (id + 1)) hφ
    (fun _ _ h => h) ?_ ?_) fun _ => .exists_pre fun newId => .pure_pre fun hnew => ?_
  · intro j hj
    have hne : j ≠ id := by omega
    rw [Workspace.set_of_ne (by simpa using hne), lockedTokenAndUser, lockedToken, Workspace.set_of_ne (by simp),
      Workspace.set_of_ne (by simpa using hne)]
    rfl
  · exact (Workspace.set_of_ne (by simp)).trans lockedTokenAndUser_unindexed
  · refine .bind (R := fun _ => Used crypto t refreshToken) (commit_spec tokenLedger_calm.calm
      (.and (.seq_le .refreshTokens (id + 1)) (.seq_le .refreshTokens (newId + 1))) (.const hφ) used_stable ?_)
        fun _ => .pure (.exists fun _ => .and .const used_stable) fun _ _ h => ⟨_, rfl, h⟩
    intro w r hi hat hf hu
    have h := rotated_commit hat (by omega) rfl rfl rfl rfl rfl hunused hactive
    have hused : Used crypto t refreshToken ⟨w.db.commit t, w.env⟩ := by
      refine ⟨id, current.use t usedAt, ?_, h.current_new, Option.some_ne_none _, rfl⟩
      rw [← hhash]
      exact h.issued.kept_hash ((h.hashes _).trans (hi.tables.indexed id current h.current_old))
    refine ⟨allows_rotated hi h hf.2 ?_ (fun _ ht => ?_) hu, fun _ => hused, fun _ => hφ⟩
    · refine ⟨⟨some user, user⟩, ?_⟩
      rw [hat.workspace, Workspace.set_of_ne (by simp), Workspace.set_of_ne (by simp),
        Workspace.set_of_ne (by simp)]
      exact Workspace.set_self
    · cases hcall.symm.trans ht
      exact .inl hused

theorem reused_commit {refreshToken : String} {id c : ℕ} {current : RefreshTokenRow T} {user : UserRow} {ids : List ℕ}
    {w : AuthWorld T} {ws : Workspace Key (Row T)} (hcall : calls t = .refresh refreshToken)
    (hhash : current.tokenHash = crypto.hashRefreshToken refreshToken)
    (hi : TokenSound crypto calls (finalCall calls watched) w)
    (hrev : Revokes t ids (lockedTokenAndUser id current user) ws) (hat : At t ws c w)
    (hs : Scanned calls watched t current.familyId ids w)
    (h : FamilyRevoked t current.familyId ids w.db.committed (w.db.commit t).committed) :
    Reused crypto t refreshToken ⟨w.db.commit t, w.env⟩ := by
  have hfinal : finalCall calls watched t := .inl (by rw [hcall]; trivial)
  obtain ⟨new, hheld⟩ := hrev.held _ _ lockedTokenAndUser_token
  have hrow : w.db.committed (.refreshToken id) = some current := hat.committed_old hheld
  obtain ⟨row, now, hold, -, hnew⟩ := h.rows id ((hs.covers hfinal).2 id current hrow rfl)
  cases hrow.symm.trans hold
  refine ⟨id, _, ?_, hnew, List.mem_cons_self⟩
  rw [← hhash]
  exact (h.hashes _).trans (hi.tables.indexed id current hrow)

theorem refresh_spec {refreshToken : String} (hcall : calls t = .refresh refreshToken) :
    (tokenLedger crypto calls watched).Triple t (fun w => w.db.workspace t = Workspace.empty)
      (refresh crypto t refreshToken) (fun _ w => Used crypto t refreshToken w)
      fun e w => e = reuseDetected → Reused crypto t refreshToken w := by
  have hreused (e : Failure) : (tokenLedger crypto calls watched).Stable t
      fun w => e = reuseDetected → Reused crypto t refreshToken w :=
    fun _ _ hi h hs he => reused_stable _ _ _ hi (h he) hs
  have hother : Failure.database ≠ reuseDetected := by decide
  have hfail {β : Type} {P : AuthWorld T → Prop} {Q : β → AuthWorld T → Prop} (error : Failure)
      (herror : error ≠ reuseDetected) :
      (tokenLedger crypto calls watched).Triple t P (throw error : AuthCall T β) Q fun e _ => e ≠ reuseDetected :=
    .throw .const fun _ _ _ => herror
  refine .bind (((begin_quiet (F := fun _ => True) hother .const fun _ h => h).pre fun w _ h => ⟨h, trivial⟩).conseq
    (fun _ _ h => h) (fun _ _ _ h => h) fun e w _ he heq => absurd heq he) fun _ => ?_
  have habandon (error : Failure) : (tokenLedger crypto calls watched).Triple t (fun _ => error ≠ reuseDetected)
      (rollback >>= fun _ => (throw error : AuthCall T (Option AuthResponse)))
      (fun r w => r.elim (Reused crypto t refreshToken w) fun _ => Used crypto t refreshToken w)
      fun e w => e = reuseDetected → Reused crypto t refreshToken w :=
    (abandon_spec hother error).conseq (fun _ _ h => h) (fun _ _ _ h => h) fun e w _ he heq => absurd heq he
  refine .bind (.handle (Y := fun e _ => e ≠ reuseDetected) ?_ habandon) fun r => ?_
  · refine .bind (selectTokenAndUser_spec tokenLedger_calm.calm .const hother) fun r => ?_
    cases r with
    | none => exact hfail _ (by decide)
    | some r =>
      obtain ⟨id, current, user⟩ := r
      refine .pure_pre fun hhash => ?_
      refine .bind (draw_spec (o := .clock) tokenLedger_calm (fun _ => .const)
        (At.outlasts.and ⟨.const, fun _ _ => trivial⟩)) fun now => ?_
      split
      · exact hfail _ (by decide)
      · rename_i hactive
        split
        · refine .bind (revoke_spec hother (fun _ => lockedTokenAndUser_unrevoked) fun w hat _ =>
            .inl (locksUser_of_locked hat)) fun _ => .exists_pre fun ids => .exists_pre fun ws => .pure_pre
              fun hrev => ?_
          refine .bind (commitRevoked_spec hother (reused_stable refreshToken)
            (fun w h _ ht => ?_) hrev.rows
            (fun _ hid => hrev.unrevoked (fun _ => lockedTokenAndUser_unrevoked) hid)
            (hrev.unindexed fun _ => lockedTokenAndUser_unindexed) fun w hi hat hs h => ?_) fun _ => ?_
          · cases hcall.symm.trans ht
            exact .inr h
          · exact reused_commit hcall hhash hi hrev hat hs h
          · exact .pure (reused_stable refreshToken) fun _ _ h => h
        · rename_i hunused
          rw [Bool.or_eq_true, not_or, Option.not_isSome_iff_eq_none] at hactive
          refine ((rotation_spec hother hcall hhash (Option.not_isSome_iff_eq_none.mp hunused) hactive.1).pre
            fun w _ h => h.1).conseq (fun _ _ h => h) ?_ fun _ _ _ h => h
          rintro _ w - ⟨response, rfl, hused⟩
          exact hused
  · cases r with
    | none => exact .throw (hreused _) fun w _ h _ => h
    | some response => exact .pure used_stable fun w _ h => h

theorem logout_spec {accessToken refreshToken : String} (hwatched : finalCall calls watched t → watched t)
    (hcall : ∀ refreshToken, calls t ≠ .refresh refreshToken) :
    (tokenLedger crypto calls watched).Triple t (fun w => w.db.workspace t = Workspace.empty)
      (logout crypto t accessToken refreshToken) (fun _ _ => True) fun _ _ => True := by
  have hdecides (w : AuthWorld T) (_ : True) : Decides crypto calls t w := fun _ ht => absurd ht (hcall _)
  have hfail {P : AuthWorld T → Prop} (error : Failure) : (tokenLedger crypto calls watched).Triple t P
      (throw error : AuthCall T Unit) (fun _ _ => True) fun _ _ => True := .throw .const fun _ _ _ => trivial
  refine .bind (draw_spec (o := .clock) tokenLedger_calm (fun _ => .const) idle_outlasts) fun verifiedAt => ?_
  split
  · exact hfail _
  · refine .bind ((begin_quiet (F := fun _ => True) (φ := fun _ => True) trivial .const fun _ h => h).pre
      fun w _ h => ⟨h, trivial⟩) fun _ => ?_
    refine .handle (Y := fun _ _ => True) ?_ fun error => abandon_spec (φ := fun _ => True) trivial error
    refine .bind (selectToken_spec (φ := fun _ => True) tokenLedger_calm.calm .const trivial) fun r => ?_
    cases r with
    | none => exact hfail _
    | some r =>
      obtain ⟨id, current⟩ := r
      refine .pure_pre fun _ => ?_
      dsimp only
      split
      · exact hfail _
      · refine .bind (revoke_spec (φ := fun _ => True) trivial (fun _ => lockedToken_unrevoked) fun w hat hfinal =>
          .inr ⟨hwatched hfinal, loggingOut_of_locked hat (Nat.le_refl 2)⟩) fun _ =>
            .exists_pre fun ids => .exists_pre fun ws => .pure_pre fun hrev => ?_
        have hkept : Kept (tokenLedger crypto calls watched) t
            fun w => True ∧ Scanned calls watched t current.familyId ids w := Kept.const.and scanned_kept
        have hothers (id : ℕ) (hid : id ∉ ids) := hrev.unrevoked (fun _ => lockedToken_unrevoked) hid
        have hhashes := hrev.unindexed fun _ => lockedToken_unindexed
        have hout : Outlasts (tokenLedger crypto calls watched) t
            fun w => True ∧ Scanned calls watched t current.familyId ids w := by
          refine ⟨hkept.stable, fun _ h => ⟨trivial, fun hfinal => ?_, h.2.family⟩⟩
          exact h.2.covers hfinal
        refine .bind (draw_spec (o := .clock) tokenLedger_calm (fun _ => .const) (At.outlasts.and hout)) fun now => ?_
        split
        · refine .bind (insertOrUpdate_spec tokenLedger_calm.calm hkept .any) fun _ => .exists_pre fun ch => .pure_pre
            fun _ => ?_
          refine commitRevoked_spec (φ := fun _ => True) trivial .const hdecides (fun id hid => ?_) (fun id hid => ?_)
            (fun hash => ?_) fun _ _ _ _ _ => trivial
          all_goals rw [Workspace.set_of_ne (by simp)]
          · exact hrev.rows id hid
          · exact hothers id hid
          · exact hhashes hash
        · exact commitRevoked_spec (φ := fun _ => True) trivial .const hdecides hrev.rows hothers hhashes
            fun _ _ _ _ _ => trivial

def Answered (crypto : AuthCrypto) (t : T) : TokenCall → AuthWorld T → Prop
  | .refresh refreshToken, w => Used crypto t refreshToken w
  | _, _ => True

def Rejected (crypto : AuthCrypto) (t : T) (e : Failure) : TokenCall → AuthWorld T → Prop
  | .refresh refreshToken, w => e = reuseDetected → Reused crypto t refreshToken w
  | _, _ => True

theorem run_spec :
    (tokenLedger crypto calls watched).Triple t (fun w => w.db.workspace t = Workspace.empty)
      ((calls t).run crypto t) (fun _ => Answered crypto t (calls t)) fun e => Rejected crypto t e (calls t) := by
  cases hcall : calls t with
  | login input => exact .bind (login_spec (by simp [hcall])) fun _ => .pure .const fun _ _ _ => trivial
  | refresh refreshToken => exact .bind (refresh_spec hcall) fun _ => .pure used_stable fun _ _ h => h
  | logout accessToken refreshToken =>
    refine .bind (logout_spec (fun hfinal => ?_) (by simp [hcall])) fun _ => .pure .const fun _ _ _ => trivial
    rcases hfinal with hrefresh | hwatch
    · rw [hcall] at hrefresh
      exact hrefresh.elim
    · exact hwatch

end Marketplace
