import Marketplace.TokenFamilies

namespace Marketplace

open Concurrent ReadCommitted

variable {T : Type}

inductive TokenCall
  | login (input : LoginInput)
  | refresh (refreshToken : String)
  | logout (accessToken refreshToken : String)
  deriving DecidableEq, Repr

def TokenCall.IsRefresh : TokenCall → Prop
  | .refresh _ => True
  | _ => False

def TokenCall.IsLogout : TokenCall → Prop
  | .logout _ _ => True
  | _ => False

def TokenCall.run (crypto : AuthCrypto) (self : T) : TokenCall → AuthCall T (Option AuthResponse)
  | .login input => do
    let response ← Marketplace.login crypto input
    pure (some response)
  | .refresh refreshToken => do
    let response ← Marketplace.refresh crypto self refreshToken
    pure (some response)
  | .logout accessToken refreshToken => do
    Marketplace.logout crypto self accessToken refreshToken
    pure none

def NoNewToken (familyId : String) (old new : Tables T) : Prop :=
  ∀ id row, new (.refreshToken id) = some row → row.familyId = familyId → ∃ row, old (.refreshToken id) = some row

variable [DecidableEq T]

def LoggingOut (t : T) (familyId : String) (w : AuthWorld T) : Prop :=
  (w.db.txn t).status = .inProgress ∧ 2 ≤ (w.db.txn t).command ∧ ∃ id row new,
    w.db.workspace t (.refreshToken id) = some ⟨some row, new⟩ ∧ row.familyId = familyId

def LocksUser (t : T) (familyId : String) (w : AuthWorld T) : Prop :=
  ∃ id row ch, w.db.committed (.refreshToken id) = some row ∧ row.familyId = familyId ∧
    w.db.workspace t (.user row.userId) = some ch

/-- While a watched call logs a family out, no step adds a row to the family. -/
def Undisturbed (watched : T → Prop) (w w' : AuthWorld T) : Prop :=
  ∀ t familyId, watched t → LoggingOut t familyId w → NoNewToken familyId w.db.committed w'.db.committed

def undisturbed (watched : T → Prop) (_ : T) (a : AuthAction T) (w : AuthWorld T)
    (_ : Except Failure (a.Res AuthOp.Res)) (w' : AuthWorld T) : Prop := Undisturbed watched w w'

abbrev WatchedMachine (watched : T → Prop) :
    Machine T (AuthWorld T) (AuthAction T) (Action.Res AuthOp.Res) Failure :=
  (AuthMachine T).restrict (undisturbed watched) fun _ _ _ => True

omit [DecidableEq T] in
structure TokenInv (final : T → Prop) (w : AuthWorld T) : Prop where
  tables : TokenTables w.db.committed (w.db.seq .refreshTokens) w.env.uuids
  live : LiveFamilies final w.db.committed
  distinct : (w.env.uuids.map Drawn.uuid).Nodup

def Used (crypto : AuthCrypto) (t : T) (refreshToken : String) (w : AuthWorld T) : Prop :=
  ∃ id row, w.db.committed (.tokenHash (crypto.hashRefreshToken refreshToken)) = some id ∧
    w.db.committed (.refreshToken id) = some row ∧ row.usedAt ≠ none ∧ row.usedBy = some t

def Reused (crypto : AuthCrypto) (t : T) (refreshToken : String) (w : AuthWorld T) : Prop :=
  ∃ id row, w.db.committed (.tokenHash (crypto.hashRefreshToken refreshToken)) = some id ∧
    w.db.committed (.refreshToken id) = some row ∧ t ∈ row.revokedBy

-- the COMMIT of the call has taken effect, whether or not the call knows
def Through (t : T) (w : AuthWorld T) : Prop := (w.db.txn t).status = .committed

omit [DecidableEq T] in
structure TokenAlways (final : T → Prop) (old new : Tables T) : Prop where
  rows : ∀ id row, old (.refreshToken id) = some row → ∃ row', new (.refreshToken id) = some row' ∧ RowKept row row'
  hashes : ∀ hash id, old (.tokenHash hash) = some id → new (.tokenHash hash) = some id
  closed : ∀ familyId, Finished final old familyId → ∀ id row', new (.refreshToken id) = some row' →
    row'.familyId = familyId → ∃ row, old (.refreshToken id) = some row ∧ row'.usedBy = row.usedBy

omit [DecidableEq T] in
/-- A `refresh` call that has committed has used its token or revoked it. -/
structure TokenSound (crypto : AuthCrypto) (calls : T → TokenCall) (final : T → Prop) (w : AuthWorld T) : Prop
    extends TokenInv final w where
  decided : ∀ t refreshToken, calls t = .refresh refreshToken → Through t w →
    Used crypto t refreshToken w ∨ Reused crypto t refreshToken w

structure TokenRely (watched : T → Prop) (t : T) (w w' : AuthWorld T) : Prop where
  families : ∀ id row, w'.db.committed (.refreshToken id) = some row →
    (∃ id' row', w.db.committed (.refreshToken id') = some row' ∧ row'.familyId = row.familyId) ∨
    ∃ d ∈ w'.env.uuids, d.uuid = row.familyId ∧ d.drawnBy ≠ t
  guarded : ∀ familyId, LocksUser t familyId w ∨ watched t ∧ LoggingOut t familyId w →
    NoNewToken familyId w.db.committed w'.db.committed

section Relations

variable {final watched : T → Prop} {t : T} {familyId : String} {w w' w'' : AuthWorld T} {old mid new : Tables T}

omit [DecidableEq T] in
theorem TokenAlways.refl (tables : Tables T) : TokenAlways final tables tables :=
  ⟨fun _ row h => ⟨row, h, .refl row⟩, fun _ _ h => h, fun _ _ _ row h _ => ⟨row, h, rfl⟩⟩

omit [DecidableEq T] in
theorem TokenAlways.finished (h : TokenAlways final old new) (hf : Finished final old familyId) :
    Finished final new familyId := by
  obtain ⟨id, row, t, hrow, hfamily, ht, hfinal⟩ := hf
  obtain ⟨row', hrow', hkept⟩ := h.rows id row hrow
  exact ⟨id, row', t, hrow', hkept.familyId.trans hfamily, hkept.revokedBy t ht, hfinal⟩

omit [DecidableEq T] in
theorem TokenAlways.trans (h : TokenAlways final old mid) (h' : TokenAlways final mid new) :
    TokenAlways final old new := by
  refine ⟨fun id row hrow => ?_, fun hash id hid => h'.hashes hash id (h.hashes hash id hid),
    fun familyId hf id row hrow hfamily => ?_⟩
  · obtain ⟨row', hrow', hkept⟩ := h.rows id row hrow
    obtain ⟨row'', hrow'', hkept'⟩ := h'.rows id row' hrow'
    exact ⟨row'', hrow'', hkept.trans hkept'⟩
  · obtain ⟨row', hrow', hby⟩ := h'.closed familyId (h.finished hf) id row hrow hfamily
    obtain ⟨_, hrow'', hkept⟩ := h'.rows id row' hrow'
    rw [hrow] at hrow''
    cases hrow''
    obtain ⟨row'', hrow'', hby'⟩ := h.closed familyId hf id row' hrow' (hkept.familyId.symm.trans hfamily)
    exact ⟨row'', hrow'', hby.trans hby'⟩

omit [DecidableEq T] in
theorem NoNewToken.trans (h : NoNewToken familyId old mid) (h' : NoNewToken familyId mid new)
    (hkept : TokenAlways final mid new) : NoNewToken familyId old new := by
  intro id row hrow hfamily
  obtain ⟨row', hrow'⟩ := h' id row hrow hfamily
  obtain ⟨_, hrow'', hk⟩ := hkept.rows id row' hrow'
  rw [hrow] at hrow''
  cases hrow''
  exact h id row' hrow' (hk.familyId.symm.trans hfamily)

theorem LoggingOut.frame (h : LoggingOut t familyId w) (hf : (AuthMachine T).frame t w w') :
    LoggingOut t familyId w' := by
  obtain ⟨hs, hc, id, row, new, hw, hfamily⟩ := h
  have htxn := hf.db.txn
  exact ⟨by rw [htxn]; exact hs, by rw [htxn]; exact hc, id, row, new, hf.db.workspace ▸ hw, hfamily⟩

theorem LocksUser.frame (h : LocksUser t familyId w) (hf : (AuthMachine T).frame t w w')
    (hkept : TokenAlways final w.db.committed w'.db.committed) : LocksUser t familyId w' := by
  obtain ⟨id, row, ch, hrow, hfamily, hw⟩ := h
  obtain ⟨row', hrow', hk⟩ := hkept.rows id row hrow
  refine ⟨id, row', ch, hrow', hk.familyId.trans hfamily, ?_⟩
  rw [hf.db.workspace, hk.userId]
  exact hw

theorem TokenRely.of_committed (h : w'.db.committed = w.db.committed) : TokenRely watched t w w' := by
  refine ⟨fun id row hrow => .inl ⟨id, row, h ▸ hrow, rfl⟩, fun familyId _ id row hrow _ => ⟨row, h ▸ hrow⟩⟩

theorem TokenRely.trans (hf : (AuthMachine T).frame t w w') (hf' : (AuthMachine T).frame t w' w'')
    (ha : TokenAlways final w.db.committed w'.db.committed)
    (ha' : TokenAlways final w'.db.committed w''.db.committed) (h : TokenRely watched t w w')
    (h' : TokenRely watched t w' w'') : TokenRely watched t w w'' := by
  constructor
  · intro id row hrow
    rcases h'.families id row hrow with ⟨id', row', hrow', hfamily⟩ | hdrawn
    · rcases h.families id' row' hrow' with ⟨id'', row'', hrow'', hfamily'⟩ | ⟨d, hd, huuid, hne⟩
      · exact .inl ⟨id'', row'', hrow'', hfamily'.trans hfamily⟩
      · exact .inr ⟨d, hf'.env d hd, huuid.trans hfamily, hne⟩
    · exact .inr hdrawn
  · intro familyId hg
    refine (h.guarded familyId hg).trans (h'.guarded familyId ?_) ha'
    exact hg.imp (fun hl => hl.frame hf ha) fun hl => ⟨hl.1, hl.2.frame hf⟩

variable {crypto : AuthCrypto} {refreshToken : String}

omit [DecidableEq T] in
theorem Used.later (h : Used crypto t refreshToken w) (ha : TokenAlways final w.db.committed w'.db.committed) :
    Used crypto t refreshToken w' := by
  obtain ⟨id, row, hhash, hrow, hused, hby⟩ := h
  obtain ⟨row', hrow', hkept⟩ := ha.rows id row hrow
  obtain ⟨time, htime⟩ := Option.ne_none_iff_exists'.mp hused
  have hused' := hkept.usedAt time htime
  refine ⟨id, row', ha.hashes _ id hhash, hrow', ?_, (hkept.usedBy (hused'.trans htime.symm)).trans hby⟩
  rw [hused']
  exact Option.some_ne_none time

omit [DecidableEq T] in
theorem Reused.later (h : Reused crypto t refreshToken w) (ha : TokenAlways final w.db.committed w'.db.committed) :
    Reused crypto t refreshToken w' := by
  obtain ⟨id, row, hhash, hrow, hby⟩ := h
  obtain ⟨row', hrow', hkept⟩ := ha.rows id row hrow
  exact ⟨id, row', ha.hashes _ id hhash, hrow', hkept.revokedBy t hby⟩

end Relations

variable (crypto : AuthCrypto) (calls : T → TokenCall) (watched : T → Prop)

omit [DecidableEq T] in
def finalCall (t : T) : Prop := (calls t).IsRefresh ∨ watched t

def tokenLedger : Discipline (WatchedMachine watched) where
  inv := TokenSound crypto calls (finalCall calls watched)
  always w w' := TokenAlways (finalCall calls watched) w.db.committed w'.db.committed
  rely := TokenRely watched
  gone _ _ := True
  always_refl _ := .refl _
  always_trans := .trans
  rely_refl _ _ := .of_committed rfl
  rely_trans hf hf' ha ha' h h' := .trans hf hf' ha ha' h h'

variable {crypto calls watched}

theorem tokenLedger_quiet {t : T} {w w' : AuthWorld T} (hi : TokenSound crypto calls (finalCall calls watched) w)
    (hc : w'.db.committed = w.db.committed) (hseq : ∀ q, w.db.seq q ≤ w'.db.seq q)
    (hthrough : ∀ u, Through u w' → Through u w) (huuids : ∀ d ∈ w.env.uuids, d ∈ w'.env.uuids)
    (hdistinct : (w'.env.uuids.map Drawn.uuid).Nodup) : (tokenLedger crypto calls watched).Allows t w w' := by
  have halways : TokenAlways (finalCall calls watched) w.db.committed w'.db.committed := hc ▸ .refl _
  refine ⟨⟨⟨?_, ?_, hdistinct⟩, fun u refreshToken hu h => ?_⟩, halways, fun _ _ => .of_committed hc⟩
  · rw [hc]
    exact hi.tables.mono (hseq _) huuids
  · rw [hc]
    exact hi.live
  · exact (hi.decided u refreshToken hu (hthrough u h)).imp (·.later halways) (·.later halways)

theorem through_works {t : T} {w : AuthWorld T} {db : Database T Serial Key (Row T)} (hw : w.db.Works t db) (u : T)
    (h : Through u (⟨db, w.env⟩ : AuthWorld T)) : Through u w := by
  by_cases hu : t = u
  · subst hu
    exact hw.status.symm.trans h
  · rw [Through, (hw.frame u hu).txn] at h
    exact h

theorem tokenLedger_calm : AuthCalm (tokenLedger crypto calls watched) where
  calm := {
    works := fun hi hw =>
      tokenLedger_quiet hi hw.committed hw.seq (through_works hw) (fun _ h => h) hi.distinct
    rollback := fun hi => tokenLedger_quiet hi Database.committed_rollback
      (fun q => Nat.le_of_eq (by rw [Database.seq_rollback])) (fun _ => Database.status_rollback.mp) (fun _ h => h)
      hi.distinct
    crash := by
      rintro t w w' hi ⟨hdb, henv⟩ -
      have henv' : w'.env = w.env := henv
      refine ⟨tokenLedger_quiet hi (by rw [hdb, Database.committed_rollback])
        (fun q => Nat.le_of_eq (by rw [hdb, Database.seq_rollback])) (fun u hu => ?_) ?_ ?_, fun _ _ => trivial⟩
      · rw [Through, hdb] at hu
        exact Database.status_rollback.mp hu
      · exact fun d hd => henv' ▸ hd
      · rw [henv']
        exact hi.distinct }
  draws := by
    intro t w o r s hi hdraw
    cases hdraw with
    | clock now => exact tokenLedger_quiet hi rfl (fun _ => Nat.le_refl _) (fun _ h => h) (fun _ h => h) hi.distinct
    | createRefreshToken token _ =>
      exact tokenLedger_quiet hi rfl (fun _ => Nat.le_refl _) (fun _ h => h) (fun _ h => h) hi.distinct
    | randomUUID uuid hfresh =>
      refine tokenLedger_quiet hi rfl (fun _ => Nat.le_refl _) (fun _ h => h) (fun _ h => List.mem_cons_of_mem _ h) ?_
      rw [List.map_cons, List.nodup_cons]
      refine ⟨fun hmem => ?_, hi.distinct⟩
      obtain ⟨d, hd, huuid⟩ := List.mem_map.mp hmem
      exact hfresh d hd huuid

section Commits

variable {t : T} {w : AuthWorld T} {ws : Workspace Key (Row T)} {c : ℕ}

def Decides (crypto : AuthCrypto) (calls : T → TokenCall) (t : T) (w : AuthWorld T) : Prop :=
  ∀ refreshToken, calls t = .refresh refreshToken → Used crypto t refreshToken w ∨ Reused crypto t refreshToken w

theorem decided_commit (hi : TokenSound crypto calls (finalCall calls watched) w)
    (ha : TokenAlways (finalCall calls watched) w.db.committed (w.db.commit t).committed)
    (h : Decides crypto calls t ⟨w.db.commit t, w.env⟩) (u : T) (refreshToken : String)
    (hu : calls u = .refresh refreshToken) (hthrough : Through u (⟨w.db.commit t, w.env⟩ : AuthWorld T)) :
    Used crypto u refreshToken ⟨w.db.commit t, w.env⟩ ∨ Reused crypto u refreshToken ⟨w.db.commit t, w.env⟩ := by
  by_cases hut : t = u
  · subst hut
    exact h refreshToken hu
  · rw [Through, Database.txn_commit_of_ne hut] at hthrough
    exact (hi.decided u refreshToken hu hthrough).imp (·.later ha) (·.later ha)

theorem allows_rotated {id now newId : ℕ} {current row : RefreshTokenRow T} {mid : Tables T}
    (hi : TokenSound crypto calls (finalCall calls watched) w)
    (h : Rotated t id current now newId row w.db.committed mid (w.db.commit t).committed)
    (hbound : newId < w.db.seq .refreshTokens) (hlock : ∃ ch, w.db.workspace t (.user current.userId) = some ch)
    (hdecides : Decides crypto calls t ⟨w.db.commit t, w.env⟩)
    (hu : Undisturbed watched w ⟨w.db.commit t, w.env⟩) :
    (tokenLedger crypto calls watched).Allows t w ⟨w.db.commit t, w.env⟩ := by
  obtain ⟨ch, hlock⟩ := hlock
  have halways : TokenAlways (finalCall calls watched) w.db.committed (w.db.commit t).committed := by
    refine ⟨fun j other hj => ?_, fun hash j hj => h.issued.kept_hash ((h.hashes hash).trans hj), ?_⟩
    · obtain ⟨other', hj', hkept⟩ := h.rewritten.kept j other hj
      exact ⟨other', h.issued.kept hj', hkept⟩
    · intro familyId hf j other hj hfamily
      rcases h.row_cases hj with ⟨-, hj⟩ | ⟨rfl, rfl⟩ | ⟨rfl, rfl⟩
      · exact ⟨other, hj, rfl⟩
      · subst hfamily
        exact absurd hf (h.unfinished hi.live)
      · rw [← hfamily, h.familyId] at hf
        exact absurd hf (h.unfinished hi.live)
  refine ⟨⟨⟨?_, h.live hi.live, hi.distinct⟩, decided_commit hi halways hdecides⟩, halways, fun t' hne => ⟨?_, ?_⟩⟩
  · simp only [Database.seq_commit]
    exact h.tables hi.tables hbound
  · intro j other hj
    rcases h.row_cases hj with ⟨-, hj⟩ | ⟨rfl, rfl⟩ | ⟨rfl, rfl⟩
    · exact .inl ⟨j, other, hj, rfl⟩
    · exact .inl ⟨j, current, h.current_old, rfl⟩
    · exact .inl ⟨id, current, h.current_old, h.familyId.symm⟩
  · rintro familyId (⟨i, held, ch', hheld, hsame, hlock'⟩ | ⟨hw, hout⟩)
    · intro j other hj hfamily
      rcases h.row_cases hj with ⟨-, hj⟩ | ⟨rfl, -⟩ | ⟨rfl, rfl⟩
      · exact ⟨other, hj⟩
      · exact ⟨current, h.current_old⟩
      · have huser := hi.tables.users i held id current hheld h.current_old
          (hsame.trans (hfamily.symm.trans h.familyId))
        rw [huser] at hlock'
        exact absurd (Database.workspace_exclusive hlock hlock') hne
    · exact hu t' familyId hw hout

theorem allows_revoked {familyId : String} {ids : List ℕ}
    (hi : TokenSound crypto calls (finalCall calls watched) w)
    (h : FamilyRevoked t familyId ids w.db.committed (w.db.commit t).committed)
    (hcovers : finalCall calls watched t → ∀ id row, w.db.committed (.refreshToken id) = some row →
      row.familyId = familyId → id ∈ ids) (hdecides : Decides crypto calls t ⟨w.db.commit t, w.env⟩) :
    (tokenLedger crypto calls watched).Allows t w ⟨w.db.commit t, w.env⟩ := by
  have hr := h.rewritten
  have halways : TokenAlways (finalCall calls watched) w.db.committed (w.db.commit t).committed := by
    refine ⟨hr.kept, fun hash j hj => (hr.hashes hash).trans hj, fun _ _ j row' hj _ => ?_⟩
    obtain ⟨row, hrow, -⟩ := hr.from_old j row' hj
    exact ⟨row, hrow, (h.usedAt hrow hj).2⟩
  refine ⟨⟨⟨?_, h.live hi.live hcovers, hi.distinct⟩, decided_commit hi halways hdecides⟩, halways,
    fun t' _ => ⟨?_, ?_⟩⟩
  · simp only [Database.seq_commit]
    exact hi.tables.rewrite hr
  · intro j row' hj
    obtain ⟨row, hrow, hkept⟩ := hr.from_old j row' hj
    exact .inl ⟨j, row, hrow, hkept.familyId.symm⟩
  · intro _ _ j row' hj _
    obtain ⟨row, hrow, -⟩ := hr.from_old j row' hj
    exact ⟨row, hrow⟩

def FreshFamily (t : T) (familyId : String) (w : AuthWorld T) : Prop :=
  (∃ d ∈ w.env.uuids, d.uuid = familyId ∧ d.drawnBy = t) ∧
    ∀ id row, w.db.committed (.refreshToken id) = some row → row.familyId ≠ familyId

theorem allows_issued {id : ℕ} {row : RefreshTokenRow T} (hi : TokenSound crypto calls (finalCall calls watched) w)
    (h : Issued id row w.db.committed (w.db.commit t).committed) (hid : id < w.db.seq .refreshTokens)
    (hfresh : FreshFamily t row.familyId w) (hunused : row.usedAt = none) (hby : row.usedBy = none)
    (hrevoked : row.revokedBy = []) (hdecides : Decides crypto calls t ⟨w.db.commit t, w.env⟩) :
    (tokenLedger crypto calls watched).Allows t w ⟨w.db.commit t, w.env⟩ := by
  obtain ⟨⟨d, hd, huuid, hdrawn⟩, hnone⟩ := hfresh
  have halways : TokenAlways (finalCall calls watched) w.db.committed (w.db.commit t).committed := by
    refine ⟨fun j other hj => ⟨other, h.kept hj, .refl other⟩, fun hash j hj => h.kept_hash hj, ?_⟩
    rintro familyId ⟨i, held, t', hheld, hsame, -⟩ j other hj hfamily
    rcases h.row_cases hj with hj | ⟨rfl, rfl⟩
    · exact ⟨other, hj, rfl⟩
    · exact absurd (hsame.trans hfamily.symm) (hnone i held hheld)
  refine ⟨⟨⟨?_, h.live hi.live hnone hunused hrevoked, hi.distinct⟩, decided_commit hi halways hdecides⟩, halways,
    fun t' hne => ⟨?_, ?_⟩⟩
  · simp only [Database.seq_commit]
    exact hi.tables.issue h hid ⟨d, hd, huuid⟩ (fun j other hj hfamily => absurd hfamily (hnone j other hj)) hby
  · intro j other hj
    rcases h.row_cases hj with hj | ⟨rfl, rfl⟩
    · exact .inl ⟨j, other, hj, rfl⟩
    · refine .inr ⟨d, hd, huuid, ?_⟩
      rw [hdrawn]
      exact hne
  · intro familyId hg j other hj hfamily
    rcases h.row_cases hj with hj | ⟨rfl, rfl⟩
    · exact ⟨other, hj⟩
    · have hrow : ∃ i held, w.db.committed (.refreshToken i) = some held ∧ held.familyId = familyId := by
        rcases hg with ⟨i, held, _, hheld, hsame, -⟩ | ⟨-, -, -, i, held, _, hheld, hsame⟩
        · exact ⟨i, held, hheld, hsame⟩
        · exact ⟨i, held, Database.committed_of_workspace hheld, hsame⟩
      obtain ⟨i, held, hheld, hsame⟩ := hrow
      exact absurd (hsame.trans hfamily.symm) (hnone i held hheld)

theorem issued_commit {id : ℕ} {row : RefreshTokenRow T}
    (hat : At t ((ws.set (.refreshToken id) ⟨none, row⟩).set (.tokenHash row.tokenHash) ⟨none, id⟩) c w)
    (hid : ws (.refreshToken id) = none) (hhash : ws (.tokenHash row.tokenHash) = none) :
    Issued id row (ws.onto w.db.committed) (w.db.commit t).committed := by
  have hrow : w.db.committed (.refreshToken id) = none :=
    hat.committed_old ((Workspace.set_of_ne (by simp)).trans Workspace.set_self)
  have hindex : w.db.committed (.tokenHash row.tokenHash) = none := hat.committed_old Workspace.set_self
  have hcommit := hat.committed_commit
  rw [Workspace.onto_set, Workspace.onto_set] at hcommit
  refine ⟨(Workspace.onto_of_none hid).trans hrow, (Workspace.onto_of_none hhash).trans hindex, ?_, ?_, ?_, ?_⟩
  · rw [hcommit, Function.update_of_ne (by simp), Function.update_self]
  · rw [hcommit, Function.update_self]
  · intro j hj
    rw [hcommit, Function.update_of_ne (by simp), Function.update_of_ne (by simpa using hj)]
  · intro hash hne
    rw [hcommit, Function.update_of_ne (by simpa using hne), Function.update_of_ne (by simp)]

theorem rotated_commit {id now newId : ℕ} {current row : RefreshTokenRow T} {user : UserRow}
    (hat : At t ((((lockedTokenAndUser id current user).set (.refreshToken id) ⟨some current, current.use t now⟩).set
      (.refreshToken newId) ⟨none, row⟩).set (.tokenHash row.tokenHash) ⟨none, newId⟩) c w) (hne : newId ≠ id)
    (hfamily : row.familyId = current.familyId) (huser : row.userId = current.userId) (hused : row.usedAt = none)
    (hby : row.usedBy = none) (hrevoked : row.revokedBy = []) (hunused : current.usedAt = none)
    (hactive : current.revokedAt = none) :
    Rotated t id current now newId row w.db.committed
      (Workspace.onto ((lockedTokenAndUser id current user).set (.refreshToken id) ⟨some current, current.use t now⟩)
      w.db.committed) (w.db.commit t).committed := by
  refine ⟨?_, ?_, ?_, ?_, issued_commit hat ?_ ?_, hfamily, huser, hused, hby, hrevoked, hunused, hactive⟩
  · exact hat.committed_old ((Workspace.set_of_ne (by simp)).trans
      ((Workspace.set_of_ne (by simpa using hne.symm)).trans Workspace.set_self))
  · rw [Workspace.onto_set, Function.update_self]
  · intro j hj
    rw [Workspace.onto_set, Function.update_of_ne (by simpa using hj)]
    refine Workspace.onto_of_none ?_
    rw [lockedTokenAndUser, lockedToken, Workspace.set_of_ne (by simp), Workspace.set_of_ne (by simpa using hj)]
    rfl
  · intro hash
    refine Workspace.onto_of_none ?_
    rw [Workspace.set_of_ne (by simp), lockedTokenAndUser, lockedToken, Workspace.set_of_ne (by simp),
      Workspace.set_of_ne (by simp)]
    rfl
  · rw [Workspace.set_of_ne (by simpa using hne), lockedTokenAndUser, lockedToken, Workspace.set_of_ne (by simp),
      Workspace.set_of_ne (by simpa using hne)]
    rfl
  · rw [Workspace.set_of_ne (by simp), lockedTokenAndUser, lockedToken, Workspace.set_of_ne (by simp),
      Workspace.set_of_ne (by simp)]
    rfl

theorem familyRevoked_commit {familyId : String} {ids : List ℕ} (hat : At t ws c w)
    (hrows : ∀ id ∈ ids, ∃ row now, ws (.refreshToken id) = some ⟨some row, RefreshTokenRow.revoke t now row⟩)
    (hothers : ∀ id, id ∉ ids → ws (.refreshToken id) = none ∨
      ∃ row : RefreshTokenRow T, ws (.refreshToken id) = some ⟨some row, row⟩)
    (hhashes : ∀ hash, ws (.tokenHash hash) = none)
    (hfamily : ∀ id ∈ ids, ∃ row, w.db.committed (.refreshToken id) = some row ∧ row.familyId = familyId) :
    FamilyRevoked t familyId ids w.db.committed (w.db.commit t).committed := by
  rw [hat.committed_commit]
  refine ⟨fun id hid => ?_, fun id hid => ?_, fun hash => Workspace.onto_of_none (hhashes hash)⟩
  · obtain ⟨row, now, hrow⟩ := hrows id hid
    obtain ⟨_, hold, hf⟩ := hfamily id hid
    rw [hat.committed_old hrow] at hold
    cases hold
    exact ⟨row, now, hat.committed_old hrow, hf, Workspace.onto_of_some hrow⟩
  · rcases hothers id hid with hfree | ⟨row, hrow⟩
    · exact Workspace.onto_of_none hfree
    · rw [Workspace.onto_of_some hrow, hat.committed_old hrow]

end Commits

end Marketplace
