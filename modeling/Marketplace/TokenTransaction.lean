import Mathlib.Data.List.Nodup
import Marketplace.AuthService

namespace Marketplace

open Concurrent ReadCommitted

variable {T : Type} [DecidableEq T]
  {A : T → (a : AuthAction T) → AuthWorld T → Except Failure (a.Res AuthOp.Res) → AuthWorld T → Prop}
  {C : T → AuthWorld T → AuthWorld T → Prop}

structure AuthCalm (D : Discipline ((AuthMachine T).restrict A C)) : Prop where
  calm : Calm D
  draws : ∀ {t w o r s}, D.inv w → AuthPerforms t o w.env r s → D.Allows t w ⟨w.db, s⟩

/-- An assertion that outlives the steps of the others and the values that `t` draws. -/
structure Outlasts (D : Discipline ((AuthMachine T).restrict A C)) (t : T) (P : AuthWorld T → Prop) : Prop where
  stable : D.Stable t P
  draws : ∀ {w s}, (∀ drawn ∈ w.env.uuids, drawn ∈ s.uuids) → P w → P ⟨w.db, s⟩

variable {D : Discipline ((AuthMachine T).restrict A C)} {t : T}

theorem Outlasts.and {P P' : AuthWorld T → Prop} (h : Outlasts D t P) (h' : Outlasts D t P') :
    Outlasts D t fun w => P w ∧ P' w :=
  ⟨h.stable.and h'.stable, fun hs hp => ⟨h.draws hs hp.1, h'.draws hs hp.2⟩⟩

theorem At.outlasts {ws : Workspace Key (Row T)} {c : ℕ} : Outlasts D t (At t ws c) :=
  ⟨At.stable, fun _ h => ⟨h.workspace, h.txn⟩⟩

theorem seq_outlasts (q : Serial) (n : ℕ) : Outlasts D t fun w => n ≤ w.db.seq q :=
  ⟨(Kept.seq_le q n).stable, fun _ h => h⟩

omit [DecidableEq T] in
theorem View.row_of_tokenByHash {view : View T} {tokenHash : String} {id : ℕ} {row : RefreshTokenRow T}
    (h : View.tokenByHash view tokenHash = some (id, row)) : view.row (.refreshToken id) = some row := by
  simp only [View.tokenByHash, Option.bind_eq_some_iff, Option.map_eq_some_iff, Prod.mk.injEq] at h
  obtain ⟨_, -, _, hrow, rfl, rfl⟩ := h
  exact hrow

omit [DecidableEq T] in
theorem View.nodup_family (view : View T) (familyId : String) : (View.family view familyId).Nodup :=
  List.nodup_range.filter _

omit [DecidableEq T] in
theorem View.mem_family {view : View T} {familyId : String} {id : ℕ} : id ∈ View.family view familyId ↔
    id < view.seq .refreshTokens ∧ ∃ row, view.row (.refreshToken id) = some row ∧ row.familyId = familyId := by
  simp [View.family, Option.any_eq_true]

section Drawing

variable (hD : AuthCalm D) {P : AuthWorld T → Prop} {X : Failure → AuthWorld T → Prop} (hX : ∀ e, D.Stable t (X e))

include hD hX

theorem drawing_spec {o : AuthOp} {P' : o.Res → AuthWorld T → Prop} (hP : D.Stable t P)
    (hP' : ∀ r, D.Stable t (P' r))
    (h : ∀ w r s, D.inv w → P w → AuthPerforms t o w.env (.ok r) s → P' r ⟨w.db, s⟩) :
    D.Triple t P (drawing o) P' X := by
  apply Discipline.Triple.perform hP _ (fun w w' hi _ hc => hD.calm.crash hi hc.1 hc.2) hP' hX
  rintro w r w' hi hp ⟨hperform, -⟩
  cases hperform with
  | ext hdraw =>
    refine ⟨hD.draws hi hdraw, ?_⟩
    cases hdraw with
    | clock now => exact h w _ _ hi hp (.clock now)
    | randomUUID uuid hfresh => exact h w _ _ hi hp (.randomUUID uuid hfresh)
    | createRefreshToken token hfresh => exact h w _ _ hi hp (.createRefreshToken token hfresh)

theorem draw_spec {o : AuthOp} (hP : Outlasts D t P) : D.Triple t P (drawing o) (fun _ => P) X := by
  apply drawing_spec hD hX hP.stable (fun _ => hP.stable)
  intro w r s _ hp hdraw
  refine hP.draws ?_ hp
  cases hdraw with
  | clock now => exact fun _ h => h
  | randomUUID uuid hfresh => exact fun _ h => List.mem_cons_of_mem _ h
  | createRefreshToken token hfresh => exact fun _ h => h

theorem signAccessToken_spec {crypto : AuthCrypto} {userId : ℕ} {role : UserRole} {familyId : String}
    (hP : Outlasts D t P) : D.Triple t P (signAccessToken crypto userId role familyId) (fun _ => P) X := by
  refine .bind (draw_spec hD hX hP) fun _ => ?_
  refine .bind (draw_spec hD hX hP) fun _ => ?_
  exact .pure hP.stable fun _ _ h => h

end Drawing

def lockedToken (id : ℕ) (current : RefreshTokenRow T) : Workspace Key (Row T) :=
  Workspace.empty.set (.refreshToken id) ⟨some current, current⟩

def lockedTokenAndUser (id : ℕ) (current : RefreshTokenRow T) (user : UserRow) : Workspace Key (Row T) :=
  (lockedToken id current).set (.user current.userId) ⟨some user, user⟩

structure Revokes (t : T) (ids : List ℕ) (base ws : Workspace Key (Row T)) : Prop where
  others : ∀ k, (∀ id ∈ ids, k ≠ .refreshToken id) → ws k = base k
  held : ∀ k ch, base k = some ch → ∃ new, ws k = some ⟨ch.old, new⟩
  rows : ∀ id ∈ ids, ∃ row now, ws (.refreshToken id) = some ⟨some row, RefreshTokenRow.revoke t now row⟩

omit [DecidableEq T] in
theorem Revokes.nil {ws : Workspace Key (Row T)} : Revokes t [] ws ws :=
  ⟨fun _ _ => rfl, fun _ ch h => ⟨ch.new, h⟩, by simp⟩

omit [DecidableEq T] in
theorem Revokes.cons {ids : List ℕ} {id now : ℕ} {row : RefreshTokenRow T} {base ws : Workspace Key (Row T)}
    (h : Revokes t ids (base.set (.refreshToken id) ⟨some row, row.revoke t now⟩) ws) (hid : id ∉ ids)
    (hold : ∀ ch, base (.refreshToken id) = some ch → ch.old = some row) : Revokes t (id :: ids) base ws := by
  constructor
  · intro k hk
    rw [h.others k fun j hj => hk j (List.mem_cons_of_mem _ hj)]
    exact Workspace.set_of_ne (hk id (List.mem_cons_self ..))
  · intro k ch hk
    by_cases hkid : k = .refreshToken id
    · subst hkid
      rw [hold ch hk]
      exact h.held _ _ Workspace.set_self
    · exact h.held k ch ((Workspace.set_of_ne hkid).trans hk)
  · intro j hj
    rcases List.mem_cons.mp hj with rfl | hj
    · refine ⟨row, now, ?_⟩
      rw [h.others _ fun i hi => by rintro heq; cases heq; exact hid hi, Workspace.set_self]
    · exact h.rows j hj

def Unrevoked (ids : List ℕ) (ws : Workspace Key (Row T)) : Prop :=
  ∀ id ∈ ids, ws (.refreshToken id) = none ∨ ∃ row : RefreshTokenRow T, ws (.refreshToken id) = some ⟨some row, row⟩

section Tokens

variable {F : AuthWorld T → Prop} {φ : Failure → Prop} (hD : Calm D) (hF : Kept D t F) (hφ : φ .database)

include hD hF hφ

theorem insertRefreshToken_spec {ws : Workspace Key (Row T)} {c n : ℕ} {row : RefreshTokenRow T}
    (hn : ∀ w, D.inv w → F w → n ≤ w.db.seq .refreshTokens) (hid : ∀ id, n ≤ id → ws (.refreshToken id) = none)
    (hhash : ws (.tokenHash row.tokenHash) = none) :
    D.Triple t (fun w => At t ws c w ∧ F w) (insertRefreshToken row) (fun _ w => ∃ id, n ≤ id ∧
      At t ((ws.set (.refreshToken id) ⟨none, row⟩).set (.tokenHash row.tokenHash) ⟨none, id⟩) (c + 1) w ∧
      F w ∧ id + 1 ≤ w.db.seq .refreshTokens) fun e _ => φ e := by
  refine .bind (insertWithId_spec hD hF (.const hφ) hn hid) fun id => .pure_pre fun ⟨hn, _⟩ => ?_
  have hF' := hF.and (.seq_le .refreshTokens (id + 1))
  refine (insertOrFail_spec hD hF' (.const hφ) ?_).conseq (fun _ _ h => h) ?_ fun _ _ _ h => h
  · exact (Workspace.set_of_ne (by simp)).trans hhash
  · rintro _ w - ⟨-, hat, hf⟩
    exact ⟨id, hn, hat, hf⟩

theorem selectToken_spec {tokenHash : String} :
    D.Triple t (fun w => At t Workspace.empty 0 w ∧ F w) (selectToken tokenHash) (fun r w => match r with
      | none => True
      | some (id, current) => current.tokenHash = tokenHash ∧ At t (lockedToken id current) 1 w ∧ F w)
      fun e _ => φ e := by
  have hnone {P : AuthWorld T → Prop} : D.Triple t P (Prog.done (.ok none)) (fun r w => match r with
      | none => True
      | some (id, current) => current.tokenHash = tokenHash ∧ At t (lockedToken id current) 1 w ∧ F w)
      fun e _ => φ e := .pure .const fun _ _ _ => trivial
  refine .bind (statement_spec hD hF (.const hφ) (G := fun v w => ∀ p, View.tokenByHash v tokenHash = some p →
    ∃ row, w.db.committed (.refreshToken p.1) = some row) ?_ ?_) fun v => ?_
  · exact fun v => .each fun p => .imp fun _ => .present _
  · rintro w hi hat hf ⟨id, row⟩ hp
    exact ⟨row, hat.visible_of_none rfl ▸ View.row_of_tokenByHash hp⟩
  · cases hv : View.tokenByHash v tokenHash with
    | none => exact hnone
    | some p =>
      simp only
      have hF' : Kept D t fun w => F w ∧ ∃ row, w.db.committed (.refreshToken p.1) = some row := hF.and (.present _)
      refine (Discipline.Triple.bind (lock_spec (G := fun _ _ => True) hD hF' (.const hφ) rfl (fun _ _ h => h.2)
        (fun _ => .const) fun _ _ _ _ _ _ => trivial) fun r => .exists_pre fun current => .pure_pre ?_).pre
          fun w _ h => ⟨h.1, h.2.1, h.2.2 p rfl⟩
      rintro rfl
      simp only
      split
      · rename_i hhash
        refine .pure (.and .const (At.stable.and hF.stable)) ?_
        exact fun w _ h => ⟨hhash, h.1, h.2.1.1⟩
      · exact hnone

theorem selectTokenAndUser_spec {tokenHash : String} :
    D.Triple t (fun w => At t Workspace.empty 0 w ∧ F w) (selectTokenAndUser tokenHash) (fun r w => match r with
      | none => True
      | some (id, current, user) =>
        current.tokenHash = tokenHash ∧ At t (lockedTokenAndUser id current user) 1 w ∧ F w)
      fun e _ => φ e := by
  have hnone {P : AuthWorld T → Prop} : D.Triple t P (Prog.done (.ok none)) (fun r w => match r with
      | none => True
      | some (id, current, user) =>
        current.tokenHash = tokenHash ∧ At t (lockedTokenAndUser id current user) 1 w ∧ F w)
      fun e _ => φ e := .pure .const fun _ _ _ => trivial
  refine .bind (statement_spec hD hF (.const hφ) (G := fun v w =>
    (∀ p, View.tokenByHash v tokenHash = some p → ∃ row, w.db.committed (.refreshToken p.1) = some row) ∧
    ∀ id user, v.row (.user id) = some user → ∃ row, w.db.committed (.user id) = some row) ?_ ?_) fun v => ?_
  · exact fun v => .and (.each fun p => .imp fun _ => .present _)
      (.each fun id => .each fun user => .imp fun _ => .present _)
  · refine fun w hi hat hf => ⟨?_, fun id user huser => ⟨user, hat.visible_of_none rfl ▸ huser⟩⟩
    rintro ⟨id, row⟩ hp
    exact ⟨row, hat.visible_of_none rfl ▸ View.row_of_tokenByHash hp⟩
  · cases hv : View.tokenByHash v tokenHash with
    | none => exact hnone
    | some p =>
      simp only
      cases huser : v.row (.user p.2.userId) with
      | none => exact hnone
      | some seen =>
        simp only
        have hF' : Kept D t fun w => F w ∧ (∃ row, w.db.committed (.refreshToken p.1) = some row) ∧
          ∃ row, w.db.committed (.user p.2.userId) = some row := hF.and (.and (.present _) (.present _))
        refine (Discipline.Triple.bind (lock_spec (G := fun _ _ => True) hD hF' (.const hφ) rfl (fun _ _ h => h.2.1)
          (fun _ => .const) fun _ _ _ _ _ _ => trivial) fun r => .exists_pre fun current => .pure_pre ?_).pre
            fun w _ h => ⟨h.1, h.2.1, h.2.2.1 p rfl, h.2.2.2 _ _ huser⟩
        rintro rfl
        refine (Discipline.Triple.bind (lock_spec (G := fun _ _ => True) hD hF' (.const hφ)
          (Workspace.set_of_ne (by simp)) (fun _ _ h => h.2.2)
          (fun _ => .const) fun _ _ _ _ _ _ => trivial) fun r => .exists_pre fun user => .pure_pre ?_).pre
            fun w _ h => ⟨h.1, h.2.1⟩
        rintro rfl
        simp only
        split
        · rename_i hsame
          refine .pure (.and .const (At.stable.and hF.stable)) ?_
          refine fun w _ h => ⟨hsame.1, ?_, h.2.1.1⟩
          rw [lockedTokenAndUser, hsame.2]
          exact h.1
        · exact hnone

theorem revokeRows_spec {familyId : String} {now c : ℕ} {ids : List ℕ} (hnodup : ids.Nodup)
    (hrows : ∀ w, D.inv w → F w → ∀ id ∈ ids, ∃ row, w.db.committed (.refreshToken id) = some row ∧
      row.familyId = familyId) {ws : Workspace Key (Row T)} (hws : Unrevoked ids ws) :
    D.Triple t (fun w => At t ws c w ∧ F w) (revokeRows t familyId now ids)
      (fun _ w => ∃ ws', Revokes t ids ws ws' ∧ At t ws' c w ∧ F w) fun e _ => φ e := by
  induction ids generalizing ws with
  | nil =>
    refine .pure (.exists fun _ => .and .const (At.stable.and hF.stable)) ?_
    exact fun w _ h => ⟨ws, .nil, h⟩
  | cons id ids ih =>
    obtain ⟨hid, hnodup'⟩ := List.nodup_cons.mp hnodup
    have hrow : ∀ w, D.inv w → F w → ∃ row, w.db.committed (.refreshToken id) = some row ∧
        row.familyId = familyId := fun w hi hf => hrows w hi hf id (List.mem_cons_self ..)
    have hput {ws' : Workspace Key (Row T)} {row : RefreshTokenRow T}
        (hself : ws' (.refreshToken id) = some ⟨some row, row⟩)
        (hset : ∀ ch, ws'.set (.refreshToken id) ch = ws.set (.refreshToken id) ch)
        (hold : ∀ ch, ws (.refreshToken id) = some ch → ch.old = some row) (hfamily : row.familyId = familyId) :
        D.Triple t (fun w => At t ws' c w ∧ F w) (do
            if row.familyId = familyId then do
              put (Key.refreshToken id) (row.revoke t now)
              revokeRows t familyId now ids
            else revokeRows t familyId now ids)
          (fun _ w => ∃ ws', Revokes t (id :: ids) ws ws' ∧ At t ws' c w ∧ F w) fun e _ => φ e := by
      rw [if_pos hfamily]
      refine .bind (put_spec hD hF (.const hφ) hself) fun _ => ?_
      rw [hset]
      refine (ih hnodup' (fun w hi hf j hj => hrows w hi hf j (List.mem_cons_of_mem _ hj)) ?_).conseq
        (fun _ _ h => h) ?_ fun _ _ _ h => h
      · intro j hj
        rw [Workspace.set_of_ne (by rintro heq; cases heq; exact hid hj)]
        exact hws j (List.mem_cons_of_mem _ hj)
      · rintro _ w - ⟨ws'', hrev, h⟩
        exact ⟨ws'', hrev.cons hid hold, h⟩
    rcases hws id (List.mem_cons_self ..) with hfree | ⟨row, hown⟩
    · refine .bind (lock_spec hD hF (.const hφ) hfree (fun w hi hf => ?_) (G := fun row _ => row.familyId = familyId)
        (fun _ => .const) fun w row hi _ hf hc => ?_) fun r => .exists_pre fun row => .pure_pre ?_
      · obtain ⟨row, hc, -⟩ := hrow w hi hf
        exact ⟨row, hc⟩
      · obtain ⟨_, hc', hfamily⟩ := hrow w hi hf
        rw [hc] at hc'
        cases hc'
        exact hfamily
      · rintro rfl
        have hold (ch : Change (RefreshTokenRow T)) (hch : ws (.refreshToken id) = some ch) : ch.old = some row := by
          cases hfree.symm.trans hch
        exact fun w hi h => hput Workspace.set_self (fun _ => Workspace.set_set) hold h.2.2 w hi ⟨h.1, h.2.1⟩
    · refine .bind (lock_own_spec hD hF (.const hφ) hown) fun r => .pure_pre ?_
      rintro rfl
      intro w hi h
      obtain ⟨_, hc, hfamily⟩ := hrow w hi h.2
      rw [h.1.committed_old hown] at hc
      cases hc
      have hold (ch : Change (RefreshTokenRow T)) (hch : ws (.refreshToken id) = some ch) : ch.old = some row := by
        cases hown.symm.trans hch
        rfl
      exact hput hown (fun _ => rfl) hold hfamily w hi h

end Tokens

section Family

variable (hD : AuthCalm D) {F : AuthWorld T → Prop} {φ : Failure → Prop} (hF : Kept D t F) (hφ : φ .database)

include hD hF hφ

theorem revokeFamily_spec {familyId : String} {c : ℕ} {ws : Workspace Key (Row T)} {G : List ℕ → AuthWorld T → Prop}
    (hout : Outlasts D t F) (hG : ∀ ids, Kept D t (G ids))
    (h : ∀ w, D.inv w → At t ws c w → F w → G (View.family (w.db.snapshot t) familyId)
      ⟨w.db.setTxn t ⟨.inProgress, c + 1⟩, w.env⟩)
    (hrows : ∀ ids w, D.inv w → G ids w → ∀ id ∈ ids, ∃ row, w.db.committed (.refreshToken id) = some row ∧
      row.familyId = familyId) (hws : ∀ ids, Unrevoked ids ws) :
    D.Triple t (fun w => At t ws c w ∧ F w) (revokeFamily t familyId)
      (fun _ w => ∃ ids ws', Revokes t ids ws ws' ∧ At t ws' (c + 1) w ∧ F w ∧ G ids w) fun e _ => φ e := by
  refine .bind (draw_spec (o := .clock) hD (fun _ => .const) (At.outlasts.and hout)) fun now => ?_
  refine .bind (statement_spec hD.calm hF (.const hφ) (G := fun v => G (View.family v familyId)) (fun v => hG _)
    fun w hi hat hf => h w hi hat hf) fun v => ?_
  refine (revokeRows_spec hD.calm (hF.and (hG (View.family v familyId))) hφ (View.nodup_family v familyId)
    (fun w hi hf => hrows _ w hi hf.2) (hws _)).conseq (fun _ _ h => h) ?_ fun _ _ _ h => h
  rintro _ w - ⟨ws', hrev, hat⟩
  exact ⟨_, ws', hrev, hat⟩

end Family

end Marketplace
