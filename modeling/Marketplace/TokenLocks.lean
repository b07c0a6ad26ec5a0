import Marketplace.ReadCommitted.WaitFor
import Marketplace.TokenRuns

namespace Marketplace

open Concurrent ReadCommitted

variable {T : Type}

abbrev TokenPhase := Phase Serial Key (String × ℕ)

def tokenLabel : (k : Key) → Row T k → String × ℕ
  | .refreshToken _, row => (row.familyId, row.userId)
  | _, _ => ("", 0)

def tokenIds : Serial → ℕ → Option Key
  | .refreshTokens, n => some (.refreshToken n)
  | _, _ => none

structure FamilyView (view : View T) : Prop where
  bounded : ∀ id row, view.row (.refreshToken id) = some row → id < view.seq .refreshTokens
  users : ∀ id row id' row', view.row (.refreshToken id) = some row → view.row (.refreshToken id') = some row' →
    row.familyId = row'.familyId → row.userId = row'.userId

/-- The family `l` is being revoked: the rows that the UPDATE has seen are locked or ahead. -/
structure Revoking (l : String × ℕ) (ahead : ℕ → Prop) (z : TokenPhase) : Prop where
  inserted : ∀ k, ¬z.inserted k
  held : ∀ k, z.held k → k = .user l.2 ∨ ∃ i, k = .refreshToken i ∧ z.seen (.refreshToken i) l
  own : ∃ i, z.held (.refreshToken i)
  known : ∀ i, z.seen (.refreshToken i) l → z.known (.refreshToken i) l
  ahead : ∀ i, z.seen (.refreshToken i) l → z.held (.refreshToken i) ∨ ahead i

def Unindexed (z : TokenPhase) : Prop :=
  (∀ hash, ¬z.held (.tokenHash hash)) ∧ ∀ jti, ¬z.held (.accessTokenDenylist jti)

def AsksOutside (z : TokenPhase) : AuthAction T → Prop
  | .sql (.lock (.refreshToken i)) => (∀ k, ¬z.held k) ∨ z.held (.refreshToken i)
  | .sql (.lock (.user v)) =>
    (∀ k, ¬z.inserted k) ∧ ∃ i familyId, z.known (.refreshToken i) (familyId, v) ∧ ∀ k, z.held k → k = .refreshToken i
  | .sql (.lock (.accessTokenDenylist _)) => Unindexed z
  | .sql (.lock _) => False
  | .sql (.reserve (.refreshToken n) row) => z.fresh (.refreshToken n) ∧ Unindexed z ∧
      (z.held (.user row.userId) ∨ ∀ k, ¬z.held k)
  | .sql (.reserve (.tokenHash _) _) => Unindexed z
  | .sql (.reserve (.accessTokenDenylist _) _) => Unindexed z
  | .sql (.reserve _ _) => False
  | .sql (.put (.refreshToken _) _) => ∀ k, ¬z.inserted k
  | .sql (.put (.accessTokenDenylist _) _) => True
  | .sql (.put _ _) => False
  | _ => True

def tokenPolicy (T : Type) : Policy Serial Key (Row T) AuthOp (String × ℕ) where
  label := tokenLabel
  ids := tokenIds
  views z view := (∀ k, ¬z.inserted k) → FamilyView view
  allows z a ahead := AsksOutside z a ∨ ∃ i l, a = .sql (.lock (.refreshToken i)) ∧ z.seen (.refreshToken i) l ∧
    Revoking l (fun j => ahead (.refreshToken j)) z
  mono {z a A B} hAB h := by
    rcases h with h | ⟨i, l, ha, hseen, h⟩
    · exact .inl h
    · exact .inr ⟨i, l, ha, hseen, h.inserted, h.held, h.own, h.known, fun j hj => (h.ahead j hj).imp_right (hAB _)⟩

theorem tokenPolicy_draws : (tokenPolicy T).Draws := by
  constructor
  · intro q n q' n' k h h'
    cases q <;> cases h
    cases q' <;> cases h'
    exact ⟨rfl, rfl⟩
  · rintro z k r A (h | ⟨i, l, ha, -⟩) ⟨q, n, hk⟩
    · cases q <;> cases hk
      exact h.1
    · cases ha

section Programs

abbrev Policed {α : Type} (P : TokenPhase → Prop) (p : AuthCall T α) (G : α → TokenPhase → Prop) : Prop :=
  Obeys (tokenPolicy T) P p G

variable {P : TokenPhase → Prop} {l : String × ℕ} {id : ℕ} {z : TokenPhase}

theorem statement_permitted : (tokenPolicy T).Permits z (.sql .statement) := .inl trivial

theorem unchanged_policed {a : AuthAction T} (hasks : ∀ z, (tokenPolicy T).Permits z a)
    (hkeeps : ∀ z : TokenPhase, z.Keeps tokenLabel a)
    (hafter : ∀ (z : TokenPhase) r z', (tokenPolicy T).After z a (.ok r : Except Failure (a.Res AuthOp.Res)) z' →
      z' = z) :
    Policed P (Prog.perform a) fun _ => P :=
  .perform (fun z _ => hasks z) (fun z _ => hkeeps z) fun z r z' hz hz' => hafter z r z' hz' ▸ hz

theorem begin_policed : Policed P (begin : AuthCall T Unit) fun _ => P :=
  unchanged_policed (fun _ => .inl trivial) (fun _ => trivial) fun _ _ _ h => h

theorem drawing_policed (o : AuthOp) : Policed P (drawing o : AuthCall T o.Res) fun _ => P :=
  unchanged_policed (fun _ => .inl trivial) (fun _ => trivial) fun _ _ _ h => h

theorem commit_policed : Policed P (commit : AuthCall T Unit) fun _ _ => True :=
  .perform (fun _ _ => .inl trivial) (fun _ _ => trivial) fun _ _ _ _ _ => trivial

theorem rollback_policed : Policed P (rollback : AuthCall T Unit) fun _ _ => True :=
  .perform (fun _ _ => .inl trivial) (fun _ _ => trivial) fun _ _ _ _ _ => trivial

theorem signAccessToken_policed (crypto : AuthCrypto) (userId : ℕ) (role : UserRole) (familyId : String) :
    Policed P (signAccessToken crypto userId role familyId : AuthCall T String) fun _ => P :=
  .bind (drawing_policed _) fun _ => .bind (drawing_policed _) fun _ => .pure fun _ h => h

/-- A new token's row refers to a user that is locked, or it is the first row of its transaction. -/
def Inserting (userId : ℕ) (z : TokenPhase) : Prop := Unindexed z ∧ (z.held (.user userId) ∨ ∀ k, ¬z.held k)

theorem insertRefreshToken_policed (row : RefreshTokenRow T) :
    Policed (Inserting row.userId) (insertRefreshToken row : AuthCall T Unit) fun _ _ => True := by
  refine .bind (insertWithId_obeys (G := fun _ => Unindexed) (fun _ => statement_permitted) (fun _ _ h => h)
    (fun _ => .inl trivial) ?_ ?_) fun id => ?_
  · exact fun z n h _ => .inl ⟨.inl rfl, h.1, h.2⟩
  · intro z n h _
    constructor
    · rintro hash (hk | hk)
      · cases hk
      · exact h.1.1 hash hk
    · rintro jti (hk | hk)
      · cases hk
      · exact h.1.2 jti hk
  · exact insertOrFail_obeys (G := fun _ => True) (fun z h => .inl h) fun _ _ => trivial

structure LocksToken (id : ℕ) (l : String × ℕ) (z : TokenPhase) : Prop where
  inserted : ∀ k, ¬z.inserted k
  held : ∀ k, z.held k → k = .user l.2 ∨ k = .refreshToken id
  own : z.held (.refreshToken id)
  known : z.known (.refreshToken id) l

namespace LocksToken

theorem see (h : LocksToken id l z) (view : View T) : LocksToken id l (z.see tokenLabel view) :=
  ⟨h.inserted, h.held, h.own, .inr h.known⟩

theorem unindexed (h : LocksToken id l z) : Unindexed z := by
  constructor
  · rintro hash hk
    rcases h.held _ hk with hk | hk <;> cases hk
  · rintro jti hk
    rcases h.held _ hk with hk | hk <;> cases hk

theorem take_own (h : LocksToken id l z) (l' : String × ℕ) : LocksToken id l (z.take (.refreshToken id) l') := by
  refine ⟨h.inserted, ?_, .inr h.own, .inr h.known⟩
  rintro k (rfl | hk)
  · exact .inr rfl
  · exact h.held k hk

end LocksToken

structure Unlocked (z : TokenPhase) : Prop where
  inserted : ∀ k, ¬z.inserted k
  held : ∀ k, ¬z.held k

theorem Unlocked.take (h : Unlocked z) : LocksToken id l (z.take (.refreshToken id) l) :=
  ⟨h.inserted, fun k hk => .inr (hk.resolve_right (h.held k)), .inl rfl, .inl ⟨rfl, rfl⟩⟩

theorem lockToken_policed (id : ℕ) {G : Option (RefreshTokenRow T) → TokenPhase → Prop} (hP : ∀ z, P z → Unlocked z)
    (hnone : ∀ z, P z → G none z)
    (hsome : ∀ z row, P z → G (some row) (z.take (.refreshToken id) (row.familyId, row.userId))) :
    Policed P (lock (Key.refreshToken id) : AuthCall T (Option (RefreshTokenRow T))) G :=
  lock_obeys (fun z h => .inl (.inl (hP z h).held)) hnone hsome

theorem selectToken_policed (tokenHash : String) :
    Policed Unlocked (selectToken tokenHash : AuthCall T _) fun r z =>
      ∀ id row, r = some (id, row) → LocksToken id (row.familyId, row.userId) z := by
  refine .bind (statement_kept (fun _ => statement_permitted) fun _ _ h => ⟨h.inserted, h.held⟩) fun view => ?_
  split
  · exact .pure fun _ _ _ _ h => by cases h
  rename_i id seen _
  refine .bind (lockToken_policed (P := Unlocked) id (G := fun r z => ∀ row, r = some row →
    LocksToken id (row.familyId, row.userId) z) (fun _ h => h) (fun _ _ _ h => by cases h) ?_) fun current => ?_
  · rintro z row hz _ h
    cases h
    exact hz.take
  cases current with
  | none => exact .pure fun _ _ _ _ h => by cases h
  | some current =>
    dsimp only
    split
    · refine .pure ?_
      rintro z hz _ _ h
      cases h
      exact hz current rfl
    · exact .pure fun _ _ _ _ h => by cases h

structure Asked (id : ℕ) (l : String × ℕ) (current : Option (RefreshTokenRow T)) (z : TokenPhase) : Prop where
  inserted : ∀ k, ¬z.inserted k
  held : ∀ k, z.held k → k = .refreshToken id
  shown : z.known (.refreshToken id) l
  known : ∀ row, current = some row → z.held (.refreshToken id) ∧ z.known (.refreshToken id) (row.familyId, row.userId)

theorem selectTokenAndUser_policed (tokenHash : String) :
    Policed Unlocked (selectTokenAndUser tokenHash : AuthCall T _) fun r z =>
      ∀ id row user, r = some (id, row, user) → LocksToken id (row.familyId, row.userId) z ∧
      z.held (.user row.userId) := by
  refine .bind (statement_obeys fun _ => statement_permitted) fun view => ?_
  split
  · exact .pure fun _ _ _ _ _ h => by cases h
  rename_i id seen hseen
  have hrow := View.row_of_tokenByHash hseen
  split
  · exact .pure fun _ _ _ _ _ h => by cases h
  rename_i user _
  have hshown : ∀ z : TokenPhase, (∃ z', Unlocked z' ∧ (∀ k l, z'.known k l → Phase.Shown tokenLabel view k l) ∧
      (tokenPolicy T).views z' view ∧ z = z'.see tokenLabel view) →
      Unlocked z ∧ z.known (.refreshToken id) (seen.familyId, seen.userId) := by
    rintro z ⟨z', hz, -, -, rfl⟩
    exact ⟨⟨hz.inserted, hz.held⟩, .inl ⟨seen, hrow, rfl⟩⟩
  refine .pre (.bind (lockToken_policed
    (P := fun z => Unlocked z ∧ z.known (.refreshToken id) (seen.familyId, seen.userId))
    id (G := Asked id (seen.familyId, seen.userId)) (fun _ h => h.1) ?_ ?_) fun current => ?_) hshown
  · exact fun z h => ⟨h.1.inserted, fun k hk => (h.1.held k hk).elim, h.2, fun _ h => by cases h⟩
  · intro z row h
    refine ⟨h.1.inserted, fun k hk => hk.resolve_right (h.1.held k), .inr h.2, ?_⟩
    rintro _ hrow
    cases hrow
    exact ⟨.inl rfl, .inl ⟨rfl, rfl⟩⟩
  refine .bind (lock_obeys (G := fun user z => ∀ row, current = some row → row.userId = seen.userId → user.isSome →
    LocksToken id (row.familyId, row.userId) z ∧ z.held (.user row.userId)) ?_ ?_ ?_) fun user => ?_
  · refine fun z h => .inl ⟨h.inserted, id, seen.familyId, h.shown, h.held⟩
  · exact fun _ _ _ _ _ h => by cases h
  · rintro z user h row hrow huser -
    obtain ⟨hown, hknown⟩ := h.known row hrow
    refine ⟨⟨h.inserted, ?_, .inr hown, .inr hknown⟩, .inl (by rw [huser])⟩
    rintro k (rfl | hk)
    · exact .inl (by rw [huser])
    · exact .inr (h.held k hk)
  cases current with
  | none => exact .pure fun _ _ _ _ _ h => by cases h
  | some current =>
    cases user with
    | none => exact .pure fun _ _ _ _ _ h => by cases h
    | some user =>
      dsimp only
      split
      · rename_i hsame
        refine .pure ?_
        rintro z hz _ _ _ h
        cases h
        exact hz current rfl hsame.2 rfl
      · exact .pure fun _ _ _ _ _ h => by cases h

theorem locksAhead_revokeRows (self : T) (familyId : String) (now : ℕ) {ids : List ℕ} {i : ℕ} (hi : i ∈ ids) :
    Key.refreshToken i ∈ locksAhead (revokeRows self familyId now ids : AuthCall T Unit) := by
  induction ids with
  | nil => cases hi
  | cons id ids ih =>
    rcases List.mem_cons.mp hi with rfl | hi
    · exact List.mem_cons_self
    · exact List.mem_cons_of_mem _ (ih hi)

namespace Revoking

variable {ahead ahead' : ℕ → Prop}

theorem mono (h : Revoking l ahead z) (hahead : ∀ i, ahead i → ahead' i) : Revoking l ahead' z :=
  ⟨h.inserted, h.held, h.own, h.known, fun i hi => (h.ahead i hi).imp_right (hahead i)⟩

theorem unindexed (h : Revoking l ahead z) : Unindexed z := by
  constructor
  · rintro hash hk
    rcases h.held _ hk with hk | ⟨i, hk, -⟩ <;> cases hk
  · rintro jti hk
    rcases h.held _ hk with hk | ⟨i, hk, -⟩ <;> cases hk

theorem own_seen (h : Revoking l ahead z) : ∃ i, z.held (.refreshToken i) ∧ z.seen (.refreshToken i) l := by
  obtain ⟨i, hi⟩ := h.own
  rcases h.held _ hi with hk | ⟨j, hk, hseen⟩
  · cases hk
  · cases hk
    exact ⟨_, hi, hseen⟩

theorem take {ids : List ℕ} {l' : String × ℕ} (h : Revoking l (· ∈ id :: ids) z) (hseen : z.seen (.refreshToken id) l) :
    Revoking l (· ∈ ids) (z.take (.refreshToken id) l') := by
  refine ⟨h.inserted, ?_, ⟨id, .inl rfl⟩, fun i hi => .inr (h.known i hi), fun i hi => ?_⟩
  · rintro k (rfl | hk)
    · exact .inr ⟨id, rfl, hseen⟩
    · exact h.held k hk
  · rcases h.ahead i hi with hheld | hahead
    · exact .inl (.inr hheld)
    · rcases List.mem_cons.mp hahead with rfl | hahead
      · exact .inl (.inl rfl)
      · exact .inr hahead

end Revoking

theorem revokeRows_policed (self : T) (now : ℕ) (ids : List ℕ) :
    Policed (fun z => Revoking l (· ∈ ids) z ∧ ∀ i ∈ ids, z.seen (.refreshToken i) l)
      (revokeRows self l.1 now ids : AuthCall T Unit) fun _ => Unindexed := by
  induction ids with
  | nil => exact .pure fun _ h => h.1.unindexed
  | cons id ids ih =>
    rintro z ⟨hr, hseen⟩
    have hid : z.seen (.refreshToken id) l := hseen id List.mem_cons_self
    have hids : ∀ i ∈ ids, z.seen (.refreshToken i) l := fun i hi => hseen i (List.mem_cons_of_mem _ hi)
    refine ⟨.inr ⟨id, l, rfl, hid, hr.mono fun i => locksAhead_revokeRows self l.1 now⟩, trivial, fun r z' hz' => ?_⟩
    rcases r with e | _ | latest
    · trivial
    · exact absurd (hr.known id hid) (hz'.2 l)
    obtain rfl : z' = z.take (.refreshToken id) (latest.familyId, latest.userId) := hz'
    have hnext : Follows (tokenPolicy T) (Ends fun _ => Unindexed)
      (z.take (.refreshToken id) (latest.familyId, latest.userId))
        (revokeRows self l.1 now ids) := ih _ ⟨hr.take hid, hids⟩
    change Follows (tokenPolicy T) (Ends fun _ => Unindexed) _ (if latest.familyId = l.1 then _ else _)
    split
    · refine ⟨.inl hr.inserted, ⟨.inl rfl, .inl ⟨rfl, rfl⟩⟩, fun r z' hz' => ?_⟩
      obtain rfl : z' = _ := hz'
      cases r with
      | ok _ => exact hnext
      | error e => trivial
    · exact hnext

theorem revokeFamily_policed (self : T) :
    Policed (LocksToken id l) (revokeFamily self l.1 : AuthCall T Unit) fun _ => Unindexed := by
  refine .bind (drawing_policed .clock) fun now => .bind (statement_obeys fun _ => statement_permitted) fun view => ?_
  refine .pre (revokeRows_policed (l := l) self now _) ?_
  rintro _ ⟨z, hz, hknown, hview, rfl⟩
  have hfamily : FamilyView view := hview hz.inserted
  obtain ⟨own, hown, howner⟩ := hknown _ l hz.known
  have hseen : ∀ i, Phase.Shown tokenLabel view (.refreshToken i) l ↔ i ∈ View.family view l.1 := by
    intro i
    rw [View.mem_family]
    constructor
    · rintro ⟨row, hrow, hlabel⟩
      exact ⟨hfamily.bounded i row hrow, row, hrow, congrArg Prod.fst hlabel⟩
    · rintro ⟨-, row, hrow, hrowFamily⟩
      refine ⟨row, hrow, Prod.ext hrowFamily ?_⟩
      have howner' : own.familyId = l.1 ∧ own.userId = l.2 := ⟨congrArg Prod.fst howner, congrArg Prod.snd howner⟩
      exact (hfamily.users i row id own hrow hown (hrowFamily.trans howner'.1.symm)).trans howner'.2
  refine ⟨⟨hz.inserted, ?_, ⟨id, hz.own⟩, fun i hi => .inl hi, fun i hi => .inr ((hseen i).mp hi)⟩,
    fun i hi => (hseen i).mpr hi⟩
  intro k hk
  rcases hz.held k hk with rfl | rfl
  · exact .inl rfl
  · exact .inr ⟨id, rfl, own, hown, howner⟩

variable {userId : ℕ}

theorem abandon_policed {α : Type} {G : α → TokenPhase → Prop} (error : Failure) :
    Policed P (rollback >>= fun _ => (throw error : AuthCall T α)) G :=
  .bind rollback_policed fun _ => .throw

theorem useToken_policed (f : RefreshTokenRow T → RefreshTokenRow T) (hf : ∀ row, (f row).familyId = row.familyId ∧
    (f row).userId = row.userId) :
    Policed (fun z => LocksToken id l z ∧ z.held (.user l.2))
    (update (Key.refreshToken id) (fun _ => true) f : AuthCall T _)
      fun _ z => LocksToken id l z ∧ z.held (.user l.2) := by
  refine updateWhere_obeys (fun _ => statement_permitted) (fun _ view h => ⟨h.1.see view, h.2⟩) ?_ ?_ ?_ ?_ ?_
  · exact fun row => Prod.ext (hf row).1 (hf row).2
  · exact fun z h => .inl (.inr h.1.own)
  · exact fun z row h => .inl h.1.inserted
  · exact fun z h => h
  · exact fun z row h => ⟨h.1.take_own _, .inr h.2⟩

theorem refresh_policed (crypto : AuthCrypto) (self : T) (refreshToken : String) :
    Policed Unlocked (refresh crypto self refreshToken) fun _ _ => True := by
  refine .bind begin_policed fun _ => .bind (G := fun _ _ => True) (.handle ?_ fun error => abandon_policed error)
    fun response => ?_
  · refine .bind (selectTokenAndUser_policed _) fun selected => ?_
    rcases selected with _ | ⟨id, current, user⟩
    · exact .throw
    refine .pre (P := fun z => LocksToken id (current.familyId, current.userId) z ∧ z.held (.user current.userId)) ?_
      fun z h => h id current user rfl
    refine .bind (drawing_policed .clock) fun now => ?_
    split
    · exact .throw
    split
    · refine .bind ((revokeFamily_policed (l := (current.familyId, current.userId)) self).pre fun z h => h.1)
        fun _ => ?_
      exact .bind commit_policed fun _ => .pure fun _ _ => trivial
    · refine .bind (drawing_policed .clock) fun usedAt => ?_
      refine .bind (useToken_policed (l := (current.familyId, current.userId)) _ fun row => ⟨rfl, rfl⟩) fun _ => ?_
      refine .bind (drawing_policed .createRefreshToken) fun newRefreshToken => ?_
      refine .bind (signAccessToken_policed crypto _ _ _) fun access => .bind (drawing_policed .clock)
        fun issuedAt => ?_
      refine .bind (.pre (insertRefreshToken_policed _) fun z h => ⟨h.1.unindexed, .inl h.2⟩) fun _ => ?_
      exact .bind commit_policed fun _ => .pure fun _ _ => trivial
  · cases response with
    | none => exact .throw
    | some response => exact .pure fun _ _ => trivial

theorem logout_policed (crypto : AuthCrypto) (self : T) (accessToken refreshToken : String) :
    Policed Unlocked (logout crypto self accessToken refreshToken) fun _ _ => True := by
  refine .bind (drawing_policed .clock) fun verifiedAt => ?_
  dsimp only
  split
  · exact .throw
  refine .bind begin_policed fun _ => .handle ?_ fun error => abandon_policed error
  refine .bind (selectToken_policed _) fun selected => ?_
  rcases selected with _ | ⟨id, current⟩
  · exact .throw
  refine .pre (P := LocksToken id (current.familyId, current.userId)) ?_ fun z h => h id current rfl
  dsimp only
  split
  · exact .throw
  refine .bind (revokeFamily_policed (l := (current.familyId, current.userId)) self) fun _ => ?_
  refine .bind (drawing_policed .clock) fun now => ?_
  split
  · refine .bind (insertOrUpdate_obeys (G := fun _ => True) (fun _ => statement_permitted) (fun _ _ h => h)
      (fun _ => rfl)
      ?_ ?_ ?_ ?_ ?_) fun _ => commit_policed
    · exact fun z h => .inl h
    · exact fun z h => .inl h
    · exact fun z row h => .inl trivial
    · exact fun z h => trivial
    · exact fun z row h => trivial
  · exact commit_policed

theorem insertFresh_policed (row : RefreshTokenRow T) :
    Policed Unlocked (autocommit (insertRefreshToken row) : AuthCall T Unit) fun _ _ => True := by
  refine .bind begin_policed fun _ => .handle ?_ fun error => ?_
  · refine .bind (.pre (insertRefreshToken_policed row) fun z h => ⟨⟨?_, ?_⟩, .inr h.held⟩) fun _ => ?_
    · exact fun hash => h.held _
    · exact fun jti => h.held _
    · exact .bind commit_policed fun _ => .pure fun _ _ => trivial
  · refine .bind (G := fun _ _ => True) (.handle rollback_policed fun _ => ?_) fun _ => .throw
    exact .pure fun _ _ => trivial

theorem login_policed (crypto : AuthCrypto) (input : LoginInput) :
    Policed Unlocked (login crypto input : AuthCall T AuthResponse) fun _ _ => True := by
  refine .bind (statement_kept (fun _ => statement_permitted) fun _ _ h => ⟨h.inserted, h.held⟩) fun view => ?_
  split
  · exact .throw
  split
  · exact .throw
  split
  · exact .throw
  split
  · refine .bind (drawing_policed .randomUUID) fun familyId => .bind (drawing_policed .createRefreshToken) fun _ => ?_
    refine .bind (signAccessToken_policed crypto _ _ _) fun access => .bind (drawing_policed .clock) fun now => ?_
    exact .bind (insertFresh_policed _) fun _ => .pure fun _ _ => trivial
  · exact .throw

theorem TokenCall.run_policed (crypto : AuthCrypto) (self : T) (call : TokenCall) :
    Policed Unlocked (call.run crypto self) fun _ _ => True := by
  cases call with
  | login input => exact .bind (login_policed crypto input) fun _ => .pure fun _ _ => trivial
  | refresh refreshToken => exact .bind (refresh_policed crypto self refreshToken) fun _ => .pure fun _ _ => trivial
  | logout accessToken refreshToken =>
    exact .bind (logout_policed crypto self accessToken refreshToken) fun _ => .pure fun _ _ => trivial

end Programs

end Marketplace
