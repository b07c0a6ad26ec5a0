import Mathlib.Data.Option.Basic
import Marketplace.TokenTransaction

namespace Marketplace

open Concurrent ReadCommitted

variable {T : Type}

/-- What no statement takes back from a row of `refresh_tokens`. -/
structure RowKept (old new : RefreshTokenRow T) : Prop where
  tokenHash : new.tokenHash = old.tokenHash
  familyId : new.familyId = old.familyId
  userId : new.userId = old.userId
  usedAt : ∀ time, old.usedAt = some time → new.usedAt = some time
  usedBy : new.usedAt = old.usedAt → new.usedBy = old.usedBy
  revokedAt : ∀ time, old.revokedAt = some time → new.revokedAt = some time
  revokedBy : ∀ t ∈ old.revokedBy, t ∈ new.revokedBy

namespace RowKept

theorem refl (row : RefreshTokenRow T) : RowKept row row :=
  ⟨rfl, rfl, rfl, fun _ h => h, fun _ => rfl, fun _ h => h, fun _ h => h⟩

theorem trans {row row' row'' : RefreshTokenRow T} (h : RowKept row row') (h' : RowKept row' row'') :
    RowKept row row'' := by
  refine ⟨h'.tokenHash.trans h.tokenHash, h'.familyId.trans h.familyId, h'.userId.trans h.userId,
    fun time ht => h'.usedAt time (h.usedAt time ht), fun hused => ?_,
    fun time ht => h'.revokedAt time (h.revokedAt time ht), fun t ht => h'.revokedBy t (h.revokedBy t ht)⟩
  have hmid : row'.usedAt = row.usedAt := by
    cases hrow : row.usedAt with
    | some time => exact h.usedAt time hrow
    | none =>
      cases hrow' : row'.usedAt with
      | none => rfl
      | some time =>
        rw [hrow, h'.usedAt time hrow'] at hused
        cases hused
  rw [h'.usedBy (hused.trans hmid.symm), h.usedBy hmid]

theorem revoke (t : T) (now : ℕ) (row : RefreshTokenRow T) : RowKept row (row.revoke t now) := by
  refine ⟨rfl, rfl, rfl, fun _ h => h, fun _ => rfl, fun time h => ?_, fun _ h => List.mem_cons_of_mem _ h⟩
  simp [RefreshTokenRow.revoke, h]

theorem use {row : RefreshTokenRow T} (h : row.usedAt = none) (t : T) (now : ℕ) : RowKept row (row.use t now) := by
  refine ⟨rfl, rfl, rfl, ?_, ?_, fun _ h => h, fun _ h => h⟩
  · intro time ht
    rw [h] at ht
    cases ht
  · intro hused
    rw [h] at hused
    cases hused

theorem unused {row row' : RefreshTokenRow T} (h : RowKept row row') (hunused : row'.usedAt = none) :
    row.usedAt = none := by
  cases hrow : row.usedAt with
  | none => rfl
  | some time =>
    rw [h.usedAt time hrow] at hunused
    cases hunused

theorem revoked {row row' : RefreshTokenRow T} (h : RowKept row row') (hrevoked : row.revokedAt ≠ none) :
    row'.revokedAt ≠ none := by
  obtain ⟨time, ht⟩ := Option.ne_none_iff_exists'.mp hrevoked
  rw [h.revokedAt time ht]
  exact Option.some_ne_none time

end RowKept

structure Rewritten (old new : Tables T) : Prop where
  kept : ∀ id row, old (.refreshToken id) = some row → ∃ row', new (.refreshToken id) = some row' ∧ RowKept row row'
  from_old : ∀ id row', new (.refreshToken id) = some row' → ∃ row, old (.refreshToken id) = some row ∧ RowKept row row'
  hashes : ∀ hash, new (.tokenHash hash) = old (.tokenHash hash)

structure Issued (id : ℕ) (row : RefreshTokenRow T) (old new : Tables T) : Prop where
  row_old : old (.refreshToken id) = none
  hash_old : old (.tokenHash row.tokenHash) = none
  row_new : new (.refreshToken id) = some row
  hash_new : new (.tokenHash row.tokenHash) = some id
  rows : ∀ j, j ≠ id → new (.refreshToken j) = old (.refreshToken j)
  hashes : ∀ hash, hash ≠ row.tokenHash → new (.tokenHash hash) = old (.tokenHash hash)

namespace Issued

variable {old new : Tables T} {id j : ℕ} {row other : RefreshTokenRow T}

theorem kept (h : Issued id row old new) (hj : old (.refreshToken j) = some other) :
    new (.refreshToken j) = some other := by
  refine (h.rows j ?_).trans hj
  rintro rfl
  rw [h.row_old] at hj
  cases hj

theorem row_cases (h : Issued id row old new) (hj : new (.refreshToken j) = some other) :
    old (.refreshToken j) = some other ∨ j = id ∧ other = row := by
  by_cases hid : j = id
  · subst hid
    rw [h.row_new] at hj
    cases hj
    exact .inr ⟨rfl, rfl⟩
  · exact .inl ((h.rows j hid).symm.trans hj)

theorem kept_hash (h : Issued id row old new) {hash : String} (hj : old (.tokenHash hash) = some j) :
    new (.tokenHash hash) = some j := by
  refine (h.hashes hash ?_).trans hj
  rintro rfl
  rw [h.hash_old] at hj
  cases hj

end Issued

structure TokenTables (tables : Tables T) (bound : ℕ) (uuids : List (Drawn T)) : Prop where
  bounded : ∀ id row, tables (.refreshToken id) = some row → id < bound
  indexed : ∀ id row, tables (.refreshToken id) = some row → tables (.tokenHash row.tokenHash) = some id
  hashed : ∀ hash id, tables (.tokenHash hash) = some id →
    ∃ row, tables (.refreshToken id) = some row ∧ row.tokenHash = hash
  drawn : ∀ id row, tables (.refreshToken id) = some row → ∃ d ∈ uuids, d.uuid = row.familyId
  users : ∀ id row id' row', tables (.refreshToken id) = some row → tables (.refreshToken id') = some row' →
    row.familyId = row'.familyId → row.userId = row'.userId
  unused : ∀ id row, tables (.refreshToken id) = some row → row.usedAt = none → row.usedBy = none

namespace TokenTables

variable {old new : Tables T} {bound : ℕ} {uuids : List (Drawn T)} {id : ℕ} {row : RefreshTokenRow T}

theorem rewrite (h : TokenTables old bound uuids) (hr : Rewritten old new) : TokenTables new bound uuids := by
  constructor
  · intro id row' hrow'
    obtain ⟨row, hrow, -⟩ := hr.from_old id row' hrow'
    exact h.bounded id row hrow
  · intro id row' hrow'
    obtain ⟨row, hrow, hkept⟩ := hr.from_old id row' hrow'
    rw [hkept.tokenHash, hr.hashes]
    exact h.indexed id row hrow
  · intro hash id hid
    rw [hr.hashes] at hid
    obtain ⟨row, hrow, hhash⟩ := h.hashed hash id hid
    obtain ⟨row', hrow', hkept⟩ := hr.kept id row hrow
    exact ⟨row', hrow', hkept.tokenHash.trans hhash⟩
  · intro id row' hrow'
    obtain ⟨row, hrow, hkept⟩ := hr.from_old id row' hrow'
    rw [hkept.familyId]
    exact h.drawn id row hrow
  · intro id row' id' other' hrow' hother' hfamily
    obtain ⟨row, hrow, hkept⟩ := hr.from_old id row' hrow'
    obtain ⟨other, hother, hkept'⟩ := hr.from_old id' other' hother'
    rw [hkept.familyId, hkept'.familyId] at hfamily
    rw [hkept.userId, hkept'.userId]
    exact h.users id row id' other hrow hother hfamily
  · intro id row' hrow' hunused
    obtain ⟨row, hrow, hkept⟩ := hr.from_old id row' hrow'
    have hunused' := hkept.unused hunused
    rw [hkept.usedBy (hunused.trans hunused'.symm)]
    exact h.unused id row hrow hunused'

theorem issue (h : TokenTables old bound uuids) (hi : Issued id row old new) (hid : id < bound)
    (hdrawn : ∃ d ∈ uuids, d.uuid = row.familyId)
    (huser : ∀ j other, old (.refreshToken j) = some other → other.familyId = row.familyId → other.userId = row.userId)
    (hunused : row.usedBy = none) : TokenTables new bound uuids := by
  constructor
  · intro j other hj
    rcases hi.row_cases hj with hj | ⟨rfl, rfl⟩
    · exact h.bounded j other hj
    · exact hid
  · intro j other hj
    rcases hi.row_cases hj with hj | ⟨rfl, rfl⟩
    · exact hi.kept_hash (h.indexed j other hj)
    · exact hi.hash_new
  · intro hash j hj
    by_cases hhash : hash = row.tokenHash
    · subst hhash
      rw [hi.hash_new] at hj
      cases hj
      exact ⟨row, hi.row_new, rfl⟩
    · rw [hi.hashes hash hhash] at hj
      obtain ⟨other, hother, hhash'⟩ := h.hashed hash j hj
      exact ⟨other, hi.kept hother, hhash'⟩
  · intro j other hj
    rcases hi.row_cases hj with hj | ⟨rfl, rfl⟩
    · exact h.drawn j other hj
    · exact hdrawn
  · intro j other j' other' hj hj' hfamily
    rcases hi.row_cases hj with hj | ⟨rfl, rfl⟩
    · rcases hi.row_cases hj' with hj' | ⟨rfl, rfl⟩
      · exact h.users j other j' other' hj hj' hfamily
      · exact huser j other hj hfamily
    · rcases hi.row_cases hj' with hj' | ⟨rfl, rfl⟩
      · exact (huser j' other' hj' hfamily.symm).symm
      · rfl
  · intro j other hj
    rcases hi.row_cases hj with hj | ⟨rfl, rfl⟩
    · exact h.unused j other hj
    · exact fun _ => hunused

theorem mono (h : TokenTables old bound uuids) {bound' : ℕ} {uuids' : List (Drawn T)} (hbound : bound ≤ bound')
    (huuids : ∀ d ∈ uuids, d ∈ uuids') : TokenTables old bound' uuids' := by
  refine ⟨fun id row hrow => Nat.lt_of_lt_of_le (h.bounded id row hrow) hbound, h.indexed, h.hashed,
    fun id row hrow => ?_, h.users, h.unused⟩
  obtain ⟨d, hd, huuid⟩ := h.drawn id row hrow
  exact ⟨d, huuids d hd, huuid⟩

end TokenTables

/-- Every family has one unused token, and a revocation by a call in `final` covers the whole family. -/
structure LiveFamilies (final : T → Prop) (tables : Tables T) : Prop where
  live : ∀ id row, tables (.refreshToken id) = some row →
    ∃ id' row', tables (.refreshToken id') = some row' ∧ row'.familyId = row.familyId ∧ row'.usedAt = none
  unique : ∀ id row id' row', tables (.refreshToken id) = some row → tables (.refreshToken id') = some row' →
    row.familyId = row'.familyId → row.usedAt = none → row'.usedAt = none → id = id'
  final : ∀ id row t, tables (.refreshToken id) = some row → t ∈ row.revokedBy → final t →
    ∀ id' row', tables (.refreshToken id') = some row' → row'.familyId = row.familyId → row'.revokedAt ≠ none

def Finished (final : T → Prop) (tables : Tables T) (familyId : String) : Prop :=
  ∃ id row t, tables (.refreshToken id) = some row ∧ row.familyId = familyId ∧ t ∈ row.revokedBy ∧ final t

structure Rotated (t : T) (id : ℕ) (current : RefreshTokenRow T) (now newId : ℕ) (row : RefreshTokenRow T)
    (old mid new : Tables T) : Prop where
  current_old : old (.refreshToken id) = some current
  current_mid : mid (.refreshToken id) = some (current.use t now)
  others : ∀ j, j ≠ id → mid (.refreshToken j) = old (.refreshToken j)
  hashes : ∀ hash, mid (.tokenHash hash) = old (.tokenHash hash)
  issued : Issued newId row mid new
  familyId : row.familyId = current.familyId
  userId : row.userId = current.userId
  usedAt : row.usedAt = none
  usedBy : row.usedBy = none
  revokedBy : row.revokedBy = []
  unused : current.usedAt = none
  unrevoked : current.revokedAt = none

structure FamilyRevoked (t : T) (familyId : String) (ids : List ℕ) (old new : Tables T) : Prop where
  rows : ∀ id ∈ ids, ∃ row now, old (.refreshToken id) = some row ∧ row.familyId = familyId ∧
    new (.refreshToken id) = some (row.revoke t now)
  others : ∀ id, id ∉ ids → new (.refreshToken id) = old (.refreshToken id)
  hashes : ∀ hash, new (.tokenHash hash) = old (.tokenHash hash)

section Commits

variable {t : T} {final : T → Prop} {old mid new : Tables T} {id now newId : ℕ} {current row : RefreshTokenRow T}
  {familyId : String} {ids : List ℕ} {bound : ℕ} {uuids : List (Drawn T)}

theorem Rotated.rewritten (h : Rotated t id current now newId row old mid new) : Rewritten old mid := by
  refine ⟨fun j other hj => ?_, fun j other hj => ?_, h.hashes⟩
  · by_cases hid : j = id
    · subst hid
      rw [h.current_old] at hj
      cases hj
      exact ⟨_, h.current_mid, .use h.unused t now⟩
    · exact ⟨other, (h.others j hid).trans hj, .refl other⟩
  · by_cases hid : j = id
    · subst hid
      rw [h.current_mid] at hj
      cases hj
      exact ⟨_, h.current_old, .use h.unused t now⟩
    · exact ⟨other, (h.others j hid).symm.trans hj, .refl other⟩

theorem Rotated.row_cases (h : Rotated t id current now newId row old mid new) {j : ℕ} {other : RefreshTokenRow T}
    (hj : new (.refreshToken j) = some other) : (j ≠ id ∧ old (.refreshToken j) = some other) ∨
      (j = id ∧ other = current.use t now) ∨ j = newId ∧ other = row := by
  rcases h.issued.row_cases hj with hj | hj
  · by_cases hid : j = id
    · subst hid
      rw [h.current_mid] at hj
      cases hj
      exact .inr (.inl ⟨rfl, rfl⟩)
    · exact .inl ⟨hid, (h.others j hid).symm.trans hj⟩
  · exact .inr (.inr hj)

theorem Rotated.keeps (h : Rotated t id current now newId row old mid new) {j : ℕ} {other : RefreshTokenRow T}
    (hj : old (.refreshToken j) = some other) (hid : j ≠ id) : new (.refreshToken j) = some other :=
  h.issued.kept ((h.others j hid).trans hj)

theorem Rotated.current_new (h : Rotated t id current now newId row old mid new) :
    new (.refreshToken id) = some (current.use t now) := h.issued.kept h.current_mid

theorem Rotated.unfinished (h : Rotated t id current now newId row old mid new) (hl : LiveFamilies final old) :
    ¬Finished final old current.familyId := by
  rintro ⟨j, other, t', hj, hfamily, ht', hfinal⟩
  exact hl.final j other t' hj ht' hfinal id current h.current_old hfamily.symm h.unrevoked

theorem Rotated.tables (h : Rotated t id current now newId row old mid new) (htables : TokenTables old bound uuids)
    (hbound : newId < bound) : TokenTables new bound uuids := by
  refine (htables.rewrite h.rewritten).issue h.issued hbound ?_ ?_ h.usedBy
  · rw [h.familyId]
    exact htables.drawn id current h.current_old
  · intro j other hj hfamily
    have hmid := htables.rewrite h.rewritten
    rw [h.userId]
    exact hmid.users j other id (current.use t now) hj h.current_mid (hfamily.trans h.familyId)

theorem Rotated.live (h : Rotated t id current now newId row old mid new) (hl : LiveFamilies final old) :
    LiveFamilies final new := by
  have hcurrent {j : ℕ} {other : RefreshTokenRow T} (hj : old (.refreshToken j) = some other) (hne : j ≠ id)
      (hunused : other.usedAt = none) : other.familyId ≠ current.familyId := fun hfamily =>
    hne (hl.unique j other id current hj h.current_old hfamily hunused h.unused)
  have hfamily {j : ℕ} {other : RefreshTokenRow T} {t' : T} (hj : old (.refreshToken j) = some other)
      (ht' : t' ∈ other.revokedBy) (hfinal : final t') : other.familyId ≠ current.familyId := fun hfamily =>
    h.unfinished hl ⟨j, other, t', hj, hfamily, ht', hfinal⟩
  constructor
  · intro j other hj
    by_cases hsame : other.familyId = current.familyId
    · exact ⟨newId, row, h.issued.row_new, h.familyId.trans hsame.symm, h.usedAt⟩
    · rcases h.row_cases hj with ⟨-, hj⟩ | ⟨rfl, rfl⟩ | ⟨rfl, rfl⟩
      · obtain ⟨j', other', hj', hfamily', hunused'⟩ := hl.live j other hj
        refine ⟨j', other', h.keeps hj' ?_, hfamily', hunused'⟩
        rintro rfl
        rw [h.current_old] at hj'
        cases hj'
        exact hsame hfamily'.symm
      · exact absurd rfl hsame
      · exact absurd h.familyId hsame
  · intro j other j' other' hj hj' hsame hunused hunused'
    rcases h.row_cases hj with ⟨hne, hj⟩ | ⟨rfl, rfl⟩ | ⟨rfl, rfl⟩
    · rcases h.row_cases hj' with ⟨-, hj'⟩ | ⟨rfl, rfl⟩ | ⟨rfl, rfl⟩
      · exact hl.unique j other j' other' hj hj' hsame hunused hunused'
      · cases hunused'
      · exact absurd (hsame.trans h.familyId) (hcurrent hj hne hunused)
    · cases hunused
    · rcases h.row_cases hj' with ⟨hne', hj'⟩ | ⟨rfl, rfl⟩ | ⟨rfl, rfl⟩
      · exact absurd (hsame.symm.trans h.familyId) (hcurrent hj' hne' hunused')
      · cases hunused'
      · rfl
  · intro j other t' hj ht' hfinal j' other' hj' hsame
    have hold : other.familyId ≠ current.familyId ∧ old (.refreshToken j) = some other := by
      rcases h.row_cases hj with ⟨-, hj⟩ | ⟨rfl, rfl⟩ | ⟨rfl, rfl⟩
      · exact ⟨hfamily hj ht' hfinal, hj⟩
      · exact absurd rfl (hfamily h.current_old ht' hfinal)
      · rw [h.revokedBy] at ht'
        cases ht'
    rcases h.row_cases hj' with ⟨-, hj'⟩ | ⟨rfl, rfl⟩ | ⟨rfl, rfl⟩
    · exact hl.final j other t' hold.2 ht' hfinal j' other' hj' hsame
    · exact absurd hsame.symm hold.1
    · exact absurd (hsame.symm.trans h.familyId) hold.1

theorem FamilyRevoked.row_cases (h : FamilyRevoked t familyId ids old new) {j : ℕ} {row' : RefreshTokenRow T}
    (hj : new (.refreshToken j) = some row') : ∃ row, old (.refreshToken j) = some row ∧
      ((j ∉ ids ∧ row' = row) ∨ ∃ now, j ∈ ids ∧ row.familyId = familyId ∧ row' = row.revoke t now) := by
  by_cases hid : j ∈ ids
  · obtain ⟨row, now, hold, hfamily, hnew⟩ := h.rows j hid
    rw [hnew] at hj
    cases hj
    exact ⟨row, hold, .inr ⟨now, hid, hfamily, rfl⟩⟩
  · exact ⟨row', (h.others j hid).symm.trans hj, .inl ⟨hid, rfl⟩⟩

theorem FamilyRevoked.rewritten (h : FamilyRevoked t familyId ids old new) : Rewritten old new := by
  refine ⟨fun j row hj => ?_, fun j row' hj => ?_, h.hashes⟩
  · by_cases hid : j ∈ ids
    · obtain ⟨_, now, hold, -, hnew⟩ := h.rows j hid
      rw [hj] at hold
      cases hold
      exact ⟨_, hnew, .revoke t now row⟩
    · exact ⟨row, (h.others j hid).trans hj, .refl row⟩
  · obtain ⟨row, hold, ⟨-, rfl⟩ | ⟨now, -, -, rfl⟩⟩ := h.row_cases hj
    · exact ⟨row', hold, .refl row'⟩
    · exact ⟨row, hold, .revoke t now row⟩

theorem FamilyRevoked.usedAt (h : FamilyRevoked t familyId ids old new) {j : ℕ} {row row' : RefreshTokenRow T}
    (hold : old (.refreshToken j) = some row) (hnew : new (.refreshToken j) = some row') :
    row'.usedAt = row.usedAt ∧ row'.usedBy = row.usedBy := by
  obtain ⟨_, hold', ⟨-, rfl⟩ | ⟨now, -, -, rfl⟩⟩ := h.row_cases hnew
  all_goals
    rw [hold] at hold'
    cases hold'
    exact ⟨rfl, rfl⟩

theorem FamilyRevoked.live (h : FamilyRevoked t familyId ids old new) (hl : LiveFamilies final old)
    (hcovers : final t → ∀ id row, old (.refreshToken id) = some row → row.familyId = familyId → id ∈ ids) :
    LiveFamilies final new := by
  have hr := h.rewritten
  constructor
  · intro j row' hj
    obtain ⟨row, hold, hkept⟩ := hr.from_old j row' hj
    obtain ⟨i, other, hi, hfamily, hunused⟩ := hl.live j row hold
    obtain ⟨other', hi', hkept'⟩ := hr.kept i other hi
    refine ⟨i, other', hi', ?_, (h.usedAt hi hi').1.trans hunused⟩
    rw [hkept'.familyId, hkept.familyId, hfamily]
  · intro j row' j' other' hj hj' hsame hunused hunused'
    obtain ⟨row, hold, hkept⟩ := hr.from_old j row' hj
    obtain ⟨other, hold', hkept'⟩ := hr.from_old j' other' hj'
    rw [hkept.familyId, hkept'.familyId] at hsame
    exact hl.unique j row j' other hold hold' hsame (hkept.unused hunused) (hkept'.unused hunused')
  · intro j row' t' hj ht' hfinal j' other' hj' hsame
    obtain ⟨other, hold', hkept'⟩ := hr.from_old j' other' hj'
    have hrevoked {row : RefreshTokenRow T} (hold : old (.refreshToken j) = some row) (hmem : t' ∈ row.revokedBy)
        (hfamily : row'.familyId = row.familyId) : other'.revokedAt ≠ none := by
      rw [hkept'.familyId, hfamily] at hsame
      exact hkept'.revoked (hl.final j row t' hold hmem hfinal j' other hold' hsame)
    obtain ⟨row, hold, ⟨-, rfl⟩ | ⟨now, -, hfamily, rfl⟩⟩ := h.row_cases hj
    · exact hrevoked hold ht' rfl
    · rcases List.mem_cons.mp ht' with rfl | hmem
      · rw [hkept'.familyId] at hsame
        have hmem := hcovers hfinal j' other hold' (hsame.trans hfamily)
        obtain ⟨_, now', -, -, hnew⟩ := h.rows j' hmem
        rw [hnew] at hj'
        cases hj'
        exact Option.some_ne_none _
      · exact hrevoked hold hmem rfl

theorem Issued.live (h : Issued id row old new) (hl : LiveFamilies final old)
    (hfresh : ∀ j other, old (.refreshToken j) = some other → other.familyId ≠ row.familyId)
    (hunused : row.usedAt = none) (hrevoked : row.revokedBy = []) : LiveFamilies final new := by
  constructor
  · intro j other hj
    rcases h.row_cases hj with hj | ⟨rfl, rfl⟩
    · obtain ⟨i, other', hi, hother'⟩ := hl.live j other hj
      exact ⟨i, other', h.kept hi, hother'⟩
    · exact ⟨j, other, h.row_new, rfl, hunused⟩
  · intro j other j' other' hj hj' hsame hu hu'
    rcases h.row_cases hj with hj | ⟨rfl, rfl⟩
    · rcases h.row_cases hj' with hj' | ⟨rfl, rfl⟩
      · exact hl.unique j other j' other' hj hj' hsame hu hu'
      · exact absurd hsame (hfresh j other hj)
    · rcases h.row_cases hj' with hj' | ⟨rfl, rfl⟩
      · exact absurd hsame.symm (hfresh j' other' hj')
      · rfl
  · intro j other t hj ht hfinal j' other' hj' hsame
    rcases h.row_cases hj with hj | ⟨rfl, rfl⟩
    · rcases h.row_cases hj' with hj' | ⟨rfl, rfl⟩
      · exact hl.final j other t hj ht hfinal j' other' hj' hsame
      · exact absurd hsame.symm (hfresh j other hj)
    · rw [hrevoked] at ht
      cases ht

end Commits

end Marketplace
