import Mathlib.Tactic.SplitIfs
import Marketplace.Password

namespace Marketplace

theorem hexDigit_digitChar : ∀ n < 16, hexDigit (Nat.digitChar n) = some n := by decide

theorem utf16Units_digitChar : ∀ n < 16, utf16Units (Nat.digitChar n) = [(Nat.digitChar n).toNat] := by decide

theorem unhex_digitChar : ∀ n < 16, unhex (Nat.digitChar n).toNat = some n := by decide

theorem bufferFromHex_toHex {bytes : List ℕ} (h : ∀ byte ∈ bytes, byte < 256) :
    bufferFromHex (toHex bytes) = bytes := by
  induction bytes with
  | nil => rfl
  | cons byte bytes ih =>
    have hbyte : byte < 256 := h byte (by simp)
    have hrest := ih fun b hb => h b (by simp [hb])
    have hhigh : byte / 16 < 16 := by omega
    have hlow : byte % 16 < 16 := by omega
    have hunits : utf16 (toHex (byte :: bytes)) =
        (Nat.digitChar (byte / 16)).toNat :: (Nat.digitChar (byte % 16)).toNat :: utf16 (toHex bytes) := by
      have hunfold : toHex (byte :: bytes) =
          Nat.digitChar (byte / 16) :: Nat.digitChar (byte % 16) :: toHex bytes := rfl
      rw [hunfold, utf16, List.flatMap_cons, List.flatMap_cons, utf16Units_digitChar _ hhigh,
        utf16Units_digitChar _ hlow]
      rfl
    rw [bufferFromHex] at hrest ⊢
    simp only [hunits, hexDecode, unhex_digitChar _ hhigh, unhex_digitChar _ hlow, hrest, Nat.div_add_mod]

theorem hexDigit_lt {c : Char} {n : ℕ} (h : hexDigit c = some n) : n < 16 := by
  unfold hexDigit at h
  split_ifs at h with hdigit hlower hupper
  · have hle : c.toNat ≤ '9'.toNat := hdigit.2
    cases h
    simp at hle ⊢
    omega
  · have hle : c.toNat ≤ 'f'.toNat := hlower.2
    cases h
    simp at hle ⊢
    omega
  · have hle : c.toNat ≤ 'F'.toNat := hupper.2
    cases h
    simp at hle ⊢
    omega

theorem hexDecode_lt (units : List ℕ) : ∀ byte ∈ hexDecode units, byte < 256 := by
  fun_induction hexDecode units with
  | case1 high low rest x y hx hy ih =>
    intro byte hbyte
    rcases List.mem_cons.mp hbyte with rfl | hrest
    · have := hexDigit_lt hx
      have := hexDigit_lt hy
      omega
    · exact ih byte hrest
  | case2 => simp
  | case3 => simp

theorem not_mem_toHex {bytes : List ℕ} (h : ∀ byte ∈ bytes, byte < 256) {c : Char} (hc : hexDigit c = none) :
    c ∉ toHex bytes := by
  intro hmem
  obtain ⟨byte, hbyte, hchar⟩ := List.mem_flatMap.mp hmem
  have hlt := h byte hbyte
  simp only [List.mem_cons, List.not_mem_nil, or_false] at hchar
  rcases hchar with rfl | rfl
  · have hdigit := hexDigit_digitChar (byte / 16) (by omega)
    cases hc.symm.trans hdigit
  · have hdigit := hexDigit_digitChar (byte % 16) (by omega)
    cases hc.symm.trans hdigit

theorem separator_not_mem_toHex {bytes : List ℕ} (h : ∀ byte ∈ bytes, byte < 256) : '$' ∉ toHex bytes :=
  not_mem_toHex h (by decide)

theorem length_toHex (bytes : List ℕ) : (toHex bytes).length = 2 * bytes.length := by
  induction bytes with
  | nil => rfl
  | cons byte bytes ih =>
    have hunfold : (toHex (byte :: bytes)).length = (toHex bytes).length + 2 := rfl
    rw [hunfold, ih, List.length_cons]
    omega

/-- What the code relies on of node's `scrypt`. -/
structure DerivesKeys (scrypt : String → String → ℕ → List ℕ) : Prop where
  length : ∀ password salt n, (scrypt password salt n).length = n
  bytes : ∀ password salt n, ∀ byte ∈ scrypt password salt n, byte < 256

/-- The stored string is `scrypt$salt$hex`, and `hex` is the whole key derived from the password. -/
def Canonical (scrypt : String → String → ℕ → List ℕ) (password stored : String) : Prop :=
  ∃ salt hex, stored.toList.splitOn '$' = ["scrypt".toList, salt, hex] ∧ (utf16 hex).length = 2 * keyLength ∧
    bufferFromHex hex = scrypt password (String.ofList salt) keyLength

-- what `verifyPassword` takes from a stored string; `none` is turned down at once
def storedFields (stored : String) : Option (List Char × List Char × List (List Char)) :=
  match stored.toList.splitOn '$' with
  | algorithm :: salt :: expectedHex :: rest =>
    if algorithm ≠ "scrypt".toList || salt = [] || expectedHex = [] then none else some (salt, expectedHex, rest)
  | _ => none

section Verification

variable {scrypt : String → String → ℕ → List ℕ} {password stored : String} {salt hex : List Char}
    {rest : List (List Char)}

theorem storedFields_eq_some : storedFields stored = some (salt, hex, rest) ↔
    stored.toList.splitOn '$' = "scrypt".toList :: salt :: hex :: rest ∧ salt ≠ [] ∧ hex ≠ [] := by
  unfold storedFields
  -- its value does not matter here
  generalize "scrypt".toList = scheme
  generalize stored.toList.splitOn '$' = fields
  rcases fields with _ | ⟨algorithm, _ | ⟨salt', _ | ⟨hex', rest'⟩⟩⟩
  · simp
  · simp
  · simp
  · constructor
    · intro h
      dsimp only at h
      split_ifs at h with hfields
      cases h
      simpa [and_assoc] using hfields
    · rintro ⟨h, hsalt, hhex⟩
      cases h
      simp [hsalt, hhex]

theorem verifyPassword_eq (h : DerivesKeys scrypt) : verifyPassword scrypt password stored = true ↔
    ∃ salt hex rest, storedFields stored = some (salt, hex, rest) ∧
      scrypt password (String.ofList salt) (bufferFromHex hex).length = bufferFromHex hex := by
  unfold verifyPassword storedFields
  generalize stored.toList.splitOn '$' = fields
  rcases fields with _ | ⟨algorithm, _ | ⟨salt, _ | ⟨hex, rest⟩⟩⟩
  · simp
  · simp
  · simp
  · dsimp only
    by_cases hfields : (algorithm ≠ "scrypt".toList || salt = [] || hex = []) = true
    · rw [if_pos hfields, if_pos hfields]
      simp
    · rw [if_neg hfields, if_neg hfields]
      simp only [h.length, ne_eq, not_true_eq_false, if_false, decide_eq_true_eq]
      constructor
      · exact fun heq => ⟨salt, hex, rest, rfl, heq.symm⟩
      · rintro ⟨_, _, _, hsame, heq⟩
        cases hsame
        exact heq.symm

theorem verifyPassword_hashPassword (h : DerivesKeys scrypt) (password : String) {saltBytes : List ℕ}
    (hsalt : saltBytes ≠ []) (hbytes : ∀ byte ∈ saltBytes, byte < 256) :
    verifyPassword scrypt password (hashPassword scrypt password saltBytes) = true := by
  let key := scrypt password (String.ofList (toHex saltBytes)) keyLength
  have hkey : ∀ byte ∈ key, byte < 256 := h.bytes _ _ _
  have hlength : key.length = keyLength := h.length _ _ _
  refine (verifyPassword_eq h).mpr ⟨toHex saltBytes, toHex key, [], storedFields_eq_some.mpr ⟨?_, ?_, ?_⟩, ?_⟩
  · have hlists : ∀ field ∈ ["scrypt".toList, toHex saltBytes, toHex key], '$' ∉ field := by
      simp only [List.forall_mem_cons]
      exact ⟨by decide, separator_not_mem_toHex hbytes, separator_not_mem_toHex hkey, nofun⟩
    rw [hashPassword, String.toList_ofList]
    exact List.splitOn_intercalate _ hlists (by simp)
  · intro hnil
    have hempty := length_toHex saltBytes
    rw [hnil, List.length_nil] at hempty
    exact hsalt (List.length_eq_zero_iff.mp (by omega))
  · intro hnil
    have hempty := length_toHex key
    rw [hnil, List.length_nil, hlength] at hempty
    cases hempty
  · rw [bufferFromHex_toHex hkey, hlength]

/-- The stored string is turned down at once, or it is `scrypt$salt$hex` with a whole key. -/
def FailsClosed (stored : String) : Prop :=
  ∀ salt hex rest, storedFields stored = some (salt, hex, rest) →
    rest = [] ∧ (utf16 hex).length = 2 * keyLength ∧ (bufferFromHex hex).length = keyLength

theorem canonical_of_accepted (h : DerivesKeys scrypt) (hclosed : FailsClosed stored)
    (haccepted : verifyPassword scrypt password stored = true) : Canonical scrypt password stored := by
  obtain ⟨salt, hex, rest, hfields, heq⟩ := (verifyPassword_eq h).mp haccepted
  obtain ⟨rfl, hlength, hkey⟩ := hclosed salt hex rest hfields
  refine ⟨salt, hex, (storedFields_eq_some.mp hfields).1, hlength, ?_⟩
  rw [← heq, hkey]

-- every password has these bytes as its key of their length
def constantScrypt (bytes : List ℕ) (_ _ : String) (n : ℕ) : List ℕ :=
  if n = bytes.length then bytes else List.replicate n 0

theorem constantScrypt_derivesKeys {bytes : List ℕ} (h : ∀ byte ∈ bytes, byte < 256) :
    DerivesKeys (constantScrypt bytes) := by
  constructor
  · intro password salt n
    unfold constantScrypt
    split_ifs with hn
    · exact hn.symm
    · exact List.length_replicate
  · intro password salt n byte hbyte
    unfold constantScrypt at hbyte
    split_ifs at hbyte with hn
    · exact h byte hbyte
    · rw [List.eq_of_mem_replicate hbyte]
      decide

theorem failsClosed_of_canonical (h : ∀ scrypt, DerivesKeys scrypt → ∀ password,
    verifyPassword scrypt password stored = true → Canonical scrypt password stored) : FailsClosed stored := by
  intro salt hex rest hfields
  have hderives : DerivesKeys (constantScrypt (bufferFromHex hex)) := constantScrypt_derivesKeys (hexDecode_lt _)
  have haccepted : verifyPassword (constantScrypt (bufferFromHex hex)) "" stored = true :=
    (verifyPassword_eq hderives).mpr ⟨salt, hex, rest, hfields, if_pos rfl⟩
  obtain ⟨salt', hex', hsplit, hlength, hkey⟩ := h _ hderives "" haccepted
  rw [(storedFields_eq_some.mp hfields).1] at hsplit
  cases hsplit
  refine ⟨rfl, hlength, ?_⟩
  rw [hkey, hderives.length]

/-- Whatever keys are derived, as long as they have the length asked for. -/
theorem password_hashes_fail_closed_iff (stored : String) :
    (∀ scrypt, DerivesKeys scrypt →
      (∀ password saltBytes, saltBytes.length = 16 → (∀ byte ∈ saltBytes, byte < 256) →
      verifyPassword scrypt password (hashPassword scrypt password saltBytes) = true) ∧
      ∀ password, verifyPassword scrypt password stored = true → Canonical scrypt password stored) ↔
      FailsClosed stored := by
  constructor
  · exact fun h => failsClosed_of_canonical fun scrypt hderives => (h scrypt hderives).2
  · intro hclosed scrypt h
    refine ⟨fun password saltBytes hlength hbytes => verifyPassword_hashPassword h password ?_ hbytes,
      fun password haccepted => canonical_of_accepted h hclosed haccepted⟩
    rintro rfl
    cases hlength

end Verification

-- no byte is decoded from `zz`, and the key of no bytes is equal to it whatever the password
theorem malformed_hash_accepted :
    verifyPassword (constantScrypt []) "guess" "scrypt$salt$zz" = true ∧
      ¬Canonical (constantScrypt []) "guess" "scrypt$salt$zz" := by
  refine ⟨by decide, ?_⟩
  rintro ⟨salt, hex, hsplit, hlength, -⟩
  have hfields : "scrypt$salt$zz".toList.splitOn '$' = ["scrypt".toList, "salt".toList, "zz".toList] := by decide
  rw [hfields] at hsplit
  cases hsplit
  cases hlength

end Marketplace
