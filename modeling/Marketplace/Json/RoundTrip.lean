import Mathlib.Data.List.Nodup
import Marketplace.Json.Value

namespace Marketplace

namespace JsonValue

/-- No fraction and no name twice in an object. -/
inductive Plain : JsonValue → Prop
  | null : Plain .null
  | boolean {b : Bool} : Plain (.boolean b)
  | number {n : ℤ} : Plain (.number (.integer n))
  | string {text : String} : Plain (.string text)
  | array {items : List JsonValue} (h : ∀ item ∈ items, Plain item) : Plain (.array items)
  | object {fields : List (String × JsonValue)} (hnodup : (fields.map Prod.fst).Nodup)
    (h : ∀ field ∈ fields, Plain field.2) : Plain (.object fields)

-- what stands behind a literal
def Delimited (rest : List Char) : Prop := ∀ c ∈ rest.head?, ¬isNumberChar c

section Numbers

variable {digits rest : List Char}

theorem takeWhile_delimited {p : Char → Bool} {text : List Char} (h : ∀ c ∈ text, p c)
    (hrest : ∀ c ∈ rest.head?, ¬p c) :
    (text ++ rest).takeWhile p = text := by
  rw [List.takeWhile_append_of_pos h]
  cases rest with
  | nil => simp
  | cons c rest => simp [hrest c rfl]

theorem dropWhile_delimited {p : Char → Bool} {text : List Char} (h : ∀ c ∈ text, p c)
    (hrest : ∀ c ∈ rest.head?, ¬p c) :
    (text ++ rest).dropWhile p = rest := by
  rw [List.dropWhile_append_of_pos h]
  cases rest with
  | nil => rfl
  | cons c rest => simp [hrest c rfl]

theorem head_toDigits {n : ℕ} (h : 0 < n) : (Nat.toDigits 10 n).head? ≠ some '0' := by
  induction n using Nat.strong_induction_on with
  | _ n ih =>
    rw [Nat.toDigits_eq_if (by decide)]
    split
    · have hdigit : ∀ m < 10, 0 < m → [m.digitChar].head? ≠ some '0' := by decide
      exact hdigit n ‹_› h
    · rw [List.head?_append_of_ne_nil _ Nat.toDigits_ne_nil]
      exact ih (n / 10) (by omega) (by omega)

theorem isUnsignedLiteral_toDigits (n : ℕ) : isUnsignedLiteral (Nat.toDigits 10 n) := by
  have hdigits : ∀ c ∈ Nat.toDigits 10 n, c.isDigit := fun c hc =>
    Nat.isDigit_of_mem_toDigits (by decide) (by decide) hc
  have htake : (Nat.toDigits 10 n).takeWhile Char.isDigit = Nat.toDigits 10 n := List.takeWhile_eq_self_iff.mpr hdigits
  have hdrop : (Nat.toDigits 10 n).dropWhile Char.isDigit = [] := List.dropWhile_eq_nil_iff.mpr hdigits
  simp only [isUnsignedLiteral, htake, hdrop]
  split
  · exact absurd ‹_› Nat.toDigits_ne_nil
  · rfl
  · rename_i digit rest hne htext
    have hpos : 0 < n := by
      rcases Nat.eq_zero_or_pos n with rfl | hpos
      · simp only [Nat.toDigits_zero, List.cons.injEq] at htext
        exact absurd htext.2.symm (hne htext.1.symm)
      · exact hpos
    have hhead := head_toDigits hpos
    rw [htext] at hhead
    simp [isFraction, isExponent] at hhead ⊢
    exact hhead

theorem literal_chars {n : ℤ} : ∀ c ∈ literal (.integer n), isNumberChar c := by
  have hdigits (m : ℕ) : ∀ c ∈ Nat.toDigits 10 m, isNumberChar c := by
    intro c hc
    rw [isNumberChar, Nat.isDigit_of_mem_toDigits (by decide) (by decide) hc]
    rfl
  cases n with
  | ofNat m =>
    simp only [literal, Int.repr, Nat.toList_repr]
    exact hdigits m
  | negSucc m =>
    simp only [literal, Int.repr, String.toList_append, Nat.toList_repr]
    intro c hc
    rcases List.mem_append.mp hc with hc | hc
    · rw [List.mem_singleton.mp hc]
      rfl
    · exact hdigits (m + 1) c hc

theorem isLiteral_literal (n : ℤ) : isLiteral (literal (.integer n)) := by
  cases n with
  | ofNat m =>
    simp only [literal, Int.repr, Nat.toList_repr]
    unfold isLiteral
    split
    · rename_i text htext
      have hminus := Nat.isDigit_of_mem_toDigits (b := 10) (n := m) (c := '-') (by decide) (by decide) (by simp [htext])
      exact absurd hminus (by decide)
    · exact isUnsignedLiteral_toDigits m
  | negSucc m =>
    simp only [literal, Int.repr, String.toList_append, Nat.toList_repr]
    exact isUnsignedLiteral_toDigits (m + 1)

theorem parseNumber_literal (n : ℤ) (hrest : Delimited rest) :
    parseNumber (literal (.integer n) ++ rest) = some (.number (.integer n), rest) := by
  have htake := takeWhile_delimited (literal_chars (n := n)) hrest
  have hdrop := dropWhile_delimited (literal_chars (n := n)) hrest
  have hvalue : jsNumber (String.ofList (literal (.integer n))) = .integer n := by
    simp only [literal, String.ofList_toList]
    exact jsNumber_int n
  simp only [parseNumber, htake, hdrop, isLiteral_literal, if_true, hvalue]

end Numbers

section Strings

variable {rest : List Char}

theorem unescape_control {c : Char} (h : c.toNat < 32) :
    unescape ('u' :: '0' :: '0' :: Nat.digitChar (c.toNat / 16) :: Nat.digitChar (c.toNat % 16) :: rest) =
      some (c, rest) := by
  have hunit : ∀ n < 32, digitsValue 16 ['0', '0', Nat.digitChar (n / 16), Nat.digitChar (n % 16)] = some n := by
    decide
  have hhigh : isHighSurrogate c.toNat = false := by
    simp only [isHighSurrogate, Bool.and_eq_false_iff, decide_eq_false_iff_not]
    omega
  have hlow : isLowSurrogate c.toNat = false := by
    simp only [isLowSurrogate, Bool.and_eq_false_iff, decide_eq_false_iff_not]
    omega
  simp only [unescape, hunit c.toNat h, Option.map_some, hhigh, codeUnit, hlow, Bool.or_self, Bool.false_eq_true,
    if_false, Char.ofNat_toNat]

theorem characters_unescape {n : ℕ} {c : Char} {text : List Char} (h : unescape text = some (c, rest)) :
    characters (n + 1) ('\\' :: text) = (characters n rest).map fun parsed => (c :: parsed.1, parsed.2) := by
  simp only [characters, h, Option.bind_eq_bind, Option.bind_some]
  cases characters n rest <;> rfl

theorem characters_escape (n : ℕ) (c : Char) :
    characters (n + 1) (escape c ++ rest) = (characters n rest).map fun parsed => (c :: parsed.1, parsed.2) := by
  unfold escape
  split
  iterate 7 exact characters_unescape rfl
  rename_i hquote hbackslash _ _ _ _ _
  split
  · rename_i hcontrol
    exact characters_unescape (unescape_control hcontrol)
  · rename_i hcontrol
    simp only [List.singleton_append, characters, if_neg hquote, if_neg hbackslash, if_neg hcontrol]
    cases characters n rest <;> rfl

theorem characters_quoted (text : List Char) (n : ℕ) (h : text.length < n) :
    characters n (text.flatMap escape ++ '"' :: rest) = some (text, rest) := by
  induction text generalizing n with
  | nil =>
    obtain ⟨n, rfl⟩ := Nat.exists_eq_succ_of_ne_zero (Nat.ne_of_gt h)
    rfl
  | cons c text ih =>
    obtain ⟨n, rfl⟩ := Nat.exists_eq_succ_of_ne_zero (Nat.ne_of_gt (Nat.lt_of_le_of_lt (Nat.zero_le _) h))
    rw [List.flatMap_cons, List.append_assoc, characters_escape, ih n (by simpa using h)]
    rfl

theorem escape_ne_nil (c : Char) : escape c ≠ [] := by
  unfold escape
  split
  iterate 7 exact List.cons_ne_nil _ _
  split <;> exact List.cons_ne_nil _ _

theorem length_le_flatMap {f : Char → List Char} (h : ∀ c, f c ≠ []) (text : List Char) :
    text.length ≤ (text.flatMap f).length := by
  induction text with
  | nil => exact Nat.zero_le _
  | cons c text ih =>
    have hpos := List.length_pos_of_ne_nil (h c)
    rw [List.flatMap_cons, List.length_append, List.length_cons]
    omega

theorem quoted_append (text : String) : quoted text ++ rest = '"' :: (text.toList.flatMap escape ++ '"' :: rest) := by
  simp only [quoted, List.cons_append, List.append_assoc, List.nil_append]

theorem parseString_quoted (text : String) :
    parseString (text.toList.flatMap escape ++ '"' :: rest) = some (text, rest) := by
  have hlength : text.toList.length < (text.toList.flatMap escape ++ '"' :: rest).length := by
    have hescape := length_le_flatMap escape_ne_nil text.toList
    rw [List.length_append, List.length_cons]
    omega
  simp only [parseString, characters_quoted text.toList _ hlength, Option.map_some, String.ofList_toList]

end Strings

theorem skipWhitespace_cons {c : Char} {text : List Char} (h : c ∉ [' ', '\t', '\n', '\r']) :
    skipWhitespace (c :: text) = c :: text := by
  rw [skipWhitespace, List.dropWhile_cons_of_neg (by simpa using h)]

section RoundTrip

variable {parse : List Char → Option (JsonValue × List Char)} {rest : List Char}

def Reads (parse : List Char → Option (JsonValue × List Char)) (value : JsonValue) : Prop :=
  ∀ rest, Delimited rest → parse (stringify value ++ rest) = some (value, rest)

theorem delimited_items (items : List JsonValue) : Delimited (stringifyItems items ++ rest) := by
  cases items <;> simp [Delimited, stringifyItems, isNumberChar]

theorem delimited_fields (fields : List (String × JsonValue)) : Delimited (stringifyFields fields ++ rest) := by
  cases fields with
  | nil => simp [Delimited, stringifyFields, isNumberChar]
  | cons field fields => simp [Delimited, stringifyFields, isNumberChar]

theorem elements_stringify {item : JsonValue} {items : List JsonValue} (h : ∀ v ∈ item :: items, Reads parse v)
    (rest : List Char) {n : ℕ} (hn : items.length < n) :
    elements parse n (stringify item ++ (stringifyItems items ++ rest)) = some (item :: items, rest) := by
  induction items generalizing item n with
  | nil =>
    obtain ⟨n, rfl⟩ := Nat.exists_eq_succ_of_ne_zero (Nat.ne_of_gt hn)
    simp only [elements, h item (List.mem_cons_self ..) _ (delimited_items []), Option.bind_eq_bind, Option.bind_some]
    rfl
  | cons next items ih =>
    obtain ⟨n, rfl⟩ := Nat.exists_eq_succ_of_ne_zero (Nat.ne_of_gt (Nat.lt_of_le_of_lt (Nat.zero_le _) hn))
    have hnext : elements parse n (stringify next ++ (stringifyItems items ++ rest)) = some (next :: items, rest) :=
      ih (fun v hv => h v (List.mem_cons_of_mem _ hv)) (by simpa using hn)
    simp only [elements, h item (List.mem_cons_self ..) _ (delimited_items (next :: items)), Option.bind_eq_bind,
      Option.bind_some]
    simp only [stringifyItems, List.cons_append, List.append_assoc, skipWhitespace_cons (c := ',') (by decide), hnext,
      Option.bind_some]
    rfl

theorem member_stringify {name : String} {value : JsonValue} (h : Reads parse value) (hrest : Delimited rest) :
    member parse (quoted name ++ ':' :: (stringify value ++ rest)) = some ((name, value), rest) := by
  simp only [member, quoted_append, skipWhitespace_cons (c := '"') (by decide), parseString_quoted,
    Option.bind_eq_bind, Option.bind_some]
  simp only [skipWhitespace_cons (c := ':') (by decide), h rest hrest, Option.bind_some]
  rfl

theorem members_stringify {name : String} {value : JsonValue} {fields : List (String × JsonValue)}
    (h : ∀ field ∈ (name, value) :: fields, Reads parse field.2) (rest : List Char) {n : ℕ} (hn : fields.length < n) :
    members parse n (quoted name ++ ':' :: (stringify value ++ (stringifyFields fields ++ rest))) =
      some ((name, value) :: fields, rest) := by
  have hvalue : Reads parse value := h (name, value) (List.mem_cons_self ..)
  induction fields generalizing name value n with
  | nil =>
    obtain ⟨n, rfl⟩ := Nat.exists_eq_succ_of_ne_zero (Nat.ne_of_gt hn)
    simp only [members, member_stringify hvalue (delimited_fields []), Option.bind_eq_bind, Option.bind_some]
    rfl
  | cons next fields ih =>
    obtain ⟨n, rfl⟩ := Nat.exists_eq_succ_of_ne_zero (Nat.ne_of_gt (Nat.lt_of_le_of_lt (Nat.zero_le _) hn))
    have hfields : ∀ field ∈ (next.1, next.2) :: fields, Reads parse field.2 := fun field hf =>
      h field (List.mem_cons_of_mem _ hf)
    have hnext : members parse n (quoted next.1 ++ ':' :: (stringify next.2 ++ (stringifyFields fields ++ rest))) =
        some (next :: fields, rest) := ih hfields (by simpa using hn) (hfields _ (List.mem_cons_self ..))
    simp only [members, member_stringify hvalue (delimited_fields (next :: fields)), Option.bind_eq_bind,
      Option.bind_some]
    simp only [stringifyFields, List.cons_append, List.append_assoc, skipWhitespace_cons (c := ',') (by decide), hnext,
      Option.bind_some]
    rfl

end RoundTrip

theorem foldl_setField {old fields : List (String × JsonValue)} (h : ((old ++ fields).map Prod.fst).Nodup) :
    fields.foldl setField old = old ++ fields := by
  induction fields generalizing old with
  | nil => simp
  | cons field fields ih =>
    have hnew : field.1 ∉ old.map Prod.fst := by
      rw [List.map_append, List.map_cons, List.nodup_append] at h
      exact fun hmem => h.2.2 _ hmem _ (List.mem_cons_self ..) rfl
    have happend : old ++ field :: fields = (old ++ [field]) ++ fields := by simp
    rw [List.foldl_cons, setField, if_neg hnew, happend]
    exact ih (by rwa [← happend])

theorem merge_eq {fields : List (String × JsonValue)} (h : (fields.map Prod.fst).Nodup) : merge fields = fields :=
  foldl_setField h

theorem literal_head (n : ℤ) : ∃ c text, literal (.integer n) = c :: text ∧ isNumberChar c := by
  cases htext : literal (.integer n) with
  | nil =>
    have hliteral := isLiteral_literal n
    rw [htext] at hliteral
    cases hliteral
  | cons c text => exact ⟨c, text, rfl, literal_chars c (htext ▸ List.mem_cons_self ..)⟩

theorem isNumberChar_ne {c d : Char} (hc : isNumberChar c) (hd : isNumberChar d = false) : c ≠ d := by
  rintro rfl
  rw [hd] at hc
  cases hc

theorem not_whitespace {c : Char} (h : isNumberChar c) : c ∉ [' ', '\t', '\n', '\r'] := by
  have hspace : ∀ d ∈ [' ', '\t', '\n', '\r'], isNumberChar d = false := by
    intro d hd
    simp only [List.mem_cons, List.not_mem_nil, or_false] at hd
    rcases hd with rfl | rfl | rfl | rfl <;> rfl
  exact fun hmem => isNumberChar_ne h (hspace c hmem) rfl

theorem parseValue_number {n : ℕ} {c : Char} {text : List Char} (h : isNumberChar c) :
    parseValue (n + 1) (c :: text) = parseNumber (c :: text) := by
  rw [parseValue, skipWhitespace_cons (not_whitespace h)]
  split
  all_goals first | rfl | exact absurd (List.cons.inj ‹_›).1 (isNumberChar_ne h (by decide))

theorem stringify_head {v : JsonValue} (hv : Plain v) :
    ∃ c text, stringify v = c :: text ∧ c ∉ [' ', '\t', '\n', '\r'] ∧ c ≠ ']' := by
  cases hv with
  | null => exact ⟨_, _, rfl, by decide, by decide⟩
  | @boolean b =>
    cases b
    · exact ⟨_, _, rfl, by decide, by decide⟩
    · exact ⟨_, _, rfl, by decide, by decide⟩
  | @number n =>
    obtain ⟨c, text, htext, hc⟩ := literal_head n
    exact ⟨c, text, htext, not_whitespace hc, isNumberChar_ne hc (by decide)⟩
  | string => exact ⟨_, _, rfl, by decide, by decide⟩
  | @array items =>
    cases items with
    | nil => exact ⟨_, _, rfl, by decide, by decide⟩
    | cons => exact ⟨_, _, rfl, by decide, by decide⟩
  | @object fields =>
    cases fields with
    | nil => exact ⟨_, _, rfl, by decide, by decide⟩
    | cons => exact ⟨_, _, rfl, by decide, by decide⟩

theorem length_items {item : JsonValue} {items : List JsonValue} (h : item ∈ items) :
    (stringify item).length < (stringifyItems items).length := by
  induction items with
  | nil => cases h
  | cons first items ih =>
    rw [stringifyItems, List.length_cons, List.length_append]
    rcases List.mem_cons.mp h with rfl | h
    · omega
    · have := ih h
      omega

theorem length_fields {field : String × JsonValue} {fields : List (String × JsonValue)} (h : field ∈ fields) :
    (stringify field.2).length < (stringifyFields fields).length := by
  induction fields with
  | nil => cases h
  | cons first fields ih =>
    rw [stringifyFields, List.length_cons, List.length_append, List.length_cons, List.length_append]
    rcases List.mem_cons.mp h with rfl | h
    · omega
    · have := ih h
      omega

theorem length_le_items (items : List JsonValue) : items.length < (stringifyItems items).length := by
  induction items with
  | nil => exact Nat.one_pos
  | cons item items ih =>
    rw [stringifyItems, List.length_cons, List.length_cons, List.length_append]
    omega

theorem length_le_fields (fields : List (String × JsonValue)) : fields.length < (stringifyFields fields).length := by
  induction fields with
  | nil => exact Nat.one_pos
  | cons field fields ih =>
    rw [stringifyFields, List.length_cons, List.length_cons, List.length_append, List.length_cons, List.length_append]
    omega

theorem parseValue_stringify {v : JsonValue} (h : Plain v) {n : ℕ} (hn : (stringify v).length ≤ n) :
    Reads (parseValue n) v := by
  induction n generalizing v with
  | zero =>
    obtain ⟨c, text, htext, -⟩ := stringify_head h
    rw [htext] at hn
    exact absurd hn (Nat.not_succ_le_zero _)
  | succ n ih =>
    intro rest hrest
    cases h with
    | null => rfl
    | @boolean b => cases b <;> rfl
    | @number m =>
      obtain ⟨c, text, htext, hc⟩ := literal_head m
      rw [stringify, htext, List.cons_append, parseValue_number hc, ← List.cons_append, ← htext]
      exact parseNumber_literal m hrest
    | @string text =>
      simp only [stringify, quoted_append, parseValue, skipWhitespace_cons (c := '"') (by decide), parseString_quoted,
        Option.map_some]
    | @array items hitems =>
      cases items with
      | nil => rfl
      | cons item items =>
        rw [stringify, List.length_cons, List.length_append] at hn
        have hreads : ∀ v ∈ item :: items, Reads (parseValue n) v := by
          intro v hv
          apply ih (hitems v hv)
          rcases List.mem_cons.mp hv with rfl | hmem
          · omega
          · have := length_items hmem
            omega
        obtain ⟨c, text, htext, hspace, hne⟩ := stringify_head (hitems item (List.mem_cons_self ..))
        have hlength := length_le_items items
        have helements := elements_stringify hreads rest
          (n := (stringify item ++ (stringifyItems items ++ rest)).length) (by simp only [List.length_append]; omega)
        rw [htext, List.cons_append] at helements
        simp only [stringify, List.cons_append, List.append_assoc, parseValue, htext,
          skipWhitespace_cons (c := '[') (by decide), skipWhitespace_cons hspace]
        split
        · exact absurd (List.cons.inj ‹_›).1 hne
        · rw [helements]
          rfl
    | @object fields hnodup hfields =>
      cases fields with
      | nil => rfl
      | cons field fields =>
        obtain ⟨name, value⟩ := field
        rw [stringify, List.length_cons, List.length_append, List.length_cons, List.length_append] at hn
        have hreads : ∀ field ∈ (name, value) :: fields, Reads (parseValue n) field.2 := by
          intro field hf
          apply ih (hfields field hf)
          rcases List.mem_cons.mp hf with rfl | hmem
          · simp only
            omega
          · have := length_fields hmem
            omega
        have hlength := length_le_fields fields
        have hmembers := members_stringify hreads rest
          (n := (quoted name ++ ':' :: (stringify value ++ (stringifyFields fields ++ rest))).length)
          (by simp only [List.length_append, List.length_cons]; omega)
        simp only [stringify, List.cons_append, List.append_assoc, quoted_append, parseValue,
          skipWhitespace_cons (c := '{') (by decide), skipWhitespace_cons (c := '"') (by decide)] at hmembers ⊢
        split
        · exact absurd (List.cons.inj ‹_›).1 (by decide)
        · rw [hmembers, Option.map_some, merge_eq hnodup]

theorem parse_stringify {v : JsonValue} (h : Plain v) : parse (stringify v) = some v := by
  have hread := parseValue_stringify h le_rfl [] (by simp [Delimited])
  rw [List.append_nil] at hread
  simp only [parse, hread]
  rfl

section Printable

-- no control character, line breaks in particular
def Printable (text : List Char) : Prop := ∀ c ∈ text, 32 ≤ c.toNat

instance (text : List Char) : Decidable (Printable text) := List.decidableBAll (fun c : Char => 32 ≤ c.toNat) text

theorem printable_append {text text' : List Char} (h : Printable text) (h' : Printable text') :
    Printable (text ++ text') := fun c hc => (List.mem_append.mp hc).elim (h c) (h' c)

theorem printable_cons {c : Char} {text : List Char} (hc : 32 ≤ c.toNat) (h : Printable text) :
    Printable (c :: text) := printable_append (fun _ hd => List.mem_singleton.mp hd ▸ hc) h

theorem printable_escape (c : Char) : Printable (escape c) := by
  have hdigit : ∀ n < 16, 32 ≤ (Nat.digitChar n).toNat := by decide
  unfold escape
  split
  iterate 7 decide
  split
  · rename_i hcontrol
    have hprefix : Printable ['\\', 'u', '0', '0'] := by decide
    refine printable_append hprefix ?_
    refine printable_cons (hdigit _ (by omega)) (printable_cons (hdigit _ (by omega)) nofun)
  · rename_i hprintable
    exact printable_cons (by omega) nofun

theorem printable_quoted (text : String) : Printable (quoted text) := by
  refine printable_append (printable_cons (by decide) fun c hc => ?_) (by decide)
  obtain ⟨d, -, hd⟩ := List.mem_flatMap.mp hc
  exact printable_escape d c hd

theorem printable_literal (n : JsNumber) : Printable (literal n) := by
  cases n with
  | other => decide
  | integer n =>
    intro c hc
    have hnumber := literal_chars c hc
    simp only [isNumberChar, Char.isDigit, Bool.or_eq_true, Bool.and_eq_true, decide_eq_true_eq, List.mem_cons,
      List.not_mem_nil, or_false] at hnumber
    rcases hnumber with ⟨hdigit, -⟩ | rfl | rfl | rfl | rfl | rfl
    · have hle : 48 ≤ c.toNat := hdigit
      omega
    all_goals decide

mutual

theorem printable_stringify : ∀ v : JsonValue, Printable (stringify v)
  | .null => by unfold stringify; decide
  | .boolean true => by unfold stringify; decide
  | .boolean false => by unfold stringify; decide
  | .number value => printable_literal value
  | .string value => printable_quoted value
  | .array [] => by unfold stringify; decide
  | .array (item :: items) => by
    unfold stringify
    exact printable_cons (by decide) (printable_append (printable_stringify item) (printable_items items))
  | .object [] => by unfold stringify; decide
  | .object ((name, value) :: fields) => by
    unfold stringify
    exact printable_cons (by decide) (printable_append (printable_quoted name)
      (printable_cons (by decide) (printable_append (printable_stringify value) (printable_fields fields))))

theorem printable_items : ∀ items : List JsonValue, Printable (stringifyItems items)
  | [] => by unfold stringifyItems; decide
  | item :: items => by
    unfold stringifyItems
    exact printable_cons (by decide) (printable_append (printable_stringify item) (printable_items items))

theorem printable_fields : ∀ fields : List (String × JsonValue), Printable (stringifyFields fields)
  | [] => by unfold stringifyFields; decide
  | (name, value) :: fields => by
    unfold stringifyFields
    exact printable_cons (by decide) (printable_append (printable_quoted name)
      (printable_cons (by decide) (printable_append (printable_stringify value) (printable_fields fields))))

end

end Printable

section Jsonb

theorem jsonbFields_eq (fields : List (String × JsonValue)) :
    jsonbFields fields = fields.map fun field => (field.1, jsonb field.2) := by
  induction fields with
  | nil => rfl
  | cons field fields ih => rw [jsonbFields, ih, List.map_cons]

theorem jsonbItems_eq (items : List JsonValue) : jsonbItems items = items.map jsonb := by
  induction items with
  | nil => rfl
  | cons item items ih => rw [jsonbItems, ih, List.map_cons]

theorem jsonb_object {fields : List (String × JsonValue)} (h : (fields.map Prod.fst).Nodup) :
    jsonb (.object fields) = .object ((fields.map fun field => (field.1, jsonb field.2)).insertionSort keyLe) := by
  have hnodup : ((fields.map fun field => (field.1, jsonb field.2)).map Prod.fst).Nodup := by
    rw [List.map_map]
    exact h
  rw [jsonb, jsonbFields_eq, merge_eq hnodup]

theorem lookup_eq_some {fields : List (String × JsonValue)} (h : (fields.map Prod.fst).Nodup) {name : String}
    {value : JsonValue} : fields.lookup name = some value ↔ (name, value) ∈ fields := by
  induction fields with
  | nil => simp
  | cons field fields ih =>
    obtain ⟨other, old⟩ := field
    rw [List.map_cons, List.nodup_cons] at h
    by_cases hname : name = other
    · subst hname
      rw [List.lookup_cons_self, List.mem_cons]
      constructor
      · rintro heq
        exact .inl (by rw [Option.some.inj heq])
      · rintro (heq | hmem)
        · rw [(Prod.mk.inj heq).2]
        · exact absurd (List.mem_map_of_mem hmem) h.1
    · have hne : (name == other) = false := by simpa using hname
      rw [List.lookup_cons, hne, List.mem_cons, ← ih h.2]
      simp [hname]

theorem Plain.jsonb {v : JsonValue} (h : Plain v) : Plain v.jsonb := by
  induction h with
  | null => exact .null
  | boolean => exact .boolean
  | number => exact .number
  | string => exact .string
  | array _ ih =>
    rw [JsonValue.jsonb, jsonbItems_eq]
    exact .array (List.forall_mem_map.mpr ih)
  | @object fields hnodup _ ih =>
    rw [jsonb_object hnodup]
    have hperm := List.perm_insertionSort keyLe (fields.map fun field => (field.1, field.2.jsonb))
    refine .object ?_ fun field hf => ?_
    · rw [(hperm.map Prod.fst).nodup_iff, List.map_map]
      exact hnodup
    · obtain ⟨old, hmem, rfl⟩ := List.mem_map.mp (hperm.mem_iff.mp hf)
      exact ih old hmem

theorem get_jsonb {fields : List (String × JsonValue)} (h : (fields.map Prod.fst).Nodup) {name : String} :
    (JsonValue.object fields).jsonb.get name = ((JsonValue.object fields).get name).map JsonValue.jsonb := by
  have hperm := List.perm_insertionSort keyLe (fields.map fun field => (field.1, field.2.jsonb))
  have hnodup : ((fields.map fun field => (field.1, field.2.jsonb)).map Prod.fst).Nodup := by
    rw [List.map_map]
    exact h
  have hsorted := ((hperm.map Prod.fst).nodup_iff).mpr hnodup
  rw [jsonb_object h]
  apply Option.ext
  intro value
  simp only [get, lookup_eq_some hsorted, hperm.mem_iff, Option.map_eq_some_iff, lookup_eq_some h, List.mem_map]
  constructor
  · rintro ⟨⟨other, old⟩, hmem, heq⟩
    cases heq
    exact ⟨old, hmem, rfl⟩
  · rintro ⟨old, hmem, rfl⟩
    exact ⟨(name, old), hmem, rfl⟩

end Jsonb

theorem ofBytes_bytes {v : JsonValue} (h : Plain v) : ofBytes (bytes v) = some v := by
  have hdecode : String.fromUTF8? (bytes v) = some (String.ofList (stringify v)) :=
    dif_pos (String.isValidUTF8 (String.ofList (stringify v)))
  rw [ofBytes, hdecode, Option.bind_some, String.toList_ofList]
  exact parse_stringify h

end JsonValue

end Marketplace
