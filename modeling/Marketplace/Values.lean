import Mathlib.Algebra.Order.Ring.Int
import Mathlib.Data.List.DropRight

namespace Marketplace

/-- A JavaScript number as the services look at it: an integer, or anything else (a fraction,
`NaN`, an infinity). -/
inductive JsNumber
  | integer (n : ℤ)
  | other
  deriving DecidableEq, Repr

def JsNumber.isPositiveInteger : JsNumber → Bool
  | .integer n => 0 < n
  | .other => false

inductive Failure
  | database
  -- SQLSTATE 40001
  | serialization
  | broker
  | badRequest (message : String)
  | notFound (message : String)
  | unauthorized (message : String)
  | checkoutError (code : String)
  | error (message : String)
  deriving DecidableEq, Repr

def fitsInt4 (n : ℤ) : Bool := -2147483648 ≤ n && n ≤ 2147483647

def fitsInt8 (n : ℤ) : Bool := -9223372036854775808 ≤ n && n ≤ 9223372036854775807

/-- What a `varchar(n)` column stores of a text: surplus spaces are cut off, other surplus characters and NUL are
refused. -/
def varchar (n : ℕ) (text : String) : Option String :=
  if text.toList.all (· ≠ '\x00') && (text.toList.drop n).all (· = ' ') then
    some (String.ofList (text.toList.take n))
  else none

theorem varchar_eq_some {n : ℕ} {text stored : String} : varchar n text = some stored ↔
    (∀ c ∈ text.toList, c ≠ '\x00') ∧ (∀ c ∈ text.toList.drop n, c = ' ') ∧
      stored = String.ofList (text.toList.take n) := by
  unfold varchar
  split
  · rename_i h
    simp only [Bool.and_eq_true, List.all_eq_true, decide_eq_true_eq] at h
    simp only [Option.some.injEq, eq_comm (b := stored)]
    exact ⟨fun hstored => ⟨h.1, h.2, hstored⟩, fun hstored => hstored.2.2⟩
  · rename_i h
    simp only [Bool.and_eq_true, List.all_eq_true, decide_eq_true_eq] at h
    exact ⟨nofun, fun hstored => absurd ⟨hstored.1, hstored.2.1⟩ h⟩

theorem varchar_unspaced {n : ℕ} {text stored : String} (htext : ' ' ∉ text.toList)
    (h : varchar n text = some stored) : stored = text := by
  obtain ⟨-, hsurplus, rfl⟩ := varchar_eq_some.mp h
  have hnone : text.toList.drop n = [] := by
    apply List.eq_nil_iff_forall_not_mem.mpr
    intro c hc
    exact htext (hsurplus c hc ▸ List.mem_of_mem_drop hc)
  rw [List.take_of_length_le (List.drop_eq_nil_iff.mp hnone), String.ofList_toList]

def spacePadded (c : Char) (spaces : ℕ) : String := String.ofList (c :: List.replicate spaces ' ')

theorem spacePadded_injective {c : Char} {n m : ℕ} (h : spacePadded c n = spacePadded c m) : n = m := by
  have hlength := congrArg (fun text => text.toList.length) h
  simpa [spacePadded] using hlength

theorem varchar_spacePadded {c : Char} {n m : ℕ} (hc : c ≠ '\x00') (h : n ≤ m) :
    varchar (n + 1) (spacePadded c m) = some (spacePadded c n) := by
  refine varchar_eq_some.mpr ⟨fun d hd => ?_, fun d hd => ?_, ?_⟩
  · simp only [spacePadded, String.toList_ofList, List.mem_cons, List.mem_replicate] at hd
    rcases hd with rfl | ⟨-, rfl⟩
    · exact hc
    · decide
  · simp only [spacePadded, String.toList_ofList, List.drop_succ_cons, List.drop_replicate, List.mem_replicate] at hd
    exact hd.2
  · simp only [spacePadded, String.toList_ofList, List.take_succ_cons, List.take_replicate, Nat.min_eq_left h]

-- the characters that `String.prototype.trim` removes
def isJsWhitespace (c : Char) : Bool :=
  c ∈ ['\t', '\n', '\x0b', '\x0c', '\r', ' ', '\u00a0', '\u1680', '\u2028', '\u2029', '\u202f',
    '\u205f', '\u3000', '\ufeff'] || ('\u2000' ≤ c && c ≤ '\u200a')

def isBlank (s : String) : Bool := s.toList.all isJsWhitespace

def digitValue (c : Char) : ℕ :=
  if c.isDigit then c.toNat - '0'.toNat
  else if 'a' ≤ c && c ≤ 'f' then c.toNat - 'a'.toNat + 10
  else if 'A' ≤ c && c ≤ 'F' then c.toNat - 'A'.toNat + 10
  else 16

def digitsValue (base : ℕ) : List Char → Option ℕ
  | [] => none
  | digits =>
    if digits.all fun c => digitValue c < base then some (digits.foldl (fun n c => base * n + digitValue c) 0)
    else none

def signed : List Char → Bool × List Char
  | '-' :: text => (true, text)
  | '+' :: text => (false, text)
  | text => (false, text)

def exponentValue : List Char → Option ℤ
  | [] => some 0
  | _ :: exponent =>
    (digitsValue 10 (signed exponent).2).map fun n => if (signed exponent).1 then -(n : ℤ) else n

-- digits with at most one point among them, and an exponent behind an `e`
def decimalValue (text : List Char) : Option JsNumber := do
  let mantissa := text.takeWhile fun c => c ≠ 'e' && c ≠ 'E'
  let exponent ← exponentValue (text.dropWhile fun c => c ≠ 'e' && c ≠ 'E')
  let fraction := (mantissa.dropWhile (· ≠ '.')).drop 1
  let n ← digitsValue 10 (mantissa.takeWhile (· ≠ '.') ++ fraction)
  match exponent - fraction.length with
  | .ofNat scale => pure (.integer (n * 10 ^ scale))
  | .negSucc scale => pure (if 10 ^ (scale + 1) ∣ n then .integer (n / 10 ^ (scale + 1)) else .other)

/-- `Number(text)`, with the exact value where JavaScript rounds to a double. -/
def jsNumber (text : String) : JsNumber :=
  match (text.toList.dropWhile isJsWhitespace).rdropWhile isJsWhitespace with
  | [] => .integer 0
  | '0' :: 'x' :: digits | '0' :: 'X' :: digits => (digitsValue 16 digits).elim .other fun n => .integer n
  | '0' :: 'o' :: digits | '0' :: 'O' :: digits => (digitsValue 8 digits).elim .other fun n => .integer n
  | '0' :: 'b' :: digits | '0' :: 'B' :: digits => (digitsValue 2 digits).elim .other fun n => .integer n
  | number =>
    match decimalValue (signed number).2 with
    | some (.integer n) => .integer (if (signed number).1 then -n else n)
    | _ => .other

section Digits

variable {text : List Char}

theorem takeWhile_digits {p : Char → Bool} (h : ∀ c ∈ text, c.isDigit) (hp : ∀ c, c.isDigit → p c) :
    text.takeWhile p = text :=
  List.takeWhile_eq_self_iff.mpr fun c hc => hp c (h c hc)

theorem dropWhile_digits {p : Char → Bool} (h : ∀ c ∈ text, c.isDigit) (hp : ∀ c, c.isDigit → p c) :
    text.dropWhile p = [] :=
  List.dropWhile_eq_nil_iff.mpr fun c hc => hp c (h c hc)

theorem digitValue_of_isDigit {c : Char} (h : c.isDigit) : digitValue c = c.toNat - '0'.toNat := by
  simp [digitValue, h]

theorem digitValue_lt_ten {c : Char} (h : c.isDigit) : digitValue c < 10 := by
  rw [digitValue_of_isDigit h]
  simp only [Char.isDigit, Bool.and_eq_true, decide_eq_true_eq] at h
  have h9 := h.2
  simp only [UInt32.le_iff_toNat_le] at h9
  have : c.toNat ≤ 57 := h9
  simp
  omega

theorem digitsValue_digits (h : ∀ c ∈ text, c.isDigit) (hne : text ≠ []) :
    digitsValue 10 text = some (Nat.ofDigitChars 10 text 0) := by
  cases text with
  | nil => exact absurd rfl hne
  | cons c text =>
    have hall : ((c :: text).all fun c => digitValue c < 10) = true :=
      List.all_eq_true.mpr fun d hd => decide_eq_true (digitValue_lt_ten (h d hd))
    simp only [digitsValue, hall, if_true, Nat.ofDigitChars_eq_foldl]
    congr 1
    exact List.foldl_ext _ _ _ fun n d hd => by rw [digitValue_of_isDigit (h d hd)]

theorem decimalValue_digits (h : ∀ c ∈ text, c.isDigit) (hne : text ≠ []) :
    decimalValue text = some (.integer (Nat.ofDigitChars 10 text 0)) := by
  have hletter : ∀ c : Char, c.isDigit → (c ≠ 'e' && c ≠ 'E') = true := by
    intro c hc
    have he : c ≠ 'e' := fun heq => by simp [heq] at hc
    have hE : c ≠ 'E' := fun heq => by simp [heq] at hc
    simp [he, hE]
  have hpoint : ∀ c : Char, c.isDigit → decide (c ≠ '.') = true := by
    intro c hc
    exact decide_eq_true fun heq => by simp [heq] at hc
  simp only [decimalValue, takeWhile_digits h hletter, dropWhile_digits h hletter, takeWhile_digits h hpoint,
    dropWhile_digits h hpoint, exponentValue, List.drop_nil, List.append_nil, digitsValue_digits h hne]
  simp

theorem not_isJsWhitespace {c : Char} (h : c.isDigit) : ¬isJsWhitespace c := by
  intro hs
  simp only [isJsWhitespace, Bool.or_eq_true, Bool.and_eq_true, decide_eq_true_eq, List.mem_cons,
    List.not_mem_nil] at hs
  rcases hs with hs | hs
  · rcases hs with rfl | rfl | rfl | rfl | rfl | rfl | rfl | rfl | rfl | rfl | rfl | rfl | rfl | rfl | hs
    all_goals first | exact absurd h (by decide) | exact hs
  · simp only [Char.isDigit, Bool.and_eq_true, decide_eq_true_eq] at h
    have hle : '\u2000'.val ≤ '9'.val := UInt32.le_trans hs.1 h.2
    exact absurd hle (by decide)

theorem signed_digits (h : ∀ c ∈ text, c.isDigit) : signed text = (false, text) := by
  unfold signed
  split
  · exact absurd (h '-' (List.mem_cons_self ..)) (by decide)
  · exact absurd (h '+' (List.mem_cons_self ..)) (by decide)
  · rfl

end Digits

theorem jsNumber_digits {text : String} (h : ∀ c ∈ text.toList, c.isDigit) (hne : text.toList ≠ []) :
    jsNumber text = .integer (Nat.ofDigitChars 10 text.toList 0) := by
  have hfront : text.toList.dropWhile isJsWhitespace = text.toList := by
    apply List.dropWhile_eq_self_iff.mpr
    exact fun hpos => not_isJsWhitespace (h _ (List.getElem_mem hpos))
  have hback : text.toList.rdropWhile isJsWhitespace = text.toList := by
    apply List.rdropWhile_eq_self_iff.mpr
    exact fun hl => not_isJsWhitespace (h _ (List.getLast_mem hl))
  have hsecond : ∀ a b rest, text.toList = a :: b :: rest → b.isDigit := by
    intro a b rest htext
    exact h b (by simp [htext])
  unfold jsNumber
  rw [hfront, hback]
  split
  · exact absurd ‹_› hne
  iterate 6 exact absurd (hsecond _ _ _ ‹_›) (by decide)
  simp only [signed_digits h, decimalValue_digits h hne]
  rfl

theorem append_repr_injective {text : String} {n m : ℕ} (h : text ++ Nat.repr n = text ++ Nat.repr m) : n = m := by
  have hl := congrArg String.toList h
  simp only [String.toList_append, List.append_cancel_left_eq, Nat.toList_repr] at hl
  have hd := congrArg (fun digits => Nat.ofDigitChars 10 digits 0) hl
  simpa only [Nat.ofDigitChars_ten_toDigits] using hd

theorem jsNumber_repr (n : ℕ) : jsNumber (Nat.repr n) = .integer n := by
  have htext : (Nat.repr n).toList = Nat.toDigits 10 n := Nat.toList_repr
  have hdigits : ∀ c ∈ (Nat.repr n).toList, c.isDigit := by
    rw [htext]
    exact fun c hc => Nat.isDigit_of_mem_toDigits (by decide) (by decide) hc
  have hne : (Nat.repr n).toList ≠ [] := by
    rw [htext]
    exact Nat.toDigits_ne_nil
  rw [jsNumber_digits hdigits hne, htext, Nat.ofDigitChars_ten_toDigits]

theorem trimmed_number {text : List Char} {c : Char} (hc : ¬isJsWhitespace c) (h : ∀ d ∈ text, d.isDigit) :
    ((c :: text).dropWhile isJsWhitespace).rdropWhile isJsWhitespace = c :: text := by
  rw [List.dropWhile_cons_of_neg hc]
  apply List.rdropWhile_eq_self_iff.mpr
  intro hl hspace
  rcases List.mem_cons.mp (List.getLast_mem hl) with heq | hmem
  · exact hc (heq ▸ hspace)
  · exact not_isJsWhitespace (h _ hmem) hspace

theorem jsNumber_negative {text : String} (h : ∀ c ∈ text.toList, c.isDigit) (hne : text.toList ≠ []) :
    jsNumber ("-" ++ text) = .integer (-Nat.ofDigitChars 10 text.toList 0) := by
  have htext : ("-" ++ text).toList = '-' :: text.toList := String.toList_append
  unfold jsNumber
  rw [htext, trimmed_number (by decide) h]
  split
  · exact absurd ‹_› (List.cons_ne_nil _ _)
  iterate 6 exact absurd (List.cons.inj ‹_›).1 (by decide)
  simp only [signed, decimalValue_digits h hne]
  rfl

theorem repr_digits (n : ℕ) : ∀ c ∈ (Nat.repr n).toList, c.isDigit := by
  rw [Nat.toList_repr]
  exact fun c hc => Nat.isDigit_of_mem_toDigits (by decide) (by decide) hc

theorem jsNumber_int (n : ℤ) : jsNumber (Int.repr n) = .integer n := by
  cases n with
  | ofNat m => exact jsNumber_repr m
  | negSucc m =>
    have hne : (Nat.repr (m + 1)).toList ≠ [] := by
      rw [Nat.toList_repr]
      exact Nat.toDigits_ne_nil
    rw [Int.repr, jsNumber_negative (repr_digits (m + 1)) hne, Nat.toList_repr, Nat.ofDigitChars_ten_toDigits]
    rfl

end Marketplace
