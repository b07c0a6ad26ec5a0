import Mathlib.Data.List.Sort
import Marketplace.Values

namespace Marketplace

inductive JsonValue
  | null
  | boolean (value : Bool)
  | number (value : JsNumber)
  | string (value : String)
  | array (items : List JsonValue)
  | object (fields : List (String × JsonValue))

namespace JsonValue

def truthy : JsonValue → Bool
  | .null => false
  | .boolean value => value
  | .number value => value ≠ .integer 0
  | .string value => value ≠ ""
  | .array _ | .object _ => true

def get (value : JsonValue) (name : String) : Option JsonValue :=
  match value with
  | .object fields => fields.lookup name
  | _ => none

def escape (c : Char) : List Char :=
  match c with
  | '"' => ['\\', '"']
  | '\\' => ['\\', '\\']
  | '\x08' => ['\\', 'b']
  | '\x0c' => ['\\', 'f']
  | '\n' => ['\\', 'n']
  | '\r' => ['\\', 'r']
  | '\t' => ['\\', 't']
  | c =>
    if c.toNat < 32 then ['\\', 'u', '0', '0', Nat.digitChar (c.toNat / 16), Nat.digitChar (c.toNat % 16)]
    else [c]

def quoted (text : String) : List Char := '"' :: text.toList.flatMap escape ++ ['"']

-- `NaN` and the infinities are written as null; no fraction is ever written
def literal : JsNumber → List Char
  | .integer n => (Int.repr n).toList
  | .other => "null".toList

mutual

/-- `JSON.stringify(value)`. -/
def stringify : JsonValue → List Char
  | .null => "null".toList
  | .boolean true => "true".toList
  | .boolean false => "false".toList
  | .number value => literal value
  | .string value => quoted value
  | .array [] => ['[', ']']
  | .array (item :: items) => '[' :: (stringify item ++ stringifyItems items)
  | .object [] => ['{', '}']
  | .object ((name, value) :: fields) => '{' :: (quoted name ++ ':' :: (stringify value ++ stringifyFields fields))

def stringifyItems : List JsonValue → List Char
  | [] => [']']
  | item :: items => ',' :: (stringify item ++ stringifyItems items)

def stringifyFields : List (String × JsonValue) → List Char
  | [] => ['}']
  | (name, value) :: fields => ',' :: (quoted name ++ ':' :: (stringify value ++ stringifyFields fields))

end

-- Each part of `JSON.parse` returns what it has read and the text behind it; `none` is a syntax error.

def skipWhitespace (text : List Char) : List Char := text.dropWhile fun c => c ∈ [' ', '\t', '\n', '\r']

def isNumberChar (c : Char) : Bool := c.isDigit || c ∈ ['-', '+', '.', 'e', 'E']

def isExponent : List Char → Bool
  | [] => true
  | c :: text => (c = 'e' || c = 'E') && (signed text).2 ≠ [] && (signed text).2.all Char.isDigit

def isFraction : List Char → Bool
  | '.' :: text => text.takeWhile Char.isDigit ≠ [] && isExponent (text.dropWhile Char.isDigit)
  | text => isExponent text

def isUnsignedLiteral (text : List Char) : Bool :=
  match text.takeWhile Char.isDigit with
  | [] => false
  | ['0'] => isFraction (text.dropWhile Char.isDigit)
  | digit :: _ => digit ≠ '0' && isFraction (text.dropWhile Char.isDigit)

def isLiteral : List Char → Bool
  | '-' :: text => isUnsignedLiteral text
  | text => isUnsignedLiteral text

def parseNumber (text : List Char) : Option (JsonValue × List Char) :=
  if isLiteral (text.takeWhile isNumberChar) then
    some (.number (jsNumber (String.ofList (text.takeWhile isNumberChar))), text.dropWhile isNumberChar)
  else none

def keyword (word : List Char) (value : JsonValue) (text : List Char) : Option (JsonValue × List Char) :=
  if word.isPrefixOf text then some (value, text.drop word.length) else none

def isHighSurrogate (unit : ℕ) : Bool := 0xd800 ≤ unit && unit < 0xdc00

def isLowSurrogate (unit : ℕ) : Bool := 0xdc00 ≤ unit && unit < 0xe000

-- U+FFFD for half of a pair, as it is encoded
def codeUnit (unit : ℕ) : Char := if isHighSurrogate unit || isLowSurrogate unit then '\ufffd' else Char.ofNat unit

def lowSurrogate (unit : ℕ) (text : List Char) : Char × List Char :=
  match text with
  | '\\' :: 'u' :: a :: b :: c :: d :: rest =>
    match digitsValue 16 [a, b, c, d] with
    | some low =>
      if isLowSurrogate low then (Char.ofNat (0x10000 + (unit - 0xd800) * 0x400 + (low - 0xdc00)), rest)
      else (codeUnit unit, text)
    | none => (codeUnit unit, text)
  | _ => (codeUnit unit, text)

def unescape : List Char → Option (Char × List Char)
  | '"' :: text => some ('"', text)
  | '\\' :: text => some ('\\', text)
  | '/' :: text => some ('/', text)
  | 'b' :: text => some ('\x08', text)
  | 'f' :: text => some ('\x0c', text)
  | 'n' :: text => some ('\n', text)
  | 'r' :: text => some ('\r', text)
  | 't' :: text => some ('\t', text)
  | 'u' :: a :: b :: c :: d :: text =>
    (digitsValue 16 [a, b, c, d]).map fun unit =>
      if isHighSurrogate unit then lowSurrogate unit text else (codeUnit unit, text)
  | _ => none

def characters : ℕ → List Char → Option (List Char × List Char)
  | 0, _ => none
  | _, [] => none
  | n + 1, c :: text =>
    if c = '"' then some ([], text)
    else if c = '\\' then do
      let (c, text) ← unescape text
      let (cs, text) ← characters n text
      pure (c :: cs, text)
    else if c.toNat < 32 then none
    else do
      let (cs, text) ← characters n text
      pure (c :: cs, text)

def parseString (text : List Char) : Option (String × List Char) :=
  (characters text.length text).map fun parsed => (String.ofList parsed.1, parsed.2)

section Parts

variable (value : List Char → Option (JsonValue × List Char))

def elements : ℕ → List Char → Option (List JsonValue × List Char)
  | 0, _ => none
  | n + 1, text => do
    let (item, text) ← value text
    match skipWhitespace text with
    | ',' :: text =>
      let (items, text) ← elements n text
      pure (item :: items, text)
    | ']' :: text => pure ([item], text)
    | _ => none

def member (text : List Char) : Option ((String × JsonValue) × List Char) :=
  match skipWhitespace text with
  | '"' :: text => do
    let (name, text) ← parseString text
    match skipWhitespace text with
    | ':' :: text =>
      let (value, text) ← value text
      pure ((name, value), text)
    | _ => none
  | _ => none

def members : ℕ → List Char → Option ((List (String × JsonValue)) × List Char)
  | 0, _ => none
  | n + 1, text => do
    let (field, text) ← member value text
    match skipWhitespace text with
    | ',' :: text =>
      let (fields, text) ← members n text
      pure (field :: fields, text)
    | '}' :: text => pure ([field], text)
    | _ => none

end Parts

def setField (fields : List (String × JsonValue)) (field : String × JsonValue) : List (String × JsonValue) :=
  if field.1 ∈ fields.map Prod.fst then fields.map fun old => if old.1 = field.1 then field else old
  else fields ++ [field]

-- of two fields with one name the last one counts
def merge (fields : List (String × JsonValue)) : List (String × JsonValue) := fields.foldl setField []

def parseValue : ℕ → List Char → Option (JsonValue × List Char)
  | 0, _ => none
  | n + 1, text =>
    match skipWhitespace text with
    | '[' :: text =>
      match skipWhitespace text with
      | ']' :: text => some (.array [], text)
      | text => (elements (parseValue n) text.length text).map fun parsed => (.array parsed.1, parsed.2)
    | '{' :: text =>
      match skipWhitespace text with
      | '}' :: text => some (.object [], text)
      | text => (members (parseValue n) text.length text).map fun parsed => (.object (merge parsed.1), parsed.2)
    | '"' :: text => (parseString text).map fun parsed => (.string parsed.1, parsed.2)
    | 't' :: text => keyword ['r', 'u', 'e'] (.boolean true) text
    | 'f' :: text => keyword ['a', 'l', 's', 'e'] (.boolean false) text
    | 'n' :: text => keyword ['u', 'l', 'l'] .null text
    | text => parseNumber text

/-- `JSON.parse(text)`. -/
def parse (text : List Char) : Option JsonValue :=
  match parseValue text.length text with
  | some (value, rest) => if skipWhitespace rest = [] then some value else none
  | none => none

-- the order of the keys in a jsonb object
def keyLe (x y : String × JsonValue) : Prop :=
  x.1.utf8ByteSize < y.1.utf8ByteSize ∨ x.1.utf8ByteSize = y.1.utf8ByteSize ∧ x.1 ≤ y.1

instance : DecidableRel keyLe := fun _ _ => inferInstanceAs (Decidable (_ ∨ _))

mutual

def jsonb : JsonValue → JsonValue
  | .array items => .array (jsonbItems items)
  | .object fields => .object ((merge (jsonbFields fields)).insertionSort keyLe)
  | value => value

def jsonbItems : List JsonValue → List JsonValue
  | [] => []
  | item :: items => jsonb item :: jsonbItems items

def jsonbFields : List (String × JsonValue) → List (String × JsonValue)
  | [] => []
  | (name, value) :: fields => (name, jsonb value) :: jsonbFields fields

end

def bytes (v : JsonValue) : ByteArray := (String.ofList (stringify v)).toUTF8

-- `none` for bytes that are not UTF-8 or not JSON
def ofBytes (content : ByteArray) : Option JsonValue := (String.fromUTF8? content).bind fun text => parse text.toList

end JsonValue

end Marketplace
