import Mathlib.Data.Nat.Notation

namespace Marketplace

def hexDigit (c : Char) : Option ℕ :=
  if '0' ≤ c ∧ c ≤ '9' then some (c.toNat - '0'.toNat)
  else if 'a' ≤ c ∧ c ≤ 'f' then some (c.toNat - 'a'.toNat + 10)
  else if 'A' ≤ c ∧ c ≤ 'F' then some (c.toNat - 'A'.toNat + 10)
  else none

def utf16Units (c : Char) : List ℕ :=
  if c.toNat < 0x10000 then [c.toNat]
  else [0xd800 + (c.toNat - 0x10000) / 0x400, 0xdc00 + (c.toNat - 0x10000) % 0x400]

def utf16 (text : List Char) : List ℕ := text.flatMap utf16Units

-- node's table of digits is indexed by the low byte of a unit
def unhex (unit : ℕ) : Option ℕ := hexDigit (Char.ofNat (unit % 256))

-- decoding stops at the first pair that is not hexadecimal
def hexDecode : List ℕ → List ℕ
  | high :: low :: rest =>
    match unhex high, unhex low with
    | some x, some y => (16 * x + y) :: hexDecode rest
    | _, _ => []
  | _ => []

-- `Buffer.from(text, 'hex')`
def bufferFromHex (text : List Char) : List ℕ := hexDecode (utf16 text)

def keyLength : ℕ := 64

-- `toString('hex')`
def toHex (bytes : List ℕ) : List Char := bytes.flatMap
    fun byte => [Nat.digitChar (byte / 16), Nat.digitChar (byte % 16)]

-- `saltBytes` are the 16 random bytes
def hashPassword (scrypt : String → String → ℕ → List ℕ) (password : String) (saltBytes : List ℕ) : String :=
  let salt := toHex saltBytes
  let derivedKey := scrypt password (String.ofList salt) keyLength
  String.ofList (['$'].intercalate ["scrypt".toList, salt, toHex derivedKey])

-- `scrypt password salt keyLength` stands for node's key derivation
def verifyPassword (scrypt : String → String → ℕ → List ℕ) (password storedHash : String) : Bool :=
  match storedHash.toList.splitOn '$' with
  | algorithm :: salt :: expectedHex :: _ =>
    if algorithm ≠ "scrypt".toList || salt = [] || expectedHex = [] then false
    else
      let expected := bufferFromHex expectedHex
      let actual := scrypt password (String.ofList salt) expected.length
      if expected.length ≠ actual.length then false else expected = actual
  | _ => false

end Marketplace
