import PageTemplate.Text.Bytes

/-!
Text read from bytes that need not be UTF-8. What cannot be read becomes U+FFFD: one for each
longest beginning of a character that is not continued, and one for each byte that begins none.
-/

namespace PageTemplate.Text

/-- A beginning of a character: its bits so far, how many bytes are missing, and between which
bounds the bits of the next one have to be. -/
structure Begun where
  value : Nat
  missing : Nat
  least : Nat := 0
  most : Nat := 63

inductive Decoded
  | char (c : Char)
  | part (begun : Begun)
  | wrong

def readFirst (byte : Nat) : Decoded :=
  if byte < 0x80 then .char (Char.ofNat byte)
  else if byte < 0xC2 then .wrong
  else if byte < 0xE0 then .part { value := byte - 0xC0, missing := 1 }
  else if byte < 0xF0 then
    .part {
      value := byte - 0xE0
      missing := 2
      least := if byte = 0xE0 then 32 else 0
      most := if byte = 0xED then 31 else 63 }
  else if byte < 0xF5 then
    .part {
      value := byte - 0xF0
      missing := 3
      least := if byte = 0xF0 then 16 else 0
      most := if byte = 0xF4 then 15 else 63 }
  else .wrong

def Begun.readNext (begun : Begun) (byte : Nat) : Decoded :=
  if byte < 0x80 + begun.least ∨ 0x80 + begun.most < byte then .wrong
  else
    let value := begun.value * 64 + (byte - 0x80)
    if begun.missing ≤ 1 then .char (Char.ofNat value)
    else .part { value := value, missing := begun.missing - 1 }

def Decoded.chars (later : Option Begun → List Char) : Decoded → List Char
  | .char c => c :: later none
  | .part begun => later (some begun)
  | .wrong => '\uFFFD' :: later none

/-- The characters of bytes behind what may be the beginning of one. A byte that does not continue
it is read again by itself. -/
def lossyChars : Option Begun → List UInt8 → List Char
  | none, [] => []
  | some _, [] => ['\uFFFD']
  | none, byte :: rest => (readFirst byte.toNat).chars fun begun => lossyChars begun rest
  | some begun, byte :: rest =>
    match begun.readNext byte.toNat with
    | .wrong => '\uFFFD' :: (readFirst byte.toNat).chars fun begun => lossyChars begun rest
    | decoded => decoded.chars fun begun => lossyChars begun rest

def lossy (bytes : List UInt8) : String := String.ofList (lossyChars none bytes)

end PageTemplate.Text
