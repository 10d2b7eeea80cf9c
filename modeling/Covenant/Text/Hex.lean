/-! Lowercase hexadecimal text: of bytes, two digits each, and of numbers. -/

namespace Covenant.Hex

/-- The digit for a value below sixteen. -/
def digit (n : Nat) : Char :=
  if n < 10 then Char.ofNat (0x30 + n) else Char.ofNat (0x57 + n)

/-- The value of a digit, in either case, by its ASCII code. -/
def digitValue? (code : UInt8) : Option UInt8 :=
  if 0x30 ≤ code ∧ code ≤ 0x39 then some (code - 0x30)
  else if 0x61 ≤ code ∧ code ≤ 0x66 then some (code - 0x61 + 10)
  else if 0x41 ≤ code ∧ code ≤ 0x46 then some (code - 0x41 + 10)
  else none

def encodeByte (byte : UInt8) : List Char :=
  [digit (byte.toNat / 16), digit (byte.toNat % 16)]

def encode (bytes : List UInt8) : String :=
  String.ofList (bytes.flatMap encodeByte)

/-- Reads codes of digits in pairs; an odd code or one of no digit spoils the whole text. -/
def decodePairs? (codes : List UInt8) : Option (List UInt8) :=
  go [] codes
where
  go : List UInt8 → List UInt8 → Option (List UInt8)
    | bytes, [] => some bytes.reverse
    | _, [_] => none
    | bytes, high :: low :: rest =>
        match digitValue? high, digitValue? low with
        | some h, some l => go ((h <<< 4 ||| l) :: bytes) rest
        | _, _ => none

/-- Pairs are of bytes: a character outside ASCII takes up several and may straddle two pairs. -/
def decode? (text : String) : Option (List UInt8) :=
  decodePairs? text.toUTF8.data.toList

/-- The digits of a number, without leading zeros; zero is one digit. -/
def ofNat (n : Nat) : String :=
  String.ofList (Nat.toDigits 16 n)

/-- The digits of a number, filled up with zeros to `width`. -/
def padded (width n : Nat) : String :=
  let digits := Nat.toDigits 16 n
  String.ofList (List.replicate (width - digits.length) '0' ++ digits)

end Covenant.Hex
