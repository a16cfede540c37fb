import LetShell.Text.Basic

/-!
# Unicode encodings

A text is encoded in UTF-8 and decoded from it, strictly: no overlong form, no
surrogate, nothing above the last code point. In a list of code points, as it
comes from units of 16 bits, surrogates are joined in pairs, and a lone one is
read as the replacement character.
-/

set_option autoImplicit false

namespace LetShell.Text

abbrev Bytes := List UInt8

def utf8Char (c : Char) : List Nat :=
  let n := c.toNat
  if n < 0x80 then [n]
  else if n < 0x800 then [0xc0 + n / 64, 0x80 + n % 64]
  else if n < 0x10000 then [0xe0 + n / 4096, 0x80 + n / 64 % 64, 0x80 + n % 64]
  else [0xf0 + n / 262144, 0x80 + n / 4096 % 64, 0x80 + n / 64 % 64, 0x80 + n % 64]

def utf8 (t : Text) : Bytes := (t.flatMap utf8Char).map UInt8.ofNat

def isTail (b : Nat) : Bool := 0x80 ≤ b && b < 0xc0

/-- Whether a code point has to be written with at least this many octets and
is no surrogate. -/
def fits (least n : Nat) : Bool :=
  least ≤ n && n < 0x110000 && !(0xd800 ≤ n && n < 0xe000)

def ofOctets : List Nat → Option Text
  | [] => some []
  | a :: s =>
    if a < 0x80 then (ofOctets s).map (Char.ofNat a :: ·)
    else if a < 0xc0 then none
    else if a < 0xe0 then
      match s with
      | b :: s =>
        let n := (a - 0xc0) * 64 + (b - 0x80)
        if isTail b && fits 0x80 n then (ofOctets s).map (Char.ofNat n :: ·) else none
      | _ => none
    else if a < 0xf0 then
      match s with
      | b :: c :: s =>
        let n := (a - 0xe0) * 4096 + (b - 0x80) * 64 + (c - 0x80)
        if isTail b && isTail c && fits 0x800 n then (ofOctets s).map (Char.ofNat n :: ·) else none
      | _ => none
    else
      match s with
      | b :: c :: d :: s =>
        let n := (a - 0xf0) * 262144 + (b - 0x80) * 4096 + (c - 0x80) * 64 + (d - 0x80)
        if isTail b && isTail c && isTail d && fits 0x10000 n then
          (ofOctets s).map (Char.ofNat n :: ·)
        else none
      | _ => none

def ofUtf8? (bytes : Bytes) : Option Text := ofOctets (bytes.map UInt8.toNat)

def replacement : Char := '\ufffd'

def charOf (n : Nat) : Char :=
  if 0xd800 ≤ n ∧ n < 0xe000 ∨ 0x110000 ≤ n then replacement else Char.ofNat n

def isHigh (n : Nat) : Bool := 0xd800 ≤ n && n < 0xdc00

def isLow (n : Nat) : Bool := 0xdc00 ≤ n && n < 0xe000

def joinPairs : List Nat → List Nat
  | [] => []
  | [n] => [n]
  | a :: b :: s =>
    if isHigh a && isLow b then (0x10000 + (a - 0xd800) * 1024 + (b - 0xdc00)) :: joinPairs s
    else a :: joinPairs (b :: s)

def ofPoints (points : List Nat) : Text := points.map charOf

end LetShell.Text
