/-!
# Binary floating point of 64 bits

A finite value is a sign and a significand times a power of two, in lowest
place or with all 53 bits in use. A decimal is rounded to the nearest value, a
tie to the even significand. Decimals too large become infinite.
-/

set_option autoImplicit false

namespace LetShell

/-- A finite value is `± significand · 2 ^ exponent`. -/
inductive Binary64 where
  | finite (negative : Bool) (significand : Nat) (exponent : Int)
  | infinite (negative : Bool)
  | nan
  deriving DecidableEq, Repr

namespace Binary64

def leastExponent : Int := -1074

def greatestExponent : Int := 971

def leastFull : Nat := 0x10000000000000

def bound : Nat := 0x20000000000000

def power (base : Nat) (e : Int) : Nat := Nat.pow base e.toNat

/-- The whole number nearest to a quotient, a tie to the even one. -/
def roundDiv (num den : Nat) : Nat :=
  let q := num / den
  let r := num % den
  if 2 * r < den then q
  else if den < 2 * r then q + 1
  else q + q % 2

def scaled (num den : Nat) (shift : Int) : Nat × Nat :=
  (num * power 2 shift, den * power 2 (-shift))

def exponentOf (num den : Nat) : Int :=
  let e := (Nat.log2 num : Int) - (Nat.log2 den : Int) - 53
  let (n, d) := scaled num den (-e)
  max (if bound * d ≤ n then e + 1 else e) leastExponent

def ofQuotient (negative : Bool) (num den : Nat) : Binary64 :=
  if num = 0 then .finite negative 0 leastExponent
  else
    let e := exponentOf num den
    let (n, d) := scaled num den (-e)
    let m := roundDiv n d
    let (m, e) := if m = bound then (leastFull, e + 1) else (m, e)
    if greatestExponent < e then .infinite negative else .finite negative m e

/-- Rounds `± digits · 10 ^ exponent`. Decimals far beyond either end of the
range are decided by their number of digits. -/
def ofDecimal (negative : Bool) (digits : Nat) (exponent : Int) : Binary64 :=
  let size : Int := (Nat.toDigits 10 digits).length + exponent
  if digits = 0 ∨ size < -330 then .finite negative 0 leastExponent
  else if 310 < size then .infinite negative
  else ofQuotient negative (digits * power 10 exponent) (power 10 (-exponent))

example : ofDecimal false 1 0 = .finite false leastFull (-52) := by decide
example : ofDecimal false 5 (-324) = .finite false 1 (-1074) := by decide +kernel
example : ofDecimal true 1 400 = .infinite true := by decide

end Binary64

end LetShell
