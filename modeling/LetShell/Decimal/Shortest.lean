import LetShell.Decimal.Binary64
import LetShell.Text.Basic

/-!
# Shortest decimals

A binary value is written with the fewest digits that round back to it, and of
those with the digits nearest to it, a tie to the even last digit. Seventeen
digits always suffice. From 10^-4 up to 10^16 the point is positional; beyond,
the exponent is written with a sign and two digits at least.
-/

set_option autoImplicit false

namespace LetShell.Binary64

/-- Twice the distances from `significand · 2 ^ exponent` to the ends of the
reals that round to it, in units of half of the last place. The lower end is
nearer below a power of two. -/
def margins (significand : Nat) (exponent : Int) : Nat × Nat :=
  (if significand = leastFull ∧ leastExponent < exponent then 1 else 2, 2)

/-- The greatest `k ≤ bound` with `10 ^ k ≤ num / den`, found downwards. -/
def decade (num den : Nat) : Nat → Int → Int
  | 0, k => k
  | fuel + 1, k =>
    if power 10 k * den ≤ num * power 10 (-k) then k else decade num den fuel (k - 1)

/-- The digits of the nearest multiple of `10 ^ unit` that rounds back, if one
does. -/
def onGrid (significand : Nat) (exponent unit : Int) : Option Nat :=
  let (lower, upper) := margins significand exponent
  let shift := exponent - 2
  let scale := power 2 shift * power 10 (-unit)
  let den := power 2 (-shift) * power 10 unit
  let value := 4 * significand * scale
  let low := (4 * significand - lower) * scale
  let high := (4 * significand + upper) * scale
  let inside := fun d : Nat =>
    if significand % 2 = 0 then low ≤ d * den ∧ d * den ≤ high else low < d * den ∧ d * den < high
  let d := value / den
  let below := value - d * den
  let above := (d + 1) * den - value
  match decide (inside d), decide (inside (d + 1)) with
  | true, true =>
    some (if below < above then d else if above < below then d + 1 else d + d % 2)
  | true, false => some d
  | false, true => some (d + 1)
  | false, false => none

def search (significand : Nat) (exponent : Int) : Nat → Int → Nat × Int
  | 0, unit => ((onGrid significand exponent unit).getD 0, unit)
  | fuel + 1, unit =>
    match onGrid significand exponent unit with
    | some d => (d, unit)
    | none => search significand exponent fuel (unit - 1)

def stripped : Nat → Nat → Int → Nat × Int
  | 0, d, unit => (d, unit)
  | fuel + 1, d, unit => if d % 10 = 0 then stripped fuel (d / 10) (unit + 1) else (d, unit)

/-- The shortest digits of a positive value and the unit of the last one. -/
def shortest (significand : Nat) (exponent : Int) : Nat × Int :=
  let num := significand * power 2 exponent
  let den := power 2 (-exponent)
  let top := decade num den 640 309
  let (d, unit) := search significand exponent 17 top
  stripped 20 d unit

structure PointFormat where
  /-- The least and greatest place of the point for positional writing. -/
  leastPoint : Int
  greatestPoint : Int
  exponentDigits : Nat

/-- Positional from 0.0001 up to sixteen digits before the point. -/
def standardFormat : PointFormat := ⟨-3, 16, 2⟩

def zeros (n : Nat) : Text := List.replicate n '0'

def positional (digits : Text) (point : Int) : Text :=
  if point ≤ 0 then ['0', '.'] ++ zeros (-point).toNat ++ digits
  else
    let whole := digits.take point.toNat ++ zeros (point.toNat - digits.length)
    let rest := digits.drop point.toNat
    whole ++ ['.'] ++ (if rest = [] then ['0'] else rest)

def exponential (f : PointFormat) (digits : Text) (point : Int) : Text :=
  let rest := digits.drop 1
  let e := point - 1
  let written := Text.ofNat e.natAbs
  digits.take 1 ++ (if rest = [] then [] else '.' :: rest) ++ ['e', if e < 0 then '-' else '+'] ++
    zeros (f.exponentDigits - written.length) ++ written

def write (f : PointFormat) (digits : Text) (point : Int) : Text :=
  if f.leastPoint ≤ point ∧ point ≤ f.greatestPoint then positional digits point
  else exponential f digits point

def signed (negative : Bool) (t : Text) : Text := if negative then '-' :: t else t

def toText : Binary64 → Text
  | .nan => "nan".toList
  | .infinite negative => signed negative "inf".toList
  | .finite negative significand exponent =>
    if significand = 0 then signed negative "0.0".toList
    else
      let (d, unit) := shortest significand exponent
      let digits := Text.ofNat d
      signed negative (write standardFormat digits (digits.length + unit))

end LetShell.Binary64
