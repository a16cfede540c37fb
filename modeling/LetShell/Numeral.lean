import LetShell.Fault
import LetShell.Text.Blank
import LetShell.Text.Digit

/-!
# Numerals

An integer is read from an optional sign and decimal digits of any script, with
single underscores between digits and blanks around. It is written with ASCII
digits. Both directions stop at the digit limit; reading counts leading zeros,
writing has none.
-/

set_option autoImplicit false

namespace LetShell.Numeral

inductive Problem where
  | malformed
  | tooLong (digits : Nat)
  deriving DecidableEq, Repr

/-- The information separators are no blanks around a numeral. -/
def isPadding (c : Char) : Bool := Text.isBlank c && !(0x1c ≤ c.toNat && c.toNat ≤ 0x1f)

def isPart (c : Char) : Bool := Text.isDecimal c || c == '_'

def grouped : Text → Bool
  | [] => false
  | [c] => Text.isDecimal c
  | c :: '_' :: s => Text.isDecimal c && grouped s
  | c :: s => Text.isDecimal c && grouped s

def places (t : Text) : List Nat := t.filterMap Text.digitValue?

def positional (digits : List Nat) : Nat := digits.foldl (fun n d => 10 * n + d) 0

def split : Text → Bool × Text
  | '-' :: s => (true, s)
  | '+' :: s => (false, s)
  | s => (false, s)

/-- The length of the digits is judged before what stands after them. -/
def read (t : Text) : Except Problem Int :=
  let (negative, body) := split (t.dropWhile isPadding)
  let written := body.takeWhile isPart
  let digits := places written
  if !grouped written then .error .malformed
  else if digitLimit < digits.length then .error (.tooLong digits.length)
  else if !(body.dropWhile isPart).all isPadding then .error .malformed
  else .ok (if negative then -(positional digits : Int) else positional digits)

def readOrFault (t : Text) : Except Fault Int :=
  match read t with
  | .ok n => .ok n
  | .error .malformed => .error (.invalidNumeral t)
  | .error (.tooLong digits) => .error (.numeralTooLong digits)

def Long (n : Int) : Prop := digitLimit < (Text.ofNat n.natAbs).length

instance (n : Int) : Decidable (Long n) :=
  inferInstanceAs (Decidable (digitLimit < (Text.ofNat n.natAbs).length))

def write (n : Int) : Except Fault Text :=
  if digitLimit < (Text.ofNat n.natAbs).length then .error .integerTooLong
  else .ok (Text.ofInt n)

theorem positional_append (xs : List Nat) (d : Nat) :
    positional (xs ++ [d]) = 10 * positional xs + d := by
  simp [positional]

theorem write_eq_ok_iff {n : Int} {t : Text} :
    write n = .ok t ↔ (Text.ofNat n.natAbs).length ≤ digitLimit ∧ t = Text.ofInt n := by
  unfold write
  split
  · simp; omega
  · simp only [Except.ok.injEq]
    exact ⟨fun h => ⟨by omega, h.symm⟩, fun h => h.2.symm⟩

theorem write_eq_error_iff {n : Int} {f : Fault} :
    write n = .error f ↔ f = .integerTooLong ∧ Long n := by
  unfold write Long
  split
  · rename_i h
    simp [h, eq_comm]
  · rename_i h
    simp [h]

end LetShell.Numeral
