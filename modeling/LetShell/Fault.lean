import LetShell.Text.Quoted

/-!
# Faults

A fault is a failure that no statement reports: it passes through the
evaluator, the engine and the shell to whoever drives them. Faults come from
numbers that cannot be read or written and from writes that the process
environment refuses. A computation fails with an error of its own kind or with
a fault.
-/

set_option autoImplicit false

namespace LetShell

/-- The most decimal digits that are read or written. -/
def digitLimit : Nat := 4300

inductive Fault where
  | invalidNumeral (token : Text)
  | numeralTooLong (digits : Nat)
  | integerTooLong
  | notNumeric
  | invalidEncoding
  | embeddedNul
  | illegalName
  | emptyName
  | noCandidate
  deriving DecidableEq, Repr

def Fault.message : Fault → Text
  | .invalidNumeral token =>
    "invalid literal for int() with base 10: ".toList ++ token.quoted.take 200
  | .numeralTooLong digits =>
    "Exceeds the limit (4300 digits) for integer string conversion: value has ".toList ++
      Text.ofNat digits ++
      " digits; use sys.set_int_max_str_digits() to increase the limit".toList
  | .integerTooLong =>
    ("Exceeds the limit (4300 digits) for integer string conversion; " ++
      "use sys.set_int_max_str_digits() to increase the limit").toList
  | .notNumeric => "not a number".toList
  | .invalidEncoding => "invalid encoding".toList
  | .embeddedNul => "embedded null byte".toList
  | .illegalName => "illegal environment variable name".toList
  | .emptyName => "empty environment variable name".toList
  | .noCandidate => "no such candidate".toList

inductive Failure (ε : Type) where
  | error (e : ε)
  | fault (f : Fault)
  deriving DecidableEq, Repr

namespace Failure

variable {ε δ α : Type}

def map (f : ε → δ) : Failure ε → Failure δ
  | .error e => .error (f e)
  | .fault x => .fault x

def ofFault : Except Fault α → Except (Failure ε) α
  | .ok a => .ok a
  | .error x => .error (.fault x)

end Failure

end LetShell
