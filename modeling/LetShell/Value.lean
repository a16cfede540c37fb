import LetShell.Numeral

/-!
# Values

An expression yields an integer or a text. An option holds one of these, a
boolean, or nothing; read in an expression, a boolean counts as 0 or 1 and
nothing counts as an unknown option.
-/

set_option autoImplicit false

namespace LetShell

inductive Value where
  | int (n : Int)
  | text (t : Text)
  deriving DecidableEq, Repr

def Value.toText : Value → Except Fault Text
  | .int n => Numeral.write n
  | .text t => .ok t

theorem Value.toText_eq_error_iff {v : Value} {f : Fault} :
    v.toText = .error f ↔ f = .integerTooLong ∧ ∃ n, v = .int n ∧ Numeral.Long n := by
  cases v with
  | int n => simp [toText, Numeral.write_eq_error_iff]
  | text t => simp [toText]

inductive OptionValue where
  | none
  | bool (b : Bool)
  | int (n : Int)
  | text (t : Text)
  deriving DecidableEq, Repr

namespace OptionValue

def toValue? : OptionValue → Option Value
  | .none => Option.none
  | .bool b => some (.int (if b then 1 else 0))
  | .int n => some (.int n)
  | .text t => some (.text t)

def toText : OptionValue → Except Fault Text
  | .none => .ok "None".toList
  | .bool true => .ok "True".toList
  | .bool false => .ok "False".toList
  | .int n => Numeral.write n
  | .text t => .ok t

def toInt : OptionValue → Except Fault Int
  | .none => .error .notNumeric
  | .bool b => .ok (if b then 1 else 0)
  | .int n => .ok n
  | .text t => Numeral.readOrFault t

def isOn : OptionValue → Bool
  | .none => false
  | .bool b => b
  | .int n => n != 0
  | .text t => !t.isEmpty

theorem toText_eq_error_iff {v : OptionValue} {f : Fault} :
    v.toText = .error f ↔ f = .integerTooLong ∧ ∃ n, v = .int n ∧ Numeral.Long n := by
  cases v with
  | none => simp [toText]
  | bool b => cases b <;> simp [toText]
  | int n => simp [toText, Numeral.write_eq_error_iff]
  | text t => simp [toText]

end OptionValue

end LetShell
