import LetShell.Error
import LetShell.Value
import LetShell.Text.CommaList

/-!
# Option definitions

A definition gives an option its type and value in one scope. A value is
changed by setting it, adding to it or removing from it, and what that means
depends on the type: sums for integers, text for strings, items for lists and
sets. The stored value is not checked against the type when it is defined, so
a change first converts what it finds.
-/

set_option autoImplicit false

namespace LetShell

inductive OptionType where
  | bool
  | int
  | string
  | stringList
  | enum
  | set
  deriving DecidableEq, Repr

/-- The coarse view of a type that decides which operators apply. -/
inductive OptionKind where
  | bool
  | string
  | other
  deriving DecidableEq, Repr

def OptionType.kind : OptionType → OptionKind
  | .bool => .bool
  | .string => .string
  | _ => .other

inductive Change where
  | set
  | add
  | remove
  deriving DecidableEq, Repr

structure Definition where
  name : Text
  type : OptionType
  value : OptionValue
  scope : Scope
  values : List Text
  deriving DecidableEq, Repr

namespace Definition

abbrev Outcome (α : Type) := Except (Failure OptionError) α

def trueWords : List Text := ["1".toList, "yes".toList, "on".toList, "true".toList]

def falseWords : List Text := ["0".toList, "no".toList, "off".toList, "false".toList]

def readBool (d : Definition) (t : Text) : Except OptionError Bool :=
  let word := t.trim.map Char.toLower
  if word ∈ trueWords then .ok true
  else if word ∈ falseWords then .ok false
  else .error (.invalidValue d.name t)

def readInt (d : Definition) (t : Text) : Except OptionError Int :=
  match Numeral.read t.trim with
  | .ok n => .ok n
  | .error _ => .error (.invalidNumber d.name t)

def readItems (d : Definition) (t : Text) : Except OptionError (List Text) :=
  let items := t.items
  let unknown := items.filter (· ∉ d.values)
  if unknown = [] then .ok items
  else .error (.invalidValue d.name (Text.ofItems (Text.sorted unknown)))

def arranged (d : Definition) (items : List Text) : Text :=
  Text.ofItems (d.values.filter (· ∈ items))

def set (d : Definition) (t : Text) : Except OptionError OptionValue :=
  match d.type with
  | .bool => (d.readBool t).map .bool
  | .int => (d.readInt t).map .int
  | .string => .ok (.text t)
  | .stringList => .ok (.text (Text.ofItems t.items))
  | .enum => if t ∈ d.values then .ok (.text t) else .error (.invalidValue d.name t)
  | .set => (d.readItems t).map fun items => .text (d.arranged items)

def lift {α : Type} : Except OptionError α → Outcome α
  | .ok a => .ok a
  | .error e => .error (.error e)

def currentItems (d : Definition) : Outcome (List Text) :=
  Failure.ofFault (d.value.toText.map Text.items)

def currentInt (d : Definition) : Outcome Int := Failure.ofFault d.value.toInt

def add (d : Definition) (t : Text) : Outcome OptionValue :=
  match d.type with
  | .int => do
    let n ← d.currentInt
    let m ← lift (d.readInt t)
    return .int (n + m)
  | .string => Failure.ofFault (d.value.toText.map fun old => .text (old ++ t))
  | .stringList => do
    let old ← d.currentItems
    return .text (Text.ofItems (old ++ t.items.filter (· ∉ old)))
  | .set => do
    let old ← d.currentItems
    let new ← lift (d.readItems t)
    return .text (d.arranged (old ++ new))
  | .bool | .enum => .error (.error (.unsupported "+=".toList d.name))

def remove (d : Definition) (t : Text) : Outcome OptionValue :=
  match d.type with
  | .int => do
    let n ← d.currentInt
    let m ← lift (d.readInt t)
    return .int (n - m)
  | .stringList => do
    let old ← d.currentItems
    return .text (Text.ofItems (old.filter (· ∉ t.items)))
  | .set => do
    let gone ← lift (d.readItems t)
    let old ← d.currentItems
    return .text (Text.ofItems (old.filter (· ∉ gone)))
  | .bool | .string | .enum => .error (.error (.unsupported "-=".toList d.name))

def changed (d : Definition) : Change → Text → Outcome OptionValue
  | .set => fun t => lift (d.set t)
  | .add => d.add
  | .remove => d.remove

def format (d : Definition) : Except Fault Text :=
  match d.type with
  | .bool => .ok (if d.value.isOn then ['1'] else ['0'])
  | _ => d.value.toText

def describe (d : Definition) : Except Fault Text :=
  match d.type with
  | .bool => .ok (if d.value.isOn then [' ', ' '] ++ d.name else ['n', 'o'] ++ d.name)
  | _ => d.value.toText.map fun t => [' ', ' '] ++ d.name ++ ['='] ++ t

end Definition

end LetShell
