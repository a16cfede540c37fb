import LetShell.Engine.Lifecycle
import LetShell.Statement

/-!
# Applying an operator to a target

Which operators a target takes depends on what it is, and for an option on its
global definition whatever scope is named. A variable takes `=` and `.=`, a
text option likewise, a boolean option none, any other option all but `.=`. An
option without a global definition takes all of them here and is refused when
the operator is applied.
-/

set_option autoImplicit false

namespace LetShell

def Operator.change : Operator → Change
  | .assign => .set
  | .append | .add => .add
  | .subtract => .remove

def OptionKind.permits : OptionKind → Operator → Bool
  | .bool, _ => false
  | .string, op => op = .assign || op = .append
  | .other, op => op ≠ .append

def OptionStore.permits (s : OptionStore) (target : Target) (op : Operator) : Bool :=
  match target.kind with
  | .environment => op = .assign || op = .append
  | _ =>
    match s.lookup .global target.name with
    | none => true
    | some d => d.type.kind.permits op

namespace Engine

/-- Gives a record its value and writes it to the table under the record's own
name. The record has changed even if the table refuses. -/
def store (e : Engine) (r : Record) (value message : Text) : Outcome Unit :=
  let e := { e with registry := e.registry.modify r.serial fun r =>
    { r with value := value, removed := false } }
  match e.table.set r.name value with
  | .error f => (e, .error (.fault f))
  | .ok t => ({ e with table := t }.note .debug engineSource message, .ok ())

def setVariable (e : Engine) (name value : Text) : Outcome Unit :=
  match e.obtain name with
  | (e, none) =>
    (e.note .error engineSource
      ("cannot create ".toList ++ name ++ ": not enough memory".toList), .error (.error .allocation))
  | (e, some r) => e.store r value ("set $".toList ++ name)

def appendVariable (e : Engine) (name value : Text) : Outcome Unit :=
  match e.registry.find? name with
  | none => e.setVariable name value
  | some r =>
    if r.removed then e.setVariable name value
    else e.store r (r.value ++ value) ("appended to $".toList ++ name)

def changeOption (e : Engine) (d : Definition) (op : Operator) (value : Text) : Outcome Unit :=
  match e.options.change d op.change value with
  | (options, .error f) => ({ e with options := options }, .error (f.map .option))
  | (options, .ok ()) =>
    ({ e with options := options }.note .debug engineSource
      (d.scope.name ++ " option ".toList ++ d.name ++ [' '] ++ op.spelling ++ [' '] ++
        value.quoted), .ok ())

def applyOption (e : Engine) (scope : Scope) (name : Text) (op : Operator) (value : Text)
    (required : Bool) : Outcome Unit :=
  match e.options.lookup scope name with
  | some d => e.changeOption d op value
  | none =>
    if required then (e, .error (.error (.unknownOption name scope))) else (e, .ok ())

/-- An option without a scope is changed locally first, where it is local at
all, and then globally. -/
def execute (e : Engine) (target : Target) (op : Operator) (value : Text) : Outcome Unit :=
  match target.kind with
  | .environment =>
    if op = .append then e.appendVariable target.name value else e.setVariable target.name value
  | .localOption => e.applyOption .local target.name op value true
  | .globalOption => e.applyOption .global target.name op value true
  | .anyOption =>
    match e.applyOption .local target.name op value false with
    | (e, .ok ()) => e.applyOption .global target.name op value true
    | (e, .error f) => (e, .error f)

end Engine

end LetShell
