import LetShell.Completion
import LetShell.Engine.Apply
import LetShell.Statement.Removal

/-!
# Statements

An assignment is read as a whole, its value computed and its operator checked,
before anything is changed. A removal goes on past rejected tokens and reports
one error for each.
-/

set_option autoImplicit false

namespace LetShell

structure Assignment where
  target : Target
  operator : Operator
  text : Text
  deriving DecidableEq, Repr

structure Removed where
  names : List Text
  errors : List VariableError
  fatal : Option ParseError
  deriving DecidableEq, Repr

namespace Removed

def count (r : Removed) : Nat := r.errors.length + r.fatal.toList.length

def ok (r : Removed) : Bool := r.count == 0

def messages (r : Removed) : List Text :=
  r.errors.map (·.message) ++ r.fatal.toList.map (·.message)

end Removed

namespace Engine

/-- Reads an assignment and computes its value, in this order: target,
operator, value, what is left over, the operator's fitness, the value's text. -/
def plan (e : Engine) (t : Text) : Except (Failure VariableError) Assignment :=
  match Target.read e.nameMax t.trimStart with
  | .error p => .error (.error (.parse p))
  | .ok (target, rest) =>
    match Operator.read (Text.trimStart rest) with
    | .error p => .error (.error (.parse p))
    | .ok (op, rest) =>
      match LetShell.evaluate e.context rest with
      | .error f => .error (f.map .expression)
      | .ok (v, rest) =>
        if rest ≠ [] then .error (.error (.parse .trailingValue))
        else if e.options.permits target op then
          match v.toText with
          | .error f => .error (.fault f)
          | .ok text => .ok ⟨target, op, text⟩
        else .error (.error .operatorType)

def assign (e : Engine) (t : Text) : Outcome Unit :=
  match e.plan t with
  | .error f => (e, .error f)
  | .ok a => e.execute a.target a.operator a.text

def removeName (e : Engine) (name : Text) : Engine × Except VariableError Text :=
  match e.registry.find? name with
  | none => (e, .error (.notFound name))
  | some r =>
    if r.removed then (e, .error (.notFound name))
    else
      let e := e.discard r.serial
      ({ e with table := e.table.unset r.name }, .ok r.name)

def removeTokens (e : Engine) : List (Except ParseError Text) → Engine × Removed
  | [] => (e, ⟨[], [], none⟩)
  | .error p :: tokens =>
    let (e, r) := removeTokens e tokens
    (e, { r with errors := .parse p :: r.errors })
  | .ok name :: tokens =>
    match e.removeName name with
    | (e, .ok name) =>
      let (e, r) := removeTokens e tokens
      (e, { r with names := name :: r.names })
    | (e, .error x) =>
      let (e, r) := removeTokens e tokens
      (e, { r with errors := x :: r.errors })

def remove (e : Engine) (t : Text) : Engine × Removed :=
  let request := Removal.read e.nameMax t
  let (e, r) := e.removeTokens request.tokens
  let r := { r with fatal := request.fatal }
  if r.ok then (e, r)
  else
    (e.note .warning engineSource
      ("unlet finished with ".toList ++ Text.ofNat r.count ++ " error(s)".toList), r)

def complete (e : Engine) (t : Text) : Completions := .ofToken e.registry t

theorem assign_of_plan_error {e : Engine} {t : Text} {f : Failure VariableError}
    (h : e.plan t = .error f) : e.assign t = (e, .error f) := by
  simp [assign, h]

theorem assign_of_plan_ok {e : Engine} {t : Text} {a : Assignment} (h : e.plan t = .ok a) :
    e.assign t = e.execute a.target a.operator a.text := by
  simp [assign, h]

end Engine

end LetShell
