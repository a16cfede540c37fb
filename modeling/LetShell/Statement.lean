import LetShell.Name

/-!
# Targets and operators

An assignment starts with a target and an operator. The target is a variable
after `$` or an option after `&`, where `g:` and `l:` choose one scope. The
operator is `=`, or `=` after one of `.`, `+` and `-`.
-/

set_option autoImplicit false

namespace LetShell

inductive Kind where
  | environment
  | anyOption
  | globalOption
  | localOption
  deriving DecidableEq, Repr

def Kind.isOption : Kind → Bool
  | .environment => false
  | _ => true

inductive Operator where
  | assign
  | append
  | add
  | subtract
  deriving DecidableEq, Repr

namespace Operator

def spelling : Operator → Text
  | .assign => ['=']
  | .append => ['.', '=']
  | .add => ['+', '=']
  | .subtract => ['-', '=']

def lead : Text → Operator × Text
  | '.' :: s => (.append, s)
  | '+' :: s => (.add, s)
  | '-' :: s => (.subtract, s)
  | s => (.assign, s)

def read (t : Text) : Except ParseError (Operator × Text) :=
  match lead t with
  | (op, '=' :: s) => .ok (op, s)
  | (_, s) => .error (.missingEquals s)

theorem read_eq_ok_iff {t rest : Text} {op : Operator} :
    read t = .ok (op, rest) ↔ t = op.spelling ++ rest := by
  constructor
  · intro h
    simp only [read] at h
    split at h
    · rename_i op' s hl
      cases h
      unfold lead at hl
      split at hl <;> cases hl <;> rfl
    · cases h
  · rintro rfl
    cases op <;> rfl

end Operator

structure Target where
  kind : Kind
  name : Text
  deriving DecidableEq, Repr

namespace Target

def scopeOf : Text → Kind × Text
  | 'g' :: ':' :: s => (.globalOption, s)
  | 'l' :: ':' :: s => (.localOption, s)
  | s => (.anyOption, s)

def read (nameMax : Int) : Text → Except ParseError (Target × Text)
  | '$' :: s =>
    match Name.read .environment nameMax s with
    | .ok (name, rest) => .ok (⟨.environment, name⟩, rest)
    | .error e => .error e
  | '&' :: s =>
    let (kind, s) := scopeOf s
    match Name.read .option nameMax s with
    | .ok (name, rest) => .ok (⟨kind, name⟩, rest)
    | .error e => .error e
  | _ => .error .noSigil

end Target

end LetShell
