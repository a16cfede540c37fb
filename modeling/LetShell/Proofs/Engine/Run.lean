import LetShell.Engine.Statements
import LetShell.Options.Word

/-!
# Runs of an engine

A run carries out statements in turn and goes on whatever each of them
answers. A history is a run of everything else as well: the lifecycle,
single records and options by themselves, and the words of the shell.
-/

set_option autoImplicit false

namespace LetShell

inductive Statement where
  | assign (t : Text)
  | remove (t : Text)
  deriving DecidableEq, Repr

inductive Action where
  | statement (s : Statement)
  | start
  | bootstrap (entries : List Text)
  | teardown
  | obtain (name : Text)
  | discard (serial : Nat)
  | refuse (names : List Text)
  | define (d : Declaration)
  | change (scope : Scope) (name : Text) (how : Change) (t : Text)
  | words (ws : List Text)
  deriving DecidableEq, Repr

namespace Engine

def perform (e : Engine) : Statement → Engine
  | .assign t => (e.assign t).1
  | .remove t => (e.remove t).1

def run (e : Engine) : List Statement → Engine
  | [] => e
  | s :: ss => (e.perform s).run ss

/-- From now on the names given, and no others, cannot be given a record. -/
def refusing (e : Engine) (names : List Text) : Engine :=
  { e with registry := { e.registry with refused := names } }

/-- A run in which each statement meets its own names that cannot be given a
record. -/
def runRefusing (e : Engine) : List (List Text × Statement) → Engine
  | [] => e
  | (names, s) :: ss => ((e.refusing names).perform s).runRefusing ss

def act (e : Engine) : Action → Engine
  | .statement s => e.perform s
  | .start => e.start
  | .bootstrap entries => e.bootstrap entries
  | .teardown => (e.teardown).1
  | .obtain name => (e.obtain name).1
  | .discard serial => e.discard serial
  | .refuse names => e.refusing names
  | .define d =>
    match e.options.define d with
    | .ok options => { e with options := options }
    | .error _ => e
  | .change scope name how t =>
    match e.options.lookup scope name with
    | some d => { e with options := (e.options.change d how t).1 }
    | none => e
  | .words ws => { e with options := (e.options.applyWords ws).1 }

def acts (e : Engine) : List Action → Engine
  | [] => e
  | a :: as => (e.act a).acts as

theorem acts_append (e : Engine) (as bs : List Action) :
    e.acts (as ++ bs) = (e.acts as).acts bs := by
  induction as generalizing e with
  | nil => rfl
  | cons a as ih => exact ih (e.act a)

end Engine

end LetShell
