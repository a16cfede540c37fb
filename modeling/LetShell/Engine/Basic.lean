import LetShell.Expression
import LetShell.Log
import LetShell.Options.Store
import LetShell.Registry
import LetShell.Table

/-!
# The engine

The engine owns the variables, the table that mirrors them, the options and the
audit log. An operation on it may fail after it has changed something, so it
answers with the state it leaves together with its result.
-/

set_option autoImplicit false

namespace LetShell

structure Engine where
  registry : Registry
  table : Table
  options : OptionStore
  log : Log
  nameMax : Int
  deriving Repr

namespace Engine

abbrev Outcome (α : Type) := Engine × Except (Failure VariableError) α

def ofParts (table : Table) (options : OptionStore) (caseSensitive : Bool) (nameMax : Int)
    (refused : List Text) : Engine :=
  ⟨.empty caseSensitive refused, table, options, [], nameMax⟩

def note (e : Engine) (level : Level) (source message : Text) : Engine :=
  { e with log := e.log ++ [⟨level, message, source⟩] }

def registrySource : Text := "registry".toList

def engineSource : Text := "engine".toList

def read (e : Engine) (name : Text) : Text := e.registry.read name

def readOption (e : Engine) (name : Text) : Option OptionValue :=
  (e.options.lookup .global name).map (·.value)

def context (e : Engine) : Expression.Context := .ofReaders e.read e.readOption

def evaluate (e : Engine) (t : Text) : Except (Failure VariableError) Value :=
  match LetShell.evaluate e.context t with
  | .error f => .error (f.map .expression)
  | .ok (v, []) => .ok v
  | .ok (_, rest) => .error (.error (.parse (.leftover rest)))

@[simp] theorem note_table (e : Engine) (l : Level) (s m : Text) :
    (e.note l s m).table = e.table := rfl

end Engine

end LetShell
