import LetShell.Name
import LetShell.Options.Store

/-!
# Option words

An option word shows or changes an option. `name=text`, `name+=text` and
`name-=text` change every definition of the name, the local one first. `name?`
shows an option, as does the bare name of one that is not boolean. For a
boolean option `name`, `noname` and `invname` switch it on, off and over; a
word is read as `no…` first, then as `inv…`, then as a whole name.
-/

set_option autoImplicit false

namespace LetShell

namespace OptionWord

def change? (word : Text) : Option (Text × Change × Text) :=
  match Alphabet.option.name? word with
  | some (name, '=' :: t) => some (name, .set, t)
  | some (name, '+' :: '=' :: t) => some (name, .add, t)
  | some (name, '-' :: '=' :: t) => some (name, .remove, t)
  | _ => none

def query? (word : Text) : Option Text :=
  if word.getLast? = some '?' then some word.dropLast else none

inductive Switch where
  | off
  | over
  | on
  deriving DecidableEq, Repr

def Switch.text : Switch → Definition → Text
  | .off, _ => ['0']
  | .over, d => if d.value.isOn then ['0'] else ['1']
  | .on, _ => ['1']

/-- The readings of a word as a switch and a name, in the order of trial. -/
def switches : Text → List (Switch × Text)
  | 'n' :: 'o' :: name => [(.off, name), (.on, 'n' :: 'o' :: name)]
  | 'i' :: 'n' :: 'v' :: name => [(.over, name), (.on, 'i' :: 'n' :: 'v' :: name)]
  | name => [(.on, name)]

end OptionWord

namespace OptionStore

abbrev Outcome (α : Type) := OptionStore × Except (Failure OptionError) α

def changeAll (s : OptionStore) (how : Change) (text : Definition → Text) :
    List Definition → Outcome Unit
  | [] => (s, .ok ())
  | d :: ds =>
    match s.change d how (text d) with
    | (s, .ok ()) => changeAll s how text ds
    | (s, .error e) => (s, .error e)

def unknown {α : Type} (name : Text) : Except (Failure OptionError) α :=
  .error (.error (.unknown name))

def describe (d : Definition) : Except (Failure OptionError) Text := Failure.ofFault d.describe

def isSwitch (s : OptionStore) (name : Text) : Bool :=
  (s.lookup .global name).any (·.type = .bool)

def switch (s : OptionStore) (word : Text) : Outcome Text :=
  match (OptionWord.switches word).find? fun r => s.isSwitch r.2 with
  | none => (s, unknown word)
  | some (how, name) =>
    let (s, r) := s.changeAll .set how.text (s.definitions name)
    (s, r.map fun _ => [])

/-- Carries out one word; the text is what there is to show, if anything. -/
def applyWord (s : OptionStore) (word : Text) : Outcome Text :=
  match OptionWord.change? word with
  | some (name, how, t) =>
    match s.definitions name with
    | [] => (s, unknown name)
    | ds =>
      let (s, r) := s.changeAll how (fun _ => t) ds
      (s, r.map fun _ => [])
  | none =>
    match OptionWord.query? word with
    | some name =>
      match (s.definitions name).getLast? with
      | some d => (s, describe d)
      | none => (s, unknown name)
    | none =>
      match s.lookup .global word with
      | some d => if d.type = .bool then s.switch word else (s, describe d)
      | none => s.switch word

/-- Carries out words in turn. An error becomes a line of its own; a fault
ends the run with the changes made so far. -/
def applyWords (s : OptionStore) : List Text → OptionStore × Except Fault (List Text)
  | [] => (s, .ok [])
  | word :: words =>
    match s.applyWord word with
    | (s, .error (.fault f)) => (s, .error f)
    | (s, .error (.error e)) =>
      let (s, r) := applyWords s words
      (s, r.map (("Error: ".toList ++ e.message) :: ·))
    | (s, .ok []) => applyWords s words
    | (s, .ok line) =>
      let (s, r) := applyWords s words
      (s, r.map (line :: ·))

def overview (s : OptionStore) : Except Fault (List Text) :=
  (s.listing .global).mapM (·.describe)

end OptionStore

end LetShell
