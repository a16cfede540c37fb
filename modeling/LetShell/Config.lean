import LetShell.Engine.Basic
import LetShell.Json.Reader

/-!
# Configuration

A configuration sets the longest name, the comparison of names, the use of the
process environment, and values for options. It is read from a JSON object in
which every member may be missing. Option values are written in the display
form of whatever JSON value they have and set as texts, in the order of the
file, on the global definitions.
-/

set_option autoImplicit false

namespace LetShell

structure Config where
  nameMax : Int := Name.defaultLimit
  caseSensitive : Bool := true
  useProcess : Bool := true
  options : List (Text × Text) := []
  deriving DecidableEq, Repr

inductive ConfigError where
  | unreadable
  | notJson
  | notObject
  | optionsNotObject
  | nameMax (value : Text)
  | flag (key value : Text)
  | nameLimit (n : Int)
  | unknownOption (name : Text)
  | option (e : OptionError)
  deriving DecidableEq, Repr

/-- The words for what a message cannot know: why a file cannot be read, what
is wrong with its JSON, and its path. -/
structure ConfigWords where
  unreadable : Text
  notJson : Text
  path : Text

namespace ConfigError

def loading (what : Text) : Text := "Cannot load configuration: ".toList ++ what

def message (w : ConfigWords) : ConfigError → Text
  | .unreadable => loading w.unreadable
  | .notJson => loading w.notJson
  | .notObject => loading (w.path ++ " does not hold a JSON object".toList)
  | .optionsNotObject => loading "'options' must be a JSON object".toList
  | .nameMax value => loading ("'name_max' must be a positive integer, not ".toList ++ value)
  | .flag key value =>
    loading (['\''] ++ key ++ "' must be true or false, not ".toList ++ value)
  | .nameLimit n => "Name limit must be at least 1, not ".toList ++ Text.ofInt n
  | .unknownOption name => "Unknown option in configuration: ".toList ++ name
  | .option e => e.message

end ConfigError

namespace Config

def standard : Config := {}

abbrev Members := List (Json.Key × Json)

def optionTexts (ms : Members) : Except ConfigError (List (Text × Text)) :=
  match Json.member? ms "options".toList with
  | none => .ok []
  | some (.object options) => .ok (options.map fun m => (Text.ofPoints m.1, m.2.display))
  | some _ => .error .optionsNotObject

def nameLimit (ms : Members) : Except ConfigError Int :=
  match Json.member? ms "name_max".toList with
  | none => .ok standard.nameMax
  | some (.int n) => if n < 1 then .error (.nameMax (Text.ofInt n)) else .ok n
  | some v => .error (.nameMax v.shown)

def flag (ms : Members) (key : Text) (default : Bool) : Except ConfigError Bool :=
  match Json.member? ms key with
  | none => .ok default
  | some (.bool b) => .ok b
  | some v => .error (.flag key v.shown)

def ofJson : Json → Except ConfigError Config
  | .object ms => do
    let options ← optionTexts ms
    let nameMax ← nameLimit ms
    let caseSensitive ← flag ms "case_sensitive".toList standard.caseSensitive
    let useProcess ← flag ms "use_os_environment".toList standard.useProcess
    return ⟨nameMax, caseSensitive, useProcess, options⟩
  | _ => .error .notObject

def ofText (t : Text) : Except (Failure ConfigError) Config :=
  match Json.read t with
  | .error .malformed => .error (.error .notJson)
  | .error (.tooLong digits) => .error (.fault (.numeralTooLong digits))
  | .ok v =>
    match ofJson v with
    | .ok c => .ok c
    | .error e => .error (.error e)

def load : Option Text.Bytes → Except (Failure ConfigError) Config
  | none => .error (.error .unreadable)
  | some bytes =>
    match Text.ofUtf8? bytes with
    | none => .error (.fault .invalidEncoding)
    | some t => ofText t

def setOptions (s : OptionStore) : List (Text × Text) → Except ConfigError OptionStore
  | [] => .ok s
  | (name, t) :: rest =>
    match s.lookup .global name with
    | none => .error (.unknownOption name)
    | some d =>
      match d.set t with
      | .error e => .error (.option e)
      | .ok v => setOptions (s.assign .global name v) rest

def engine (c : Config) (table : Table) (refused : List Text) : Except ConfigError Engine :=
  if c.nameMax < 1 then .error (.nameLimit c.nameMax)
  else
    match setOptions .standard c.options with
    | .error e => .error e
    | .ok options => .ok (.ofParts table options c.caseSensitive c.nameMax refused)

end Config

end LetShell
