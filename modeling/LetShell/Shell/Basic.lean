import LetShell.Engine.Statements
import LetShell.Options.Word

/-!
# The shell

A command line is a command word and the text after it, which the command
reads for itself. Every error of the engine becomes a line of output; faults go
through. The shell keeps the lines it was given, without outer blanks, as its
history.
-/

set_option autoImplicit false

namespace LetShell

inductive Command where
  | help
  | assign
  | remove
  | echo
  | env
  | set
  | log
  | history
  | version
  | exit
  deriving DecidableEq, Repr

namespace Command

def word : Command → Text
  | .help => "help".toList
  | .assign => "let".toList
  | .remove => "unlet".toList
  | .echo => "echo".toList
  | .env => "env".toList
  | .set => "set".toList
  | .log => "log".toList
  | .history => "history".toList
  | .version => "version".toList
  | .exit => "exit".toList

def all : List Command :=
  [.help, .assign, .remove, .echo, .env, .set, .log, .history, .version, .exit]

def ofWord? (w : Text) : Option Command := all.find? (·.word = w)

def words : List Text := Text.sorted (all.map word)

end Command

structure Shell where
  engine : Engine
  history : List Text

namespace Shell

def ofEngine (e : Engine) : Shell := ⟨e, []⟩

def productName : Text := "py-let".toList

def productVersion : Text := "0.1.0".toList

/-- The output that asks the caller to end the session. -/
def farewell : Text := "__EXIT__".toList

def split (line : Text) : Text × Text :=
  ((Text.token line).1, Text.trimStart (Text.token line).2)

abbrev Outcome := Shell × Except Fault Text

def errorLine (message : Text) : Text := "Error: ".toList ++ message

def report {α : Type} (render : α → Except Fault Text) :
    Except (Failure VariableError) α → Except Fault Text
  | .ok a => render a
  | .error (.error e) => .ok (errorLine e.message)
  | .error (.fault f) => .error f

def help : Text :=
  "Available commands: ".toList ++ Text.joined [',', ' '] Command.words

def assign (s : Shell) (args : Text) : Outcome :=
  if args = [] then (s, .ok "Usage: let $NAME = expr | let &[g:|l:]option = expr".toList)
  else
    let (e, r) := s.engine.assign args
    ({ s with engine := e }, report (fun _ => .ok []) r)

def remove (s : Shell) (args : Text) : Outcome :=
  if args = [] then (s, .ok "Usage: unlet $NAME [$NAME ...]".toList)
  else
    let (e, r) := s.engine.remove args
    ({ s with engine := e }, .ok (Text.unlines (r.messages.map errorLine)))

def echo (s : Shell) (args : Text) : Except Fault Text :=
  if args = [] then .ok [] else report Value.toText (s.engine.evaluate args)

def pairAtMost (a b : Text × Text) : Bool :=
  if a.1 = b.1 then Text.atMost a.2 b.2 else Text.atMost a.1 b.1

def listing (e : Engine) : Text :=
  match e.registry.items with
  | [] => "No variables set.".toList
  | items => Text.unlines ((items.mergeSort pairAtMost).map fun p => p.1 ++ '=' :: p.2)

def set (s : Shell) (args : Text) : Outcome :=
  if args = [] then (s, s.engine.options.overview.map Text.unlines)
  else
    let (options, r) := s.engine.options.applyWords (Text.words args)
    ({ s with engine := { s.engine with options := options } }, r.map Text.unlines)

def logLines (log : Log) : Text :=
  match log with
  | [] => "No log entries.".toList
  | log => Text.unlines (log.map (·.line))

def showLog (s : Shell) (args : Text) : Text :=
  if args = [] then logLines s.engine.log
  else match Level.ofWord? args with
    | some level => logLines (s.engine.log.filtered (some level) none)
    | none => "Error: unknown log level '".toList ++ args ++ ['\'']

def numbered : Nat → List Text → List Text
  | _, [] => []
  | n, line :: lines => ([' ', ' '] ++ Text.ofNat n ++ [' ', ' '] ++ line) :: numbered (n + 1) lines

/-- The limit on names is a number of the configuration, and may be too long to
be written. -/
def version (e : Engine) : Except Fault Text :=
  (Numeral.write e.nameMax).map fun limit => Text.unlines [
    productName ++ [' '] ++ productVersion,
    "Variable names: ".toList ++
      (if e.registry.caseSensitive then "case-sensitive" else "case-insensitive").toList ++
      ", at most ".toList ++ limit ++ " characters".toList,
    "Tracked variables: ".toList ++ Text.ofNat e.registry.size]

def run (s : Shell) (command : Command) (args : Text) : Outcome :=
  match command with
  | .help => (s, .ok help)
  | .assign => s.assign args
  | .remove => s.remove args
  | .echo => (s, s.echo args)
  | .env => (s, .ok (listing s.engine))
  | .set => s.set args
  | .log => (s, .ok (s.showLog args))
  | .history => (s, .ok (Text.unlines (numbered 1 s.history)))
  | .version => (s, version s.engine)
  | .exit => (s, .ok farewell)

/-- Executes one command line. A blank line does nothing and leaves no trace. -/
def execute (s : Shell) (line : Text) : Outcome :=
  let line := line.trim
  if line = [] then (s, .ok [])
  else
    let s := { s with history := s.history ++ [line] }
    let (word, args) := split line
    match Command.ofWord? word with
    | some command => s.run command args
    | none => (s, .ok ("Unknown command: ".toList ++ word))

def runLines (s : Shell) : List Text → Shell × Except Fault (List Text)
  | [] => (s, .ok [])
  | line :: lines =>
    match s.execute line with
    | (s, .error f) => (s, .error f)
    | (s, .ok out) =>
      let (s, r) := runLines s lines
      (s, r.map (out :: ·))

def commandLines (script : Text) : List Text :=
  ((Text.lines script).map Text.trim).filter fun l => l ≠ [] && l.head? ≠ some '#'

def script (s : Shell) (t : Text) : Shell × Except Fault (List Text) :=
  s.runLines (commandLines t)

end Shell

end LetShell
