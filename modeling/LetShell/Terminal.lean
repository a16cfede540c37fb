import LetShell.Config
import LetShell.Shell.Basic

/-!
# The terminal session

A session builds an engine from its configuration, shows a banner, and answers
lines until one asks to end, the input ends, or it is interrupted. However it
ends, the engine is torn down, so inherited variables have their first values
again and others are gone.
-/

set_option autoImplicit false

namespace LetShell.Terminal

inductive Input where
  | line (t : Text)
  | interrupt
  deriving DecidableEq, Repr

def prompt : Text := "py-let> ".toList

def banner (e : Engine) : Text :=
  let border := List.replicate 38 '='
  "\n  ".toList ++ border ++ "\n            ".toList ++ Shell.productName ++ " v".toList ++
    Shell.productVersion ++ "\n  ".toList ++ border ++ "\n\n".toList ++
    "  Loaded ".toList ++ Text.ofNat e.registry.size ++ " environment variables.\n".toList ++
    "Type 'help' for commands, 'exit' to quit.\n".toList

inductive Step where
  | goOn (output : Text)
  | stop (output : Text)
  | escaped (f : Fault)
  deriving DecidableEq, Repr

/-- Answers one input; none is the end of the input. -/
def step (s : Shell) : Option Input → Shell × Step
  | none => (s, .stop ['\n'])
  | some .interrupt => (s, .stop "\nInterrupted.\n".toList)
  | some (.line t) =>
    match s.execute t with
    | (s, .error f) => (s, .escaped f)
    | (s, .ok out) =>
      if out = Shell.farewell then (s, .stop [])
      else (s, .goOn (if out = [] then [] else out ++ ['\n']))

/-- The state of a session after its loop: the shell, what was shown, the fault
that ended the loop, if one did, and the inputs that were not asked for. -/
structure Ending where
  shell : Shell
  output : Text
  fault : Option Fault
  unread : List Input

def loop (s : Shell) : List Input → Ending
  | [] => ⟨(step s none).1, prompt ++ ['\n'], none, []⟩
  | input :: inputs =>
    match step s (some input) with
    | (s, .goOn out) =>
      let e := loop s inputs
      { e with output := prompt ++ out ++ e.output }
    | (s, .stop out) => ⟨s, prompt ++ out, none, inputs⟩
    | (s, .escaped f) => ⟨s, prompt, some f, inputs⟩

def restored : Text := "Environment restored.\n".toList

structure Transcript where
  output : Text
  errors : Text
  exit : Option Nat
  fault : Option Fault
  table : Table
  unread : Nat

def Transcript.unstarted (process : Table) (inputs : List Input) : Transcript :=
  ⟨[], [], none, none, process, inputs.length⟩

def session (e : Engine) (inputs : List Input) : Engine × Ending × Option Fault :=
  let e := e.start
  let ending := loop (.ofEngine e) inputs
  let opening := banner e ++ ['\n']
  match ending.shell.engine.teardown with
  | (e, .ok ()) => (e, { ending with output := opening ++ ending.output ++ restored }, ending.fault)
  | (e, .error f) => (e, { ending with output := opening ++ ending.output }, some f)

def tableOf (c : Config) (process : Table) : Table := if c.useProcess then process else .empty

def transcript (w : ConfigWords) (config : Except (Failure ConfigError) Config) (process : Table)
    (inputs : List Input) : Transcript :=
  let refusal := fun e : ConfigError =>
    { Transcript.unstarted process inputs with
      errors := "Error: ".toList ++ e.message w ++ ['\n'], exit := some 1 }
  match config with
  | .error (.fault f) => { Transcript.unstarted process inputs with fault := some f }
  | .error (.error e) => refusal e
  | .ok c =>
    match c.engine (tableOf c process) [] with
    | .error e => refusal e
    | .ok e =>
      let (e, ending, fault) := session e inputs
      ⟨ending.output, [], none, fault, if c.useProcess then e.table else process,
        ending.unread.length⟩

end LetShell.Terminal
