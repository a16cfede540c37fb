import LetShell.Terminal

/-!
# Command line

Runs a terminal session on standard input and output over a table that starts
as the environment of the process. The one option names a configuration file.
-/

set_option autoImplicit false

namespace LetShell.CommandLine

def nulFields (bytes : Text.Bytes) : List Text :=
  (Text.pieces '\x00' ((Text.ofUtf8? bytes).getD [])).filter (· ≠ [])

def processTable : IO Table := do
  let bytes ← try IO.FS.readBinFile "/proc/self/environ" catch _ => pure .empty
  let pairs := (nulFields bytes.toList).filterMap (Text.cutAt '=')
  return ((Table.ofPairs .ofProcess pairs).toOption).getD ⟨.ofProcess, []⟩

def content? (path : String) : IO (Option Text.Bytes) := do
  try return some (← IO.FS.readBinFile path).toList catch _ => return none

def configPath? : List String → Option String
  | "--config" :: path :: _ => some path
  | arg :: args =>
    if "--config=".toList.isPrefixOf arg.toList then some (String.ofList (arg.toList.drop 9))
    else configPath? args
  | [] => none

def wordsFor (path : String) : ConfigWords :=
  ⟨"the file cannot be read".toList, "the file is not JSON".toList, path.toList⟩

def put (t : Text) : IO Unit := do
  let out ← IO.getStdout
  out.putStr (String.ofList t)
  out.flush

def putError (t : Text) : IO Unit := do
  (← IO.getStderr).putStr (String.ofList t)

partial def converse (s : Shell) : IO (Shell × Option Fault) := do
  put Terminal.prompt
  let line ← (← IO.getStdin).getLine
  let input := if line.isEmpty then none else
    some (.line (line.toList.filter (· ≠ '\n')))
  match Terminal.step s input with
  | (s, .goOn out) => do
    put out
    converse s
  | (s, .stop out) => do
    put out
    return (s, none)
  | (s, .escaped f) => return (s, some f)

def conclude (e : Engine) (fault : Option Fault) : IO UInt32 := do
  let fault ← match e.teardown with
    | (_, .error f) => pure (some f)
    | _ => do
      put Terminal.restored
      pure fault
  match fault with
  | none => return 0
  | some f => do
    putError (f.message ++ ['\n'])
    return 1

def run (config : Except (Failure ConfigError) Config) (words : ConfigWords) : IO UInt32 := do
  match config with
  | .error (.fault f) => do
    putError (f.message ++ ['\n'])
    return 1
  | .error (.error e) => do
    putError ("Error: ".toList ++ e.message words ++ ['\n'])
    return 1
  | .ok c =>
    match c.engine (Terminal.tableOf c (← processTable)) [] with
    | .error e => do
      putError ("Error: ".toList ++ e.message words ++ ['\n'])
      return 1
    | .ok e => do
      let e := e.start
      put (Terminal.banner e ++ ['\n'])
      let (s, fault) ← converse (.ofEngine e)
      conclude s.engine fault

end LetShell.CommandLine

def main (args : List String) : IO UInt32 := do
  match LetShell.CommandLine.configPath? args with
  | none => LetShell.CommandLine.run (.ok .standard) (LetShell.CommandLine.wordsFor "")
  | some path =>
    let content ← LetShell.CommandLine.content? path
    LetShell.CommandLine.run (LetShell.Config.load content) (LetShell.CommandLine.wordsFor path)
