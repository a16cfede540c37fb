import LetShell.Shell.Basic

/-!
# Candidates for a line being typed

While the first word is typed, it is completed by command words. After it, the
arguments of a command are completed: variables keep their sign, options are
listed by name. The first word counts as finished once a second word or a
final space follows it.
-/

set_option autoImplicit false

namespace LetShell.Shell

def variableCandidates (s : Shell) (t : Text) : List Text :=
  let c := s.engine.complete t
  if c.start = 0 then c.candidates
  else c.groups.flatten.map (t.take c.start ++ ·) ++ c.fallback.toList

def optionCandidates (s : Shell) (t : Text) : List Text :=
  ((s.engine.options.listing .global).map (·.name)).filter t.isPrefixOf

def startsWithSign (t : Text) : Bool := t.head? = some '$'

def argumentCandidates (s : Shell) (word t : Text) : List Text :=
  match Command.ofWord? word with
  | some .assign => s.variableCandidates t
  | some .remove =>
    let t := if t = [] then ['$'] else t
    if startsWithSign t then s.variableCandidates t else []
  | some .echo => if startsWithSign t then s.variableCandidates t else []
  | some .set => s.optionCandidates t
  | _ => []

def commandCandidates (t : Text) : List Text := Command.words.filter t.isPrefixOf

def candidates (s : Shell) (t line : Text) : List Text :=
  match Text.words line.trimStart with
  | [] => commandCandidates t
  | [word] =>
    if line.getLast? = some ' ' then s.argumentCandidates word t else commandCandidates t
  | word :: _ => s.argumentCandidates word t

/-- The candidate at an index, or none past the last. A negative index counts
from the end, as far back as there are candidates. -/
def candidateAt (s : Shell) (t line : Text) (index : Int) : Except Fault (Option Text) :=
  let found := s.candidates t line
  match index with
  | .ofNat n => .ok found[n]?
  | .negSucc n =>
    match found.reverse[n]? with
    | some c => .ok (some c)
    | none => .error .noCandidate

end LetShell.Shell
