import LetShell.Registry

/-!
# Completion

Candidates are collected in groups, and an optional fallback restores what was
typed. The token of a variable is completed by the visible names that start
with it; any other text completes to itself.
-/

set_option autoImplicit false

namespace LetShell

/-- Candidates of the group that is still open stand in `current`. Candidates
of a group complete the text from `start` on. -/
structure Completions where
  start : Nat
  groups : List (List Text)
  current : List Text
  fallback : Option Text
  deriving DecidableEq, Repr

namespace Completions

def empty : Completions := ⟨0, [], [], none⟩

def add (c : Completions) (t : Text) : Completions := { c with current := c.current ++ [t] }

def endGroup (c : Completions) : Completions :=
  { c with groups := c.groups ++ [c.current], current := [] }

def setFallback (c : Completions) (t : Text) : Completions := { c with fallback := some t }

def candidates (c : Completions) : List Text :=
  c.groups.flatten ++ c.current ++ c.fallback.toList

def ofToken (g : Registry) : Text → Completions
  | '$' :: start => ⟨1, [g.names start], [], some ('$' :: start)⟩
  | t => ⟨0, [], [t], none⟩

end Completions

end LetShell
