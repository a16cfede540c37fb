import LetShell.Name

/-!
# Removal statements

A removal statement names variables, each after `$`. A token without the sign,
or with nothing after it, is rejected by itself and the walk goes on. A name
with something after it that is not blank ends the walk.
-/

set_option autoImplicit false

namespace LetShell

/-- What a walk meets: names and rejected tokens in order, and the error that
ended it early. -/
structure Removal where
  tokens : List (Except ParseError Text)
  fatal : Option ParseError

namespace Removal

def push (token : Except ParseError Text) (r : Removal) : Removal :=
  ⟨token :: r.tokens, r.fatal⟩

def ofName (name : Text) : Except ParseError Text :=
  if name = [] then .error .emptyName else .ok name

def startsBlank : Text → Bool
  | [] => true
  | c :: _ => Text.isBlank c

def read (nameMax : Int) (t : Text) : Removal :=
  match _h : t.trimStart with
  | [] => ⟨[], none⟩
  | c :: s =>
    if c = '$' then
      let name := (Name.run Alphabet.environment.other nameMax s).1
      let rest := (Name.run Alphabet.environment.other nameMax s).2
      if startsBlank rest then push (ofName name) (read nameMax rest)
      else ⟨[], some .trailingName⟩
    else
      push (.error (.unsupportedToken (c :: (Text.token s).1))) (read nameMax (Text.token s).2)
termination_by t.length
decreasing_by
  · have h1 := Text.length_trimStart_le t
    have h2 := Name.length_run_le Alphabet.environment.other nameMax s
    rw [_h, List.length_cons] at h1
    omega
  · have h1 := Text.length_trimStart_le t
    have h2 := congrArg List.length (Text.token_append s)
    rw [_h, List.length_cons] at h1
    rw [List.length_append] at h2
    omega

theorem read_blank {nameMax : Int} {t : Text} (h : t.trimStart = []) :
    read nameMax t = ⟨[], none⟩ := by
  rw [read]
  split
  · rfl
  · rename_i hs
    rw [h] at hs
    cases hs

theorem read_name {nameMax : Int} {t s : Text} (h : t.trimStart = '$' :: s) :
    read nameMax t =
      if startsBlank (Name.run Alphabet.environment.other nameMax s).2 then
        push (ofName (Name.run Alphabet.environment.other nameMax s).1)
          (read nameMax (Name.run Alphabet.environment.other nameMax s).2)
      else ⟨[], some .trailingName⟩ := by
  rw [read]
  split
  · rename_i hs
    rw [h] at hs
    cases hs
  · rename_i c u hu
    rw [h] at hu
    cases hu
    rfl

theorem read_other {nameMax : Int} {t s : Text} {c : Char} (h : t.trimStart = c :: s)
    (hc : c ≠ '$') :
    read nameMax t =
      push (.error (.unsupportedToken (c :: (Text.token s).1)))
        (read nameMax (Text.token s).2) := by
  rw [read]
  split
  · rename_i hs
    rw [h] at hs
    cases hs
  · rename_i d u hu
    rw [h] at hu
    cases hu
    simp only [if_neg hc]

end Removal

end LetShell
