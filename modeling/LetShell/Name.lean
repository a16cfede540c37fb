import LetShell.Error
import LetShell.Text.Blank

/-!
# Names

A name is a first character and further ones, each from its own alphabet. A
name is read greedily and stops without complaint at the longest length; what
is left of an overlong name stays in the input for the next reader to refuse.
-/

set_option autoImplicit false

namespace LetShell

structure Alphabet where
  first : Char → Bool
  other : Char → Bool

namespace Alphabet

def ofTexts (first other : Text) : Alphabet :=
  ⟨fun c => decide (c ∈ first), fun c => decide (c ∈ other)⟩

def environment : Alphabet :=
  ⟨fun c => c.isAlpha || c == '_', fun c => c.isAlphanum || c == '_'⟩

def option : Alphabet := ⟨Char.isLower, Char.isAlphanum⟩

def Accepts (a : Alphabet) : Text → Prop
  | [] => False
  | c :: s => a.first c = true ∧ ∀ d ∈ s, a.other d = true

instance (a : Alphabet) : (name : Text) → Decidable (a.Accepts name)
  | [] => inferInstanceAs (Decidable False)
  | c :: s => decidable_of_iff (a.first c = true ∧ s.all a.other = true) (by
      rw [List.all_eq_true]
      rfl)

def name? (a : Alphabet) : Text → Option (Text × Text)
  | [] => none
  | c :: s => if a.first c then some (c :: s.takeWhile a.other, s.dropWhile a.other) else none

theorem name?_eq_some {a : Alphabet} {t name rest : Text} (h : a.name? t = some (name, rest)) :
    a.Accepts name ∧ t = name ++ rest := by
  cases t with
  | nil => simp [name?] at h
  | cons c s =>
    simp only [name?] at h
    split at h
    · rename_i hc
      cases h
      exact ⟨⟨hc, List.all_eq_true.mp List.all_takeWhile⟩, by simp⟩
    · cases h

end Alphabet

namespace Name

def defaultLimit : Int := 64

def run (p : Char → Bool) (limit : Int) (t : Text) : Text × Text :=
  let taken := (t.take limit.toNat).takeWhile p
  (taken, t.drop taken.length)

def read (a : Alphabet) (limit : Int) : Text → Except ParseError (Text × Text)
  | [] => .error .emptyName
  | c :: s =>
    if limit ≤ 0 ∨ a.first c = false then .error .invalidName
    else
      let (tail, rest) := run a.other (limit - 1) s
      .ok (c :: tail, rest)

theorem run_append (p : Char → Bool) (limit : Int) (t : Text) :
    (run p limit t).1 ++ (run p limit t).2 = t := by
  exact List.prefix_iff_eq_append.mp ((List.takeWhile_prefix p).trans (List.take_prefix _ _))

theorem length_run_le (p : Char → Bool) (limit : Int) (t : Text) :
    (run p limit t).2.length ≤ t.length := by
  simp [run]

theorem run_all (p : Char → Bool) (limit : Int) (t : Text) :
    ∀ c ∈ (run p limit t).1, p c = true :=
  List.all_eq_true.mp List.all_takeWhile

end Name

end LetShell
