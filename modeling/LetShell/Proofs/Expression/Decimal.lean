import Mathlib.Data.Nat.Digits.Defs
import LetShell.Proofs.Expression.Tokens

/-!
# Integers read back

An integer is written with a sign, if it is negative, and ASCII digits, with
nothing around them. Unless they are too many, reading them gives the integer
back.
-/

set_option autoImplicit false

namespace LetShell

namespace Numeral
open Expression

section
variable {t : Text}

theorem positional_ascii (h : ∀ c ∈ t, c.isDigit = true) :
    positional (places t) = Nat.ofDigitChars 10 t 0 := by
  have hrun : ∀ (t : Text) (n : Nat), (∀ c ∈ t, c.isDigit = true) →
      (places t).foldl (fun n d => 10 * n + d) n = Nat.ofDigitChars 10 t n := by
    intro t
    induction t with
    | nil => exact fun _ _ => rfl
    | cons c t ih =>
      intro n h
      obtain ⟨hc, ht⟩ := List.forall_mem_cons.mp h
      rw [places, List.filterMap_cons_some (Text.digitValue?_ascii hc)]
      exact ih _ ht
  exact hrun t 0 h

theorem isDigit_of_mem_ofNat {n : Nat} {c : Char} (h : c ∈ Text.ofNat n) : c.isDigit = true :=
  Nat.isDigit_of_mem_toDigits (by decide) (by decide) h

theorem isDecimal_of_mem_ofNat {n : Nat} {c : Char} (h : c ∈ Text.ofNat n) :
    Text.isDecimal c = true := by
  rw [Text.isDecimal, Text.digitValue?_ascii (isDigit_of_mem_ofNat h)]
  rfl

theorem positional_ofNat (n : Nat) : positional (places (Text.ofNat n)) = n := by
  rw [positional_ascii fun c => isDigit_of_mem_ofNat]
  exact Nat.ofDigitChars_toDigits (by decide) (by decide)

theorem ofInt_eq_signed (n : Int) : Text.ofInt n = signed (n < 0) (Text.ofNat n.natAbs) := by
  cases n with
  | ofNat m => simp [Text.ofInt, signed]
  | negSucc m => simp [Text.ofInt, signed, Int.negSucc_lt_zero]

theorem signedValue_ofInt (n : Int) : signedValue (n < 0) (Text.ofNat n.natAbs) = n := by
  rw [signedValue, positional_ofNat]
  cases n with
  | ofNat m => simp
  | negSucc m =>
    have hn : Int.negSucc m < 0 := Int.negSucc_lt_zero m
    simp only [hn, decide_true, if_true, Int.natAbs_negSucc]
    rfl

theorem not_blank_of_mem_ofInt {n : Int} {c : Char} (h : c ∈ Text.ofInt n) :
    Text.isBlank c = false := by
  have hdigit : ∀ m, c ∈ Text.ofNat m → Text.isBlank c = false := fun m hm =>
    not_blank_of_digit (Text.isDigit_of_isDecimal (isDecimal_of_mem_ofNat hm))
  cases n with
  | ofNat m => exact hdigit m h
  | negSucc m =>
    rcases List.mem_cons.mp h with rfl | h
    · decide
    · exact hdigit _ h

theorem read_ofInt {n : Int} (h : (Text.ofNat n.natAbs).length ≤ digitLimit) :
    read (Text.ofInt n).trim = .ok n := by
  have htrim : (Text.ofInt n).trim = Text.ofInt n :=
    trim_of_free (free_of_forall fun c => not_blank_of_mem_ofInt)
      (free_of_forall fun c hc => not_blank_of_mem_ofInt (List.mem_reverse.mp hc))
  have hread : readOrFault (Text.ofInt n) = .ok n := by
    have hne : Text.ofNat n.natAbs ≠ [] := Nat.toDigits_ne_nil
    rw [ofInt_eq_signed, readOrFault_signed hne (fun _ => isDecimal_of_mem_ofNat) h, signedValue_ofInt]
  rw [htrim]
  unfold readOrFault at hread
  split at hread
  · rename_i m hm
    cases hread
    exact hm
  · cases hread
  · cases hread

end

end Numeral

end LetShell
