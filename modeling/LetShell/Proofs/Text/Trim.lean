import Mathlib.Data.List.DropRight
import LetShell.Proofs.Expression.Tokens
import LetShell.Proofs.Text.Words

/-!
# Outer blanks

Trimming takes the blanks off both ends of a text, in either order, and nothing
else. So blanks that are put around a text are taken off again, and a text that
ends with no blank is not touched by what trailing blanks are added to it.
-/

set_option autoImplicit false

namespace LetShell.Text
open Expression

section
variable {p : Char → Bool} {s t w w' : Text}

theorem free_prefix (h : Free p (s ++ t)) : Free p s := by
  cases s with
  | nil => exact free_nil p
  | cons c s => exact h

theorem trimStart_eq_nil_iff : trimStart t = [] ↔ Blank t := List.dropWhile_eq_nil_iff

theorem trimEnd_eq_nil_iff : trimEnd t = [] ↔ Blank t := List.rdropWhile_eq_nil_iff

theorem trimEnd_append (s t : Text) :
    trimEnd (s ++ t) = if trimEnd t = [] then trimEnd s else s ++ trimEnd t := by
  simp only [trimEnd, List.reverse_append, List.dropWhile_append, List.isEmpty_iff,
    List.reverse_eq_nil_iff]
  split
  · rfl
  · rw [List.reverse_append, List.reverse_reverse]

theorem trimEnd_blank (hw : Blank w) (t : Text) : trimEnd (t ++ w) = trimEnd t := by
  rw [trimEnd_append, if_pos (trimEnd_eq_nil_iff.mpr hw)]

theorem trimStart_append (s t : Text) :
    trimStart (s ++ t) = if trimStart s = [] then trimStart t else trimStart s ++ t := by
  simp only [trimStart, List.dropWhile_append, List.isEmpty_iff]
  rfl

theorem trimStart_trimEnd (t : Text) : trimStart (trimEnd t) = trim t := by
  obtain ⟨w, hw, ht⟩ := trimStart_append_eq t
  obtain ⟨w', -, hend⟩ := trimEnd_append_eq (trimStart t)
  have hsplit : trimEnd t =
      if trimEnd (trimStart t) = [] then trimEnd w else w ++ trimEnd (trimStart t) := by
    conv => lhs; rw [ht]
    exact trimEnd_append w _
  rw [hsplit, trim]
  split
  · rename_i hnil
    rw [trimEnd_eq_nil_iff.mpr hw, hnil]
    rfl
  · have hfree : Free isBlank (trimEnd (trimStart t)) := by
      have hfront := trimStart_eq_self_iff.mp (trimStart_trimStart t)
      rw [hend] at hfront
      exact free_prefix hfront
    rw [trimStart_blank hw, trimStart_eq_self_iff.mpr hfree]

theorem trim_blanks (hw : Blank w) (hw' : Blank w') (t : Text) : trim (w ++ t ++ w') = trim t := by
  rw [← trimStart_trimEnd, trimEnd_blank hw', trimStart_trimEnd, trim, trimStart_blank hw]
  rfl

theorem trim_eq_nil_iff : trim t = [] ↔ Blank t := by
  rw [trim, trimEnd_eq_nil_iff, ← trimStart_eq_nil_iff, trimStart_trimStart, trimStart_eq_nil_iff]

theorem trimStart_eq_trim_append (t : Text) : ∃ w, Blank w ∧ trimStart t = trim t ++ w :=
  trimEnd_append_eq (trimStart t)

def Closed (t : Text) : Prop := ∃ s c, t = s ++ [c] ∧ isBlank c = false

theorem closed_append (h : Closed t) (s : Text) : Closed (s ++ t) := by
  obtain ⟨x, c, rfl, hc⟩ := h
  exact ⟨s ++ x, c, (List.append_assoc ..).symm, hc⟩

theorem closed_of_solid (hne : t ≠ []) (h : ∀ c ∈ t, isBlank c = false) : Closed t :=
  ⟨t.dropLast, t.getLast hne, (List.dropLast_concat_getLast hne).symm,
    h _ (List.getLast_mem hne)⟩

theorem closed_prefix (hs : Closed s) (hw : Blank w) (h : t ++ w = s ++ w') :
    ∃ r, t = s ++ r ∧ w' = r ++ w := by
  obtain ⟨x, c, rfl, hc⟩ := hs
  rcases List.append_eq_append_iff.mp h with ⟨y, hfront, hback⟩ | ⟨r, ht, hr⟩
  · -- blanks that reach into the front would make its last character one of them
    rcases List.eq_nil_or_concat y with rfl | ⟨y, d, rfl⟩
    · exact ⟨[], by simpa using hfront.symm, by simpa using hback.symm⟩
    · have hlast : x ++ [c] = t ++ y ++ [d] := by simpa using hfront
      obtain ⟨-, hcd⟩ := List.append_inj' hlast rfl
      have hblank := hw d (by simp [hback])
      rw [← List.singleton_inj.mp hcd, hc] at hblank
      cases hblank
  · exact ⟨r, ht, hr⟩

end

end LetShell.Text
