import LetShell.Proofs.Shell.Faults
import LetShell.Proofs.Text.Trim

/-!
# How a line is taken apart

A line calls a command if its first word is the word of that command, whichever
blank follows the word. The command gets what stands behind, without the blanks
around it; inside of it nothing is touched.
-/

set_option autoImplicit false

namespace LetShell.Shell
open Expression

section
variable {before w w' rest t : Text} {b : Char}

theorem solid_word (c : Command) : ∀ x ∈ c.word, Text.isSolid x = true :=
  List.all_eq_true.mp (by cases c <;> decide)

theorem free_word (c : Command) (t : Text) : Free Text.isBlank (c.word ++ t) := by
  cases c <;> exact free_cons (by decide) _

theorem trimEnd_word (c : Command) : Text.trimEnd c.word = c.word := by
  cases c <;> decide

theorem split_word (c : Command) (h : Free Text.isSolid t) :
    split (c.word ++ t) = (c.word, t.trimStart) := by
  have htake : (c.word ++ t).takeWhile Text.isSolid = c.word := takeWhile_run (solid_word c) h
  have hdrop : (c.word ++ t).dropWhile Text.isSolid = t := dropWhile_run (solid_word c) h
  exact Prod.ext htake (congrArg Text.trimStart hdrop)

theorem split_line (c : Command) (hbefore : Blank before) (hb : Text.isBlank b = true)
    (rest : Text) : split (Text.trim (before ++ (c.word ++ b :: rest))) = (c.word, rest.trim) := by
  have hfront : Text.trimStart (before ++ (c.word ++ b :: rest)) = c.word ++ b :: rest := by
    rw [trimStart_blank hbefore, trimStart_eq_self_iff.mpr (free_word c _)]
  have hbreak : ∀ t, Free Text.isSolid (b :: t) := free_cons (by simp [Text.isSolid, hb])
  have hend : c.word ++ b :: rest = c.word ++ [b] ++ rest := by simp
  rw [Text.trim, hfront, hend, Text.trimEnd_append]
  split
  · rename_i hnil
    have hblank : Blank [b] := blank_cons hb blank_nil
    have hrest : rest.trim = [] := Text.trim_eq_nil_iff.mpr (Text.trimEnd_eq_nil_iff.mp hnil)
    have hword := split_word c (free_nil Text.isSolid)
    rw [List.append_nil] at hword
    rw [Text.trimEnd_blank hblank, trimEnd_word, hword, hrest]
    rfl
  · rw [List.append_assoc, List.singleton_append, split_word c (hbreak _),
      Text.trimStart_of_blank hb, Text.trimStart_trimEnd]

theorem command?_line (c : Command) (hbefore : Blank before) (hb : Text.isBlank b = true)
    (rest : Text) : command? (before ++ (c.word ++ b :: rest)) = some c := by
  rw [command?, split_line c hbefore hb]
  exact Command.ofWord?_word c

theorem arguments_line (c : Command) (hbefore : Blank before) (hb : Text.isBlank b = true)
    (rest : Text) : arguments (before ++ (c.word ++ b :: rest)) = rest.trim := by
  rw [arguments, split_line c hbefore hb]

theorem execute_line (s : Shell) (c : Command) (hne : w ≠ []) (hw : Blank w) (hw' : Blank w')
    (t : Text) :
    s.execute (c.word ++ w ++ t ++ w') =
      run { s with history := s.history ++ [Text.trim (c.word ++ w ++ t ++ w')] } c t.trim := by
  cases w with
  | nil => exact absurd rfl hne
  | cons b w =>
    have hb := hw b (List.mem_cons_self ..)
    have hblank : Blank w := fun x hx => hw x (List.mem_cons_of_mem b hx)
    have hline : c.word ++ b :: w ++ t ++ w' = [] ++ (c.word ++ b :: (w ++ t ++ w')) := by simp
    have hargs := arguments_line c blank_nil hb (w ++ t ++ w')
    rw [Text.trim_blanks hblank hw', ← hline] at hargs
    have hcommand := command?_line c blank_nil hb (w ++ t ++ w')
    rw [← hline] at hcommand
    rw [execute_command hcommand, hargs]

end

end LetShell.Shell
