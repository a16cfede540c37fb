import Mathlib.Data.List.Flatten
import LetShell.Proofs.Shell.Farewell

/-!
# The history and who reads it

Every line that is not blank goes into the history, and no other command than
the one that lists it has an output that depends on it. The list is a faithful
one to this extent: a history with more lines in it has more line breaks in its
list, whatever the lines hold.
-/

set_option autoImplicit false

namespace LetShell.Shell

def noted (line : Text) : List Text := if line.trim = [] then [] else [line.trim]

def AsksHistory (line : Text) : Prop :=
  (Text.words line).head? = some Command.history.word

theorem count_numbered_line (n : Nat) (line : Text) :
    ([' ', ' '] ++ Text.ofNat n ++ [' ', ' '] ++ line).count '\n' = line.count '\n' := by
  have hnat := List.count_eq_zero.mpr (Text.not_mem_ofNat (c := '\n') rfl n)
  simp [List.count_append, hnat]

theorem count_unlines_numbered (n : Nat) (line : Text) (lines : List Text) :
    (Text.unlines (numbered n (line :: lines))).count '\n' =
      (line :: lines).flatten.count '\n' + lines.length := by
  induction lines generalizing n line with
  | nil =>
    have hone : Text.unlines (numbered n [line]) =
        [' ', ' '] ++ Text.ofNat n ++ [' ', ' '] ++ line := by
      simp [Text.unlines, Text.joined, numbered]
    rw [hone, count_numbered_line]
    simp
  | cons next lines ih =>
    have hmore : Text.unlines (numbered n (line :: next :: lines)) =
        [' ', ' '] ++ Text.ofNat n ++ [' ', ' '] ++ line ++ ['\n'] ++
          Text.unlines (numbered (n + 1) (next :: lines)) := by
      simp only [Text.unlines, Text.joined, numbered, List.intercalate_cons_cons]
    rw [hmore, List.count_append, List.count_append, count_numbered_line, ih,
      List.count_singleton_self, List.length_cons, List.flatten_cons (l := line), List.count_append]
    omega

theorem unlines_numbered_ne {short long : List Text} (hs : short.Sublist long)
    (hl : short.length < long.length) (hne : short ≠ []) (n : Nat) :
    Text.unlines (numbered n long) ≠ Text.unlines (numbered n short) := by
  intro h
  have hcount := congrArg (List.count '\n') h
  have hbreaks : short.flatten.count '\n' ≤ long.flatten.count '\n' :=
    hs.flatten.count_le '\n'
  cases short with
  | nil => exact hne rfl
  | cons x xs =>
    cases long with
    | nil => exact absurd hl (Nat.not_lt_zero _)
    | cons y ys =>
      rw [count_unlines_numbered, count_unlines_numbered] at hcount
      simp only [List.length_cons] at hl
      omega

section
variable {s s' : Shell} {line : Text}

theorem run_history (s : Shell) (c : Command) (args : Text) :
    (s.run c args).1.history = s.history := by
  cases c with
  | assign =>
    unfold run assign
    simp only
    split <;> rfl
  | remove =>
    unfold run remove
    simp only
    split <;> rfl
  | set =>
    unfold run set
    simp only
    split <;> rfl
  | help | echo | env | log | history | version | exit => rfl

theorem execute_history (s : Shell) (line : Text) :
    (s.execute line).1.history = s.history ++ noted line := by
  unfold execute noted
  by_cases hl : line.trim = []
  · simp [hl]
  · simp only [hl, if_false]
    split
    · exact run_history _ _ _
    · rfl

theorem run_answer (he : s.engine = s'.engine) {c : Command} (hc : c ≠ .history) (args : Text) :
    (s.run c args).2 = (s'.run c args).2 := by
  cases c with
  | history => exact absurd rfl hc
  | assign =>
    unfold run assign
    simp only [he]
    split <;> rfl
  | remove =>
    unfold run remove
    simp only [he]
    split <;> rfl
  | set =>
    unfold run set
    simp only [he]
    split <;> rfl
  | echo | env | log | version => simp only [run, echo, showLog, he]
  | help | exit => rfl

theorem asksHistory_iff (hl : line.trim ≠ []) :
    AsksHistory line ↔ Command.ofWord? (split line.trim).1 = some .history := by
  rw [AsksHistory, Text.head?_words, if_neg hl, Command.ofWord?_eq_some_iff, Option.some.injEq]
  rfl

theorem execute_asksHistory (s : Shell) (h : AsksHistory line) :
    (s.execute line).2 = .ok (Text.unlines (numbered 1 (s.history ++ noted line))) := by
  have hl : line.trim ≠ [] := by
    intro hl
    rw [AsksHistory, Text.head?_words, if_pos hl] at h
    cases h
  unfold execute noted
  simp only [hl, if_false, (asksHistory_iff hl).mp h]
  rfl

theorem execute_answer (he : s.engine = s'.engine) (h : ¬AsksHistory line) :
    (s.execute line).2 = (s'.execute line).2 := by
  unfold execute
  by_cases hl : line.trim = []
  · simp only [hl, if_true]
  · simp only [hl, if_false]
    cases hc : Command.ofWord? (split line.trim).1 with
    | none => rfl
    | some c =>
      have hhistory : c ≠ .history := by
        rintro rfl
        exact h ((asksHistory_iff hl).mpr hc)
      simp only
      exact run_answer (by exact he) hhistory _

/-- Of two shells with one engine, where the one has been given more lines in
between, the same line tells apart only if it asks for the history, and then it
does. -/
theorem execute_answer_iff (he : s.engine = s'.engine) (hs : s'.history.Sublist s.history)
    (hl : s'.history.length < s.history.length) (line : Text) :
    (s.execute line).2 = (s'.execute line).2 ↔ ¬AsksHistory line := by
  constructor
  · intro h hasks
    rw [execute_asksHistory s hasks, execute_asksHistory s' hasks] at h
    have hne : s'.history ++ noted line ≠ [] := by
      intro hnil
      have hblank := (List.append_eq_nil_iff.mp hnil).2
      unfold noted at hblank
      split at hblank
      · rename_i hb
        rw [AsksHistory, Text.head?_words, if_pos hb] at hasks
        cases hasks
      · cases hblank
    refine unlines_numbered_ne (hs.append_right _) ?_ hne 1 (Except.ok.inj h)
    simpa using hl
  · exact execute_answer he

end

end LetShell.Shell
