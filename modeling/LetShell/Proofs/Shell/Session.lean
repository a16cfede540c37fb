import LetShell.Proofs.Engine.Run
import LetShell.Shell.Basic

/-!
# Sessions

A session executes lines in turn and goes on whatever each of them answers. To
the engine a line is at most one action, which can be told from the line alone:
a statement, or words for the options. No line declares an option, starts the
engine or tears it down.
-/

set_option autoImplicit false

namespace LetShell

namespace Command

def action? : Command → Text → Option Action
  | .assign, args => some (.statement (.assign args))
  | .remove, args => some (.statement (.remove args))
  | .set, args => some (.words (Text.words args))
  | .help, _ | .echo, _ | .env, _ | .log, _ | .history, _ | .version, _ | .exit, _ => none

def actions (c : Command) (args : Text) : List Action :=
  if args = [] then [] else (c.action? args).toList

end Command

namespace Shell

/-- What a line asks of the engine. -/
def actions (line : Text) : List Action :=
  match Command.ofWord? (split line.trim).1 with
  | some command => command.actions (split line.trim).2
  | none => []

def after (s : Shell) : List Text → Shell
  | [] => s
  | line :: lines => ((s.execute line).1).after lines

theorem run_engine (s : Shell) (command : Command) (args : Text) :
    (s.run command args).1.engine = s.engine.acts (command.actions args) := by
  by_cases ha : args = []
  · subst ha
    cases command <;> rfl
  · rw [Command.actions, if_neg ha]
    cases command with
    | assign =>
      simp only [run, assign, ha, if_false]
      rfl
    | remove =>
      simp only [run, remove, ha, if_false]
      rfl
    | set =>
      simp only [run, set, ha, if_false]
      rfl
    | help => rfl
    | echo => rfl
    | env => rfl
    | log => rfl
    | history => rfl
    | version => rfl
    | exit => rfl

theorem execute_engine (s : Shell) (line : Text) :
    (s.execute line).1.engine = s.engine.acts (actions line) := by
  unfold execute actions
  by_cases hl : line.trim = []
  · simp only [hl, if_true]
    rfl
  · simp only [hl, if_false]
    cases Command.ofWord? (split line.trim).1 with
    | none => rfl
    | some command => exact run_engine _ command _

theorem after_engine (s : Shell) (lines : List Text) :
    (s.after lines).engine = s.engine.acts (lines.flatMap actions) := by
  induction lines generalizing s with
  | nil => rfl
  | cons line lines ih => rw [after, ih, execute_engine, List.flatMap_cons, Engine.acts_append]

theorem mem_actions {line : Text} {a : Action} (h : a ∈ actions line) :
    (∃ s, a = .statement s) ∨ ∃ ws, a = .words ws := by
  have hone : ∀ (c : Command) (args : Text), c.action? args = some a →
      (∃ s, a = .statement s) ∨ ∃ ws, a = .words ws := by
    intro c args hc
    cases c <;> cases hc
    · exact .inl ⟨_, rfl⟩
    · exact .inl ⟨_, rfl⟩
    · exact .inr ⟨_, rfl⟩
  unfold actions at h
  split at h
  · rename_i command _
    unfold Command.actions at h
    split at h
    · cases h
    · exact hone command _ (Option.mem_toList.mp h)
  · cases h

end Shell

end LetShell
