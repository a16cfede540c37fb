import LetShell.Proofs.Engine.Padding
import LetShell.Proofs.Shell.Agreement

/-!
# What a line hands on

A line is cut at blanks before the reader of expressions sees it, to whom a
blank in quotes is a character like any other. The cut takes the outer blanks
only, and these mean nothing. So a line does to the engine what the statement
does that was typed, and answers accordingly.
-/

set_option autoImplicit false

namespace LetShell
open Expression Text

namespace Expression

/-- The text is a quoted text among blanks, and this is what it quotes. -/
def Quotes (content t : Text) : Prop :=
  ∃ before c after : Text, Blank before ∧ Blank after ∧ t = before ++ c ++ after ∧
    (Spelling (.single content) c ∨ Spelling (.double content) c)

section
variable {ctx : Context} {content t : Text}

theorem evaluate_escaped {written : Text} (h : Escaped content written) :
    LetShell.evaluate ctx ('"' :: (written ++ ['"'])) = .ok (.text content, []) := by
  apply evaluate_of_term
  · exact trimStart_of_not_blank (by decide)
  · simp only [term, doubleQuoted_complete h []]

theorem evaluate_quotes (ctx : Context) (h : Quotes content t) :
    LetShell.evaluate ctx t = .ok (.text content, []) := by
  obtain ⟨before, c, after, hb, ha, rfl, hc⟩ := h
  have hquoted : LetShell.evaluate ctx c = .ok (.text content, []) := by
    rcases hc with hc | hc
    · cases hc
      exact evaluate_quote ctx content
    · cases hc with
      | double hw => exact evaluate_escaped hw
  have hafter := evaluate_blank_after ctx ha c
  rw [hquoted] at hafter
  rw [List.append_assoc, evaluate_blank hb]
  generalize LetShell.evaluate ctx (c ++ after) = r at hafter
  cases hafter with
  | @ok p q hpq =>
    obtain ⟨v, rest⟩ := q
    obtain ⟨rfl, hnil⟩ := hpq
    obtain rfl : rest = [] := hnil.mp rfl
    rfl

end

end Expression

namespace Engine

section
variable {e : Engine} {t : Text} {v : Value}

theorem evaluate_of_begins (h : Begins e.context t v [])
    (hf : ∀ f, e.evaluate t ≠ .error (.fault f)) : e.evaluate t = .ok v := by
  rcases evaluate_complete h with hv | ⟨f, hfault⟩
  · rw [evaluate, hv]
  · refine absurd ?_ (hf f)
    rw [evaluate, hfault]
    rfl

end

end Engine

namespace Shell

section
variable {α : Type} {r r' : Except (Failure VariableError) α}

theorem eq_ok_of_concur {a : α} (h : Concur r r') (ha : r' = .ok a) : r = .ok a := by
  subst ha
  cases h with
  | ok h => rw [h]

theorem errorLine_ne_nil (m : Text) : errorLine m ≠ [] := List.cons_ne_nil _ _

theorem report_silent_iff (h : Concur r r') :
    report (fun _ => .ok []) r = .ok [] ↔ ∃ a, r' = .ok a := by
  rcases concur_cases h with ⟨a, rfl, rfl⟩ | ⟨x, x', rfl, rfl⟩ | ⟨y, rfl, rfl⟩
  · exact iff_of_true rfl ⟨a, rfl⟩
  · exact iff_of_false (fun h => errorLine_ne_nil _ (Except.ok.inj h)) nofun
  · exact iff_of_false nofun nofun

theorem report_error_iff (h : Concur r r') :
    Reports (report (fun _ => .ok []) r) ↔ ∃ x, r' = .error (.error x) := by
  rcases concur_cases h with ⟨a, rfl, rfl⟩ | ⟨x, x', rfl, rfl⟩ | ⟨y, rfl, rfl⟩
  · exact iff_of_false (fun ⟨m, h⟩ => errorLine_ne_nil m (Except.ok.inj h).symm) nofun
  · exact iff_of_true ⟨x.message, rfl⟩ ⟨x', rfl⟩
  · exact iff_of_false nofun nofun

theorem report_fault_iff (h : Concur r r') (f : Fault) :
    report (fun _ => .ok []) r = .error f ↔ r' = .error (.fault f) := by
  rcases concur_cases h with ⟨a, rfl, rfl⟩ | ⟨x, x', rfl, rfl⟩ | ⟨y, rfl, rfl⟩
  · exact iff_of_false nofun nofun
  · exact iff_of_false nofun nofun
  · simp [report]

end

section
variable {s : Shell} {w w' t : Text}

theorem trim_ne_nil (ht : ¬ Blank t) : t.trim ≠ [] := fun h => ht (trim_eq_nil_iff.mp h)

theorem execute_assign_line (s : Shell) (hne : w ≠ []) (hw : Blank w) (hw' : Blank w')
    (ht : ¬ Blank t) :
    (s.execute (Command.assign.word ++ w ++ t ++ w')).1.engine = (s.engine.assign t).1 ∧
      (s.execute (Command.assign.word ++ w ++ t ++ w')).2 =
        report (fun _ => .ok []) (s.engine.assign t.trim).2 := by
  rw [execute_line s .assign hne hw hw']
  simp only [run, assign, if_neg (trim_ne_nil ht)]
  exact ⟨(Engine.assign_trim s.engine t).1, trivial⟩

theorem execute_echo_line (s : Shell) (hne : w ≠ []) (hw : Blank w) (hw' : Blank w')
    (ht : ¬ Blank t) {v : Value} (hv : s.engine.evaluate t = .ok v) :
    (s.execute (Command.echo.word ++ w ++ t ++ w')).2 = v.toText := by
  have htrim := eq_ok_of_concur (Engine.evaluate_trim s.engine t) hv
  rw [execute_line s .echo hne hw hw']
  simp only [run, echo, if_neg (trim_ne_nil ht), htrim]
  rfl

end

/-- In every state: a line that assigns a text, whatever blanks stand around it,
leaves the engine as the statement leaves it, and answers nothing, with an error
or with a fault just when the statement ends so. A line that echoes it answers
with the value of the text. What stands in quotes is handed on as it stands. -/
theorem line_hands_on (s : Shell) {w w' t : Text} (hne : w ≠ []) (hw : Blank w) (hw' : Blank w')
    (ht : ¬ Blank t) :
    let assigned := s.execute (Command.assign.word ++ w ++ t ++ w')
    let echoed := s.execute (Command.echo.word ++ w ++ t ++ w')
    (assigned.1.engine = (s.engine.assign t).1 ∧
      (assigned.2 = .ok [] ↔ (s.engine.assign t).2 = .ok ()) ∧
      (Reports assigned.2 ↔ ∃ x, (s.engine.assign t).2 = .error (.error x)) ∧
      ∀ f, assigned.2 = .error f ↔ (s.engine.assign t).2 = .error (.fault f)) ∧
    (∀ v out, s.engine.evaluate t = .ok v → v.toText = .ok out → echoed.2 = .ok out) ∧
    (∀ v, Begins s.engine.context t v [] → (∀ f, s.engine.evaluate t ≠ .error (.fault f)) →
      echoed.2 = v.toText) ∧
    (∀ content, Quotes content t → echoed.2 = .ok content) ∧
    (∀ target op x content, Assigns t target op x → Quotes content x →
      (target.name.length : Int) ≤ s.engine.nameMax → s.engine.options.permits target op = true →
      assigned.1.engine = (s.engine.execute target op content).1) := by
  intro assigned echoed
  obtain ⟨hengine, hanswer⟩ := execute_assign_line s hne hw hw' ht
  have hconcur := (Engine.assign_trim s.engine t).2
  have hecho := fun v => execute_echo_line s hne hw hw' ht (v := v)
  refine ⟨⟨hengine, ?_, ?_, ?_⟩, ?_, ?_, ?_, ?_⟩
  · rw [hanswer, report_silent_iff hconcur]
    exact ⟨fun ⟨_, h⟩ => h, fun h => ⟨(), h⟩⟩
  · rw [hanswer]
    exact report_error_iff hconcur
  · intro f
    rw [hanswer]
    exact report_fault_iff hconcur f
  · intro v out hv hout
    exact (hecho v hv).trans hout
  · intro v hv hf
    exact hecho v (Engine.evaluate_of_begins hv hf)
  · intro content hq
    refine (hecho (.text content) ?_).trans rfl
    rw [Engine.evaluate, evaluate_quotes s.engine.context hq]
  · intro target op x content hform hq hl hp
    have hplan : s.engine.plan t = .ok ⟨target, op, content⟩ :=
      Engine.plan_eq_ok_iff.mpr
        ⟨x, .text content, hform, hl, evaluate_quotes s.engine.context hq, rfl, hp⟩
    rw [← Engine.assign_of_plan_ok hplan]
    exact hengine

theorem line_hands_on_sample :
    "\t ".toList ≠ [] ∧ Blank "\t ".toList ∧ Blank "\n".toList ∧
      ¬ Blank " $A = ' a  b' ".toList ∧
      (fresh.execute "let\t  $A = ' a  b' \n".toList).1.engine =
        (fresh.engine.execute ⟨.environment, ['A']⟩ .assign " a  b".toList).1 := by
  have hw : Blank "\t ".toList := List.all_eq_true.mp (by decide)
  have hw' : Blank "\n".toList := List.all_eq_true.mp (by decide)
  have ht : ¬ Blank " $A = ' a  b' ".toList := fun h => absurd (h '$' (by decide)) (by decide)
  have hspace : Blank [' '] := List.all_eq_true.mp (by decide)
  have hform : Assigns " $A = ' a  b' ".toList ⟨.environment, ['A']⟩ .assign
      " ' a  b' ".toList :=
    ⟨⟨rfl, nofun⟩, [' '], [' '], hspace, hspace, rfl⟩
  have hquotes : Quotes " a  b".toList " ' a  b' ".toList :=
    ⟨[' '], "' a  b'".toList, [' '], hspace, hspace, rfl, .inl (.single " a  b".toList)⟩
  obtain ⟨-, -, -, -, hlast⟩ := line_hands_on fresh (List.cons_ne_nil '\t' [' ']) hw hw' ht
  exact ⟨List.cons_ne_nil _ _, hw, hw', ht, hlast _ _ _ _ hform hquotes (by decide) (by decide)⟩

end Shell

end LetShell
