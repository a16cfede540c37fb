import LetShell.Proofs.Engine.Acceptance
import LetShell.Proofs.Expression.Padding

/-!
# Blanks around a statement

The blanks around an assignment or an expression carry no meaning. With and
without them the engine does the same, and either succeeds, or fails with some
error, or meets the same fault. The wording of an error may differ, since it may
quote the text up to the end.
-/

set_option autoImplicit false

namespace LetShell
open Expression Text

section
variable {t x w : Text} {target : Target} {op : Operator}

theorem assigns_blank (hw : Blank w) :
    Assigns (t ++ w) target op x ↔ ∃ y, x = y ++ w ∧ Assigns t target op y := by
  constructor
  · rintro ⟨ha, before, between, hb, hbetween, ht⟩
    have hop : Closed op.spelling := by
      cases op <;> first
        | exact ⟨[], '=', rfl, by decide⟩
        | exact ⟨[_], '=', rfl, by decide⟩
    have hfront := closed_append hop (before ++ target.spelling ++ between)
    obtain ⟨y, hy, hx⟩ := closed_prefix hfront hw ht
    exact ⟨y, hx, ha, before, between, hb, hbetween, hy⟩
  · rintro ⟨y, rfl, ha, before, between, hb, hbetween, rfl⟩
    exact ⟨ha, before, between, hb, hbetween, List.append_assoc ..⟩

end

def Akin {ε : Type} (f f' : Failure ε) : Prop := f.map (fun _ => ()) = f'.map fun _ => ()

/-- One value, or two errors, or one fault. -/
abbrev Concur {ε α : Type} (r r' : Except (Failure ε) α) : Prop := Paired Akin Eq r r'

section
variable {f f' : Failure ExpressionError}

theorem akin_expression (h : SameFailure f f') :
    Akin (f.map VariableError.expression) (f'.map VariableError.expression) := by
  rcases sameFailure_cases h with ⟨x, x', rfl, rfl, -⟩ | ⟨y, rfl, rfl⟩
  · rfl
  · rfl

theorem concur_refl {ε α : Type} (r : Except (Failure ε) α) : Concur r r := by
  cases r with
  | ok a => exact .ok rfl
  | error f => exact .error rfl

theorem concur_cases {ε α : Type} {r r' : Except (Failure ε) α} (h : Concur r r') :
    (∃ a, r = .ok a ∧ r' = .ok a) ∨ (∃ x x', r = .error (.error x) ∧ r' = .error (.error x')) ∨
      ∃ y, r = .error (.fault y) ∧ r' = .error (.fault y) := by
  cases h with
  | ok h => exact .inl ⟨_, rfl, by rw [h]⟩
  | @error f f' h =>
    cases f with
    | error x =>
      cases f' with
      | error x' => exact .inr (.inl ⟨x, x', rfl, rfl⟩)
      | fault y' => cases h
    | fault y =>
      cases f' with
      | error x' => cases h
      | fault y' =>
        cases h
        exact .inr (.inr ⟨y, rfl, rfl⟩)

end

namespace Engine

section
variable {e : Engine} {t w x : Text} {target : Target} {op : Operator}

theorem plan_trimStart (e : Engine) (t : Text) : e.plan t.trimStart = e.plan t := by
  unfold plan
  rw [trimStart_trimStart]

theorem evaluate_trimStart (e : Engine) (t : Text) : e.evaluate t.trimStart = e.evaluate t := by
  unfold evaluate
  rw [Expression.evaluate_trimStart]

theorem plan_of_no_form
    (h : ∀ target op x, Assigns t target op x → ¬(target.name.length : Int) ≤ e.nameMax) :
    ∃ p, e.plan t = .error (.error (.parse p)) := by
  unfold plan
  split
  · exact ⟨_, rfl⟩
  · rename_i target rest ht
    split
    · exact ⟨_, rfl⟩
    · rename_i op x ho
      obtain ⟨hform, hl⟩ := assigns_of_reads ht ho
      exact absurd hl (h target op x hform)

theorem plan_blank (e : Engine) (hw : Blank w) (t : Text) :
    Concur (e.plan t) (e.plan (t ++ w)) := by
  by_cases h : ∃ target op x, Assigns t target op x ∧ (target.name.length : Int) ≤ e.nameMax
  · obtain ⟨target, op, x, hform, hl⟩ := h
    have hvalue := evaluate_blank_after e.context hw x
    rw [plan_of_assigns hform hl, plan_of_assigns ((assigns_blank hw).mpr ⟨x, rfl, hform⟩) hl]
    generalize LetShell.evaluate e.context x = r at hvalue
    generalize LetShell.evaluate e.context (x ++ w) = r' at hvalue
    cases hvalue with
    | error hf => exact .error (akin_expression hf)
    | ok hpq =>
      obtain ⟨hv, hnil⟩ := hpq
      simp only [← hv, ne_eq, ← hnil]
      exact concur_refl _
  · have hno : ∀ target op x, Assigns t target op x → ¬(target.name.length : Int) ≤ e.nameMax :=
      fun target op x hform hl => h ⟨target, op, x, hform, hl⟩
    have hno' : ∀ target op x, Assigns (t ++ w) target op x →
        ¬(target.name.length : Int) ≤ e.nameMax := by
      intro target op x hform
      obtain ⟨y, -, hy⟩ := (assigns_blank hw).mp hform
      exact hno target op y hy
    obtain ⟨p, hp⟩ := plan_of_no_form hno
    obtain ⟨p', hp'⟩ := plan_of_no_form hno'
    rw [hp, hp']
    exact .error rfl

theorem evaluate_blank (e : Engine) (hw : Blank w) (t : Text) :
    Concur (e.evaluate t) (e.evaluate (t ++ w)) := by
  have hvalue := evaluate_blank_after e.context hw t
  unfold evaluate
  generalize LetShell.evaluate e.context t = r at hvalue
  generalize LetShell.evaluate e.context (t ++ w) = r' at hvalue
  cases hvalue with
  | error hf => exact .error (akin_expression hf)
  | @ok p q hpq =>
    obtain ⟨v, rest⟩ := p
    obtain ⟨v', rest'⟩ := q
    obtain ⟨rfl, hnil⟩ := hpq
    cases rest with
    | nil =>
      obtain rfl : rest' = [] := hnil.mp rfl
      exact .ok rfl
    | cons c s =>
      cases rest' with
      | nil => exact absurd (hnil.mpr rfl) (List.cons_ne_nil c s)
      | cons c' s' => exact .error rfl

theorem plan_trim (e : Engine) (t : Text) : Concur (e.plan t.trim) (e.plan t) := by
  obtain ⟨w, hw, ht⟩ := trimStart_eq_trim_append t
  have h := plan_blank e hw t.trim
  rwa [← ht, plan_trimStart] at h

theorem evaluate_trim (e : Engine) (t : Text) : Concur (e.evaluate t.trim) (e.evaluate t) := by
  obtain ⟨w, hw, ht⟩ := trimStart_eq_trim_append t
  have h := evaluate_blank e hw t.trim
  rwa [← ht, evaluate_trimStart] at h

theorem assign_trim (e : Engine) (t : Text) :
    (e.assign t.trim).1 = (e.assign t).1 ∧ Concur (e.assign t.trim).2 (e.assign t).2 := by
  have hplan := plan_trim e t
  unfold assign
  generalize e.plan t.trim = r at hplan
  generalize e.plan t = r' at hplan
  cases hplan with
  | error hf => exact ⟨rfl, .error hf⟩
  | ok ha =>
    subst ha
    exact ⟨rfl, concur_refl _⟩

end

end Engine

end LetShell
