import LetShell.Proofs.Engine.Acceptance
import LetShell.Proofs.Engine.Options
import LetShell.Proofs.Engine.Step
import LetShell.Proofs.Expression.Faults
import LetShell.Proofs.Options.Faults

/-!
# Faults of statements

Over a private table and options with proper values, a statement faults only
before it has changed anything: while its expression is evaluated or the value
is written out. Carrying out an assignment never faults, and a removal has no
fault to report at all.
-/

set_option autoImplicit false

namespace LetShell.Engine
open Expression

structure Steady (e : Engine) : Prop where
  regular : e.Regular
  twinned : e.options.Twinned
  valued : e.options.Valued

section
variable {e : Engine} {t : Text} {f : Fault}

theorem steady_statement (h : e.Steady) (s : Statement) : (e.perform s).Steady := by
  have hno : ∀ d, Action.statement s ≠ .define d := nofun
  exact ⟨regular_steps (steps_perform h.regular s) h.regular, twinned_act h.twinned (.statement s),
    OptionStore.valued_steps (optionSteps_act h.twinned hno) h.valued⟩

theorem steady_words (h : e.Steady) (ws : List Text) : (e.act (.words ws)).Steady := by
  have hsteps := OptionStore.steps_applyWords h.twinned ws
  exact ⟨⟨h.regular.sound, h.regular.memory⟩, OptionStore.twinned_steps hsteps h.twinned,
    OptionStore.valued_steps hsteps h.valued⟩

theorem steady_acts (h : e.Steady) {as : List Action}
    (ha : ∀ a ∈ as, (∃ s, a = .statement s) ∨ ∃ ws, a = .words ws) : (e.acts as).Steady := by
  induction as generalizing e with
  | nil => exact h
  | cons a as ih =>
    obtain ⟨hone, hrest⟩ := List.forall_mem_cons.mp ha
    rcases hone with ⟨s, rfl⟩ | ⟨ws, rfl⟩
    · exact ih (steady_statement h s) hrest
    · exact ih (steady_words h ws) hrest

theorem overlong_of_option {name : Text} {n : Int} (ho : e.context.option name = some (.int n))
    (hl : Numeral.Long n) : e.options.Overlong := by
  have hbit : ∀ b : Bool, ¬ Numeral.Long (if b then 1 else 0) := by
    intro b
    cases b <;> decide
  change (e.readOption name).bind (·.toValue?) = _ at ho
  obtain ⟨v, hv, hn⟩ := Option.bind_eq_some_iff.mp ho
  obtain ⟨d, hd, rfl⟩ := Option.map_eq_some_iff.mp hv
  have hm : d ∈ e.options.globals := OptionStore.mem_of_lookup hd
  cases hvalue : d.value with
  | int m =>
    rw [hvalue] at hn
    cases hn
    exact ⟨d, hm, n, hvalue, hl⟩
  | bool b =>
    rw [hvalue] at hn
    cases hn
    exact absurd hl (hbit b)
  | none =>
    rw [hvalue] at hn
    cases hn
  | text s =>
    rw [hvalue] at hn
    cases hn

theorem evaluate_fault (h : e.evaluate t = .error (.fault f)) : Cause e.context t f := by
  unfold evaluate at h
  split at h
  · rename_i x hx
    cases x with
    | error x => cases h
    | fault x =>
      cases h
      exact (evaluate_orderly e.context).fault hx
  · cases h
  · cases h

theorem evaluate_grounded {v : Value} (h : e.evaluate t = .ok v) : Grounded e.context v := by
  unfold evaluate at h
  split at h
  · cases h
  · rename_i hv
    cases h
    exact ((evaluate_orderly e.context).value hv).1
  · cases h

theorem plan_fault (h : e.plan t = .error (.fault f)) : Cause e.context t f := by
  have ho := evaluate_orderly e.context
  unfold plan at h
  split at h
  · cases h
  · rename_i target rest htarget
    split at h
    · cases h
    · rename_i op x hop
      obtain ⟨⟨-, before, between, -, -, ht⟩, -⟩ := assigns_of_reads htarget hop
      have hx : x <:+: t := ⟨before ++ target.spelling ++ between ++ op.spelling, [], by simp [ht]⟩
      split at h
      · rename_i y hy
        cases y with
        | error y => cases h
        | fault y =>
          cases h
          exact (ho.fault hy).mono hx
      · rename_i v left hv
        split at h
        · cases h
        · split at h
          · split at h
            · rename_i y hy
              cases h
              exact cause_of_toText (ho.value hv).1 hy t
            · cases h
          · cases h

theorem store_ne_fault (h : e.table.kind = .ofMemory) (r : Record) (v message : Text) :
    (e.store r v message).2 ≠ .error (.fault f) := by
  unfold store
  simp only [Table.set_ofMemory h]
  exact nofun

theorem setVariable_ne_fault (h : e.table.kind = .ofMemory) (name v : Text) :
    (e.setVariable name v).2 ≠ .error (.fault f) := by
  unfold setVariable obtain
  cases e.registry.find? name with
  | some r => exact store_ne_fault h r v _
  | none =>
    cases e.registry.refuses name with
    | true => exact nofun
    | false => exact store_ne_fault (by exact h) _ v _

theorem appendVariable_ne_fault (h : e.table.kind = .ofMemory) (name v : Text) :
    (e.appendVariable name v).2 ≠ .error (.fault f) := by
  unfold appendVariable
  split
  · exact setVariable_ne_fault h name v
  · split
    · exact setVariable_ne_fault h name v
    · exact store_ne_fault h _ _ _

theorem changeOption_ne_fault {d : Definition} (h : d.Typed) (op : Operator) (v : Text) :
    (e.changeOption d op v).2 ≠ .error (.fault f) := by
  have hne := OptionStore.change_ne_fault (s := e.options) (f := f) h op.change v
  unfold changeOption
  split
  · rename_i x hx
    rw [hx] at hne
    cases x with
    | error x => exact nofun
    | fault x =>
      rintro ⟨⟩
      exact hne rfl
  · exact nofun

theorem applyOption_ne_fault (h : e.options.Valued) (scope : Scope) (name : Text) (op : Operator)
    (v : Text) (required : Bool) :
    (e.applyOption scope name op v required).2 ≠ .error (.fault f) := by
  unfold applyOption
  split
  · rename_i d hd
    exact changeOption_ne_fault (OptionStore.typed_of_valued h _ _ d hd) op v
  · split <;> exact nofun

theorem execute_ne_fault (h : e.Steady) (target : Target) (op : Operator) (v : Text) :
    (e.execute target op v).2 ≠ .error (.fault f) := by
  unfold execute
  split
  · split
    · exact appendVariable_ne_fault h.regular.memory _ v
    · exact setVariable_ne_fault h.regular.memory _ v
  · exact applyOption_ne_fault h.valued _ _ op v true
  · exact applyOption_ne_fault h.valued _ _ op v true
  · have hlocal := applyOption_ne_fault (f := f) h.valued .local target.name op v false
    have hsteps := optionSteps_applyOption h.twinned .local target.name op v false
    split
    · rename_i e' he
      rw [he] at hsteps
      exact applyOption_ne_fault (OptionStore.valued_steps hsteps h.valued) _ _ op v true
    · rename_i e' x he
      rw [he] at hlocal
      exact hlocal

/-- An assignment that faults has changed nothing. -/
theorem assign_fault (h : e.Steady) (hf : (e.assign t).2 = .error (.fault f)) :
    (e.assign t).1 = e ∧ Cause e.context t f := by
  cases hp : e.plan t with
  | error x =>
    rw [assign_of_plan_error hp] at hf ⊢
    cases hf
    exact ⟨rfl, plan_fault hp⟩
  | ok a =>
    rw [assign_of_plan_ok hp] at hf
    exact absurd hf (execute_ne_fault h _ _ _)

end

end LetShell.Engine
