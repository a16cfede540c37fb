import LetShell.Proofs.Engine.Run
import LetShell.Proofs.Options.Typed

/-!
# Options along a history

Four things reach the options: an assignment to an option, a change of one by
itself, the words of the shell, and a new declaration. All but the last go by
changes to definitions as they stand in the store, so every history keeps twins,
and the values that declarations start with stay proper, or of the right form.
-/

set_option autoImplicit false

namespace LetShell.Engine

section
variable (e : Engine)

theorem options_obtain (name : Text) : (e.obtain name).1.options = e.options := by
  unfold obtain
  split
  · rfl
  · split <;> rfl

theorem options_discard (serial : Nat) : (e.discard serial).options = e.options := by
  unfold discard
  split
  · rfl
  · split
    · rfl
    · split <;> rfl

theorem options_inherit (entry : Text) : (e.inherit entry).1.options = e.options := by
  unfold inherit
  split
  · rfl
  · rename_i name value _
    have h := options_obtain e (Text.upTo e.nameMax name)
    simp only
    split <;> rename_i ho <;> rw [ho] at h <;> exact h

theorem options_inheritAll (entries : List Text) :
    (e.inheritAll entries).1.options = e.options := by
  induction entries generalizing e with
  | nil => rfl
  | cons entry entries ih =>
    simp only [inheritAll]
    rw [ih, options_inherit]

theorem options_bootstrap (entries : List Text) : (e.bootstrap entries).options = e.options :=
  options_inheritAll e entries

theorem options_teardown : (e.teardown).1.options = e.options := by
  unfold teardown
  split <;> rfl

theorem options_store (r : Record) (v message : Text) :
    (e.store r v message).1.options = e.options := by
  unfold store
  simp only
  split <;> rfl

theorem options_setVariable (name v : Text) : (e.setVariable name v).1.options = e.options := by
  have h := options_obtain e name
  unfold setVariable
  split
  · rename_i ho
    rw [ho] at h
    exact h
  · rename_i ho
    rw [ho] at h
    rw [options_store]
    exact h

theorem options_appendVariable (name v : Text) :
    (e.appendVariable name v).1.options = e.options := by
  unfold appendVariable
  split
  · exact options_setVariable e name v
  · split
    · exact options_setVariable e name v
    · exact options_store e _ _ _

theorem options_removeName (name : Text) : (e.removeName name).1.options = e.options := by
  unfold removeName
  split
  · rfl
  · split
    · rfl
    · exact options_discard e _

theorem options_removeTokens (tokens : List (Except ParseError Text)) :
    (e.removeTokens tokens).1.options = e.options := by
  induction tokens generalizing e with
  | nil => rfl
  | cons token tokens ih =>
    cases token with
    | error p => exact ih e
    | ok name =>
      have h := options_removeName e name
      unfold removeTokens
      split <;> rename_i hr <;> rw [hr] at h <;> exact (ih _).trans h

theorem options_remove (t : Text) : (e.remove t).1.options = e.options := by
  have h := options_removeTokens e (Removal.read e.nameMax t).tokens
  simp only [remove]
  split <;> exact h

theorem options_changeOption (d : Definition) (op : Operator) (v : Text) :
    (e.changeOption d op v).1.options = (e.options.change d op.change v).1 := by
  unfold changeOption
  split
  · rename_i h
    rw [h]
  · rename_i h
    rw [h]
    rfl

end

section
variable {e : Engine}

theorem optionSteps_applyOption (h : e.options.Twinned) (scope : Scope) (name : Text)
    (op : Operator) (v : Text) (required : Bool) :
    OptionStore.Steps e.options (e.applyOption scope name op v required).1.options := by
  unfold applyOption
  split
  · rename_i d hd
    rw [options_changeOption]
    exact .single (.change d (OptionStore.lookup_own h _ hd) op.change v)
  · split <;> exact .refl

theorem optionSteps_execute (h : e.options.Twinned) (target : Target) (op : Operator)
    (v : Text) : OptionStore.Steps e.options (e.execute target op v).1.options := by
  unfold execute
  split
  · split
    · rw [options_appendVariable]
    · rw [options_setVariable]
  · exact optionSteps_applyOption h _ _ _ _ _
  · exact optionSteps_applyOption h _ _ _ _ _
  · have hlocal := optionSteps_applyOption h .local target.name op v false
    split <;> rename_i hl <;> rw [hl] at hlocal
    · have hmid := OptionStore.twinned_steps hlocal h
      exact hlocal.trans (optionSteps_applyOption hmid _ _ _ _ _)
    · exact hlocal

theorem optionSteps_assign (h : e.options.Twinned) (t : Text) :
    OptionStore.Steps e.options (e.assign t).1.options := by
  unfold assign
  split
  · exact .refl
  · exact optionSteps_execute h _ _ _

theorem optionSteps_act (h : e.options.Twinned) {a : Action} (ha : ∀ d, a ≠ .define d) :
    OptionStore.Steps e.options (e.act a).options := by
  cases a with
  | statement s =>
    cases s with
    | assign t => exact optionSteps_assign h t
    | remove t => rw [act, perform, options_remove]
  | start => rw [act, start, options_bootstrap]
  | bootstrap entries => rw [act, options_bootstrap]
  | teardown => rw [act, options_teardown]
  | obtain name => rw [act, options_obtain]
  | discard serial => rw [act, options_discard]
  | refuse names => exact .refl
  | define d => exact absurd rfl (ha d)
  | change scope name how t =>
    unfold act
    simp only
    split
    · rename_i d hd
      exact .single (.change d (OptionStore.lookup_own h _ hd) how t)
    · exact .refl
  | words ws => exact OptionStore.steps_applyWords h ws

theorem twinned_act (h : e.options.Twinned) (a : Action) : (e.act a).options.Twinned := by
  by_cases ha : ∃ d, a = .define d
  · obtain ⟨d, rfl⟩ := ha
    unfold act
    simp only
    split
    · rename_i hd
      exact OptionStore.twinned_define h hd
    · exact h
  · exact OptionStore.twinned_steps (optionSteps_act h fun d hd => ha ⟨d, hd⟩) h

theorem twinned_acts (h : e.options.Twinned) (as : List Action) : (e.acts as).options.Twinned := by
  induction as generalizing e with
  | nil => exact h
  | cons a as ih => exact ih (twinned_act h a)

/-- What every change keeps and every declaration that is met, a history keeps. -/
theorem options_acts_induction {P : OptionStore → Prop} (h : e.options.Twinned) {as : List Action}
    (hsteps : ∀ s s', OptionStore.Steps s s' → P s → P s')
    (hdefine : ∀ s s' d, .define d ∈ as → P s → s.define d = .ok s' → P s')
    (hp : P e.options) : P (e.acts as).options := by
  induction as generalizing e with
  | nil => exact hp
  | cons a as ih =>
    have hrest := fun s s' d hd => hdefine s s' d (List.mem_cons_of_mem a hd)
    refine ih (twinned_act h a) hrest ?_
    by_cases ha : ∃ d, a = .define d
    · obtain ⟨d, rfl⟩ := ha
      unfold act
      simp only
      split
      · rename_i s' hd
        exact hdefine _ s' d (List.mem_cons_self ..) hp hd
      · exact hp
    · exact hsteps _ _ (optionSteps_act h fun d hd => ha ⟨d, hd⟩) hp

theorem valued_acts {as : List Action} (ht : e.options.Twinned) (hv : e.options.Valued)
    (ha : ∀ d, .define d ∈ as → d.Canonical) : (e.acts as).options.Valued :=
  options_acts_induction ht (fun _ _ => OptionStore.valued_steps)
    (fun _ _ d hd hs => OptionStore.valued_define hs (ha d hd)) hv

theorem typed_acts {as : List Action} (ht : e.options.Twinned) (hy : e.options.Typed)
    (ha : ∀ d, .define d ∈ as → d.Typed) : (e.acts as).options.Typed :=
  options_acts_induction ht (fun _ _ => OptionStore.typed_steps)
    (fun _ _ d hd hs => OptionStore.typed_define hs (ha d hd)) hy

end

end LetShell.Engine
