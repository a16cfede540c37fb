import LetShell.Proofs.Engine.Options
import LetShell.Proofs.Engine.Startup
import LetShell.Proofs.Options.Fitness

/-!
# Atomic assignments

An assignment that reports an error has changed nothing. Reading and computing
come first and only read. A variable that cannot be created is left uncreated,
and a table that refuses a write answers with a fault, not with an error. An
option without a scope is the one target with two changes: the local definition
comes first, and what it accepts its global twin accepts too.
-/

set_option autoImplicit false

namespace LetShell.Engine

/-- Records, table and options are as they were. The log may have grown. -/
structure Unchanged (e e' : Engine) : Prop where
  registry : e'.registry = e.registry
  table : e'.table = e.table
  options : e'.options = e.options

section
variable {e : Engine} {x : VariableError}

theorem unchanged_refl (e : Engine) : e.Unchanged e := ⟨rfl, rfl, rfl⟩

theorem store_reports_no_error (e : Engine) (r : Record) (v message : Text) :
    (e.store r v message).2 ≠ .error (.error x) := by
  unfold store
  simp only
  split <;> intro h <;> cases h

theorem unchanged_setVariable {name v : Text}
    (h : (e.setVariable name v).2 = .error (.error x)) :
    e.Unchanged (e.setVariable name v).1 := by
  unfold setVariable obtain at h ⊢
  cases hf : e.registry.find? name with
  | some r =>
    simp only [hf] at h
    exact absurd h (store_reports_no_error e r v _)
  | none =>
    cases hr : e.registry.refuses name with
    | true => exact ⟨rfl, rfl, rfl⟩
    | false =>
      simp only [hf, hr, Bool.false_eq_true, if_false] at h
      exact absurd h (store_reports_no_error _ _ v _)

theorem unchanged_appendVariable {name v : Text}
    (h : (e.appendVariable name v).2 = .error (.error x)) :
    e.Unchanged (e.appendVariable name v).1 := by
  unfold appendVariable at h ⊢
  cases hf : e.registry.find? name with
  | none =>
    rw [hf] at h
    exact unchanged_setVariable h
  | some r =>
    simp only [hf] at h ⊢
    by_cases hr : r.removed = true
    · rw [if_pos hr] at h ⊢
      exact unchanged_setVariable h
    · rw [if_neg hr] at h
      exact absurd h (store_reports_no_error e r _ _)

theorem changeOption_error {d : Definition} {op : Operator} {v : Text}
    {f : Failure VariableError} (h : (e.changeOption d op v).2 = .error f) :
    (e.changeOption d op v).1 = e := by
  cases hc : e.options.change d op.change v with
  | mk s answer =>
    simp only [changeOption, hc] at h ⊢
    cases answer with
    | ok _ => cases h
    | error g =>
      have hs := OptionStore.change_error (congrArg Prod.snd hc)
      rw [hc] at hs
      rw [show s = e.options from hs]

theorem applyOption_error {scope : Scope} {name : Text} {op : Operator} {v : Text}
    {required : Bool} {f : Failure VariableError}
    (h : (e.applyOption scope name op v required).2 = .error f) :
    (e.applyOption scope name op v required).1 = e := by
  unfold applyOption at h ⊢
  split at h
  · exact changeOption_error h
  · split <;> rfl

theorem fits_of_changeOption {d : Definition} {op : Operator} {v : Text}
    (h : (e.changeOption d op v).2 = .ok ()) : d.fits op.change v = true := by
  cases hc : d.changed op.change v with
  | ok w => exact Definition.fits_of_changed hc
  | error f =>
    simp only [changeOption, OptionStore.change, hc] at h
    cases h

theorem not_fits_of_changeOption {d : Definition} {op : Operator} {v : Text}
    (h : (e.changeOption d op v).2 = .error (.error x)) : d.fits op.change v = false := by
  cases hc : d.changed op.change v with
  | ok w =>
    simp only [changeOption, OptionStore.change, hc] at h
    cases h
  | error f =>
    cases f with
    | error y => exact Definition.not_fits_of_changed hc
    | fault f =>
      simp only [changeOption, OptionStore.change, hc, Failure.map] at h
      cases h

/-- The global definition does not reject what the local one took. -/
theorem twin_accepts (h : e.options.Twinned) {name : Text} {d : Definition} {op : Operator}
    {v : Text} (hd : e.options.lookup .local name = some d)
    (hok : (e.changeOption d op v).2 = .ok ()) :
    ((e.changeOption d op v).1.applyOption .global name op v true).2 ≠ .error (.error x) := by
  obtain ⟨g, hg, htype, hvalues⟩ := h.twin name d hd
  have hscope : Scope.global ≠ d.scope := by
    rw [h.scope .local name d hd]
    decide
  have hsame : (e.changeOption d op v).1.options.lookup .global name = some g := by
    rw [options_changeOption, OptionStore.lookup_change_other _ hscope]
    exact hg
  intro herr
  unfold applyOption at herr
  rw [hsame] at herr
  have hunfit := not_fits_of_changeOption herr
  rw [Definition.fits_congr htype hvalues, fits_of_changeOption hok] at hunfit
  cases hunfit

theorem unchanged_applyOption {scope : Scope} {name : Text} {op : Operator} {v : Text}
    {required : Bool} (h : (e.applyOption scope name op v required).2 = .error (.error x)) :
    e.Unchanged (e.applyOption scope name op v required).1 := by
  rw [applyOption_error h]
  exact unchanged_refl e

theorem unchanged_bothScopes (h : e.options.Twinned) {name : Text} {op : Operator} {v : Text}
    (herr : (e.execute ⟨.anyOption, name⟩ op v).2 = .error (.error x)) :
    e.Unchanged (e.execute ⟨.anyOption, name⟩ op v).1 := by
  simp only [execute] at herr ⊢
  cases hl : e.options.lookup .local name with
  | none =>
    have hlocal : e.applyOption .local name op v false = (e, .ok ()) := by
      simp [applyOption, hl]
    rw [hlocal] at herr ⊢
    exact unchanged_applyOption herr
  | some d =>
    have hlocal : e.applyOption .local name op v false = e.changeOption d op v := by
      simp only [applyOption, hl]
    rw [hlocal] at herr ⊢
    cases hc : e.changeOption d op v with
    | mk e' answer =>
      cases answer with
      | ok _ =>
        have haccepts := twin_accepts (x := x) h hl (congrArg Prod.snd hc)
        rw [hc] at haccepts herr
        exact absurd herr haccepts
      | error f =>
        have hback := changeOption_error (congrArg Prod.snd hc)
        rw [hc] at hback
        rw [show e' = e from hback]
        exact unchanged_refl e

theorem unchanged_execute (h : e.options.Twinned) {target : Target} {op : Operator} {v : Text}
    (herr : (e.execute target op v).2 = .error (.error x)) :
    e.Unchanged (e.execute target op v).1 := by
  obtain ⟨kind, name⟩ := target
  cases kind with
  | environment =>
    simp only [execute] at herr ⊢
    by_cases hop : op = .append
    · rw [if_pos hop] at herr ⊢
      exact unchanged_appendVariable herr
    · rw [if_neg hop] at herr ⊢
      exact unchanged_setVariable herr
  | localOption => exact unchanged_applyOption herr
  | globalOption => exact unchanged_applyOption herr
  | anyOption => exact unchanged_bothScopes h herr

theorem unchanged_assign (h : e.options.Twinned) {t : Text}
    (herr : (e.assign t).2 = .error (.error x)) : e.Unchanged (e.assign t).1 := by
  cases hp : e.plan t with
  | error f =>
    rw [assign_of_plan_error hp]
    exact unchanged_refl e
  | ok a =>
    rw [assign_of_plan_ok hp] at herr ⊢
    exact unchanged_execute h herr

/-- Options come from declarations alone, records and table from anywhere.
Whatever has happened since, an assignment that reports an error leaves every
record, the table and every option of both scopes as they were. -/
theorem assign_error_keeps {e₀ : Engine} {ds : List Declaration}
    (h : OptionStore.ofDeclarations ds = .ok e₀.options) (as : List Action) (t : Text)
    (herr : ((e₀.acts as).assign t).2 = .error (.error x)) :
    (e₀.acts as).Unchanged ((e₀.acts as).assign t).1 :=
  unchanged_assign (twinned_acts (OptionStore.twinned_ofDeclarations h) as) herr

theorem assign_error_keeps_sample :
    OptionStore.ofDeclarations OptionStore.standardDeclarations = .ok (sample []).options ∧
      (((sample []).acts [.start, .statement (.assign "&tabstop = 4".toList),
        .words ["tabstop-=1".toList]]).assign "&tabstop += 'x'".toList).2 =
          .error (.error (.option (.invalidNumber "tabstop".toList ['x']))) ∧
      ((sample []).acts [.start, .statement (.assign "&tabstop = 4".toList),
        .words ["tabstop-=1".toList]]).Unchanged
        (((sample []).acts [.start, .statement (.assign "&tabstop = 4".toList),
          .words ["tabstop-=1".toList]]).assign "&tabstop += 'x'".toList).1 := by
  have h : OptionStore.ofDeclarations OptionStore.standardDeclarations =
      .ok (sample []).options := rfl
  have herr : (((sample []).acts [.start, .statement (.assign "&tabstop = 4".toList),
      .words ["tabstop-=1".toList]]).assign "&tabstop += 'x'".toList).2 =
        .error (.error (.option (.invalidNumber "tabstop".toList ['x']))) := by
    decide +kernel
  exact ⟨h, herr, assign_error_keeps h _ _ herr⟩

end

end LetShell.Engine
