import LetShell.Proofs.Engine.Acceptance
import LetShell.Proofs.Engine.Options
import LetShell.Proofs.Engine.Startup
import LetShell.Proofs.Expression.Equations
import LetShell.Proofs.Options.RoundTrip

/-!
# Options assigned to themselves

Through the evaluator a value takes another way than through its own text: a
truth value is read as a number, and an unknown option is an error. Still an
option that is assigned its own value keeps it. Either the assignment is refused
before anything is changed, or it sets the text that the value is written as.
-/

set_option autoImplicit false

namespace LetShell

namespace Expression

theorem option_of_evaluate {ctx : Context} {name : Text} {v : Value}
    (ha : Alphabet.option.Accepts name)
    (h : LetShell.evaluate ctx (' ' :: '&' :: name) = .ok (v, [])) : ctx.option name = some v := by
  have hlead : Text.trimStart (' ' :: '&' :: name) = '&' :: name := by
    rw [Text.trimStart_of_blank (by decide), Text.trimStart_of_not_blank (by decide)]
  have hname := name?_complete ha (free_nil _)
  rw [List.append_nil] at hname
  rw [evaluate_eq, hlead, term, hname] at h
  cases ho : ctx.option name with
  | none =>
    simp only [ho] at h
    cases h
  | some u =>
    simp only [ho] at h
    rw [resume_nil] at h
    cases h
    rfl

end Expression

namespace Definition

theorem format_of_value {d : Definition} (hp : d.Proper) (hb : d.type ≠ .bool) {v : Value} {t : Text}
    (hv : d.value.toValue? = some v) (ht : v.toText = .ok t) : d.format = .ok t := by
  obtain ⟨name, type, value, scope, values⟩ := d
  cases hp with
  | bool => exact absurd rfl hb
  | int =>
    cases hv
    exact ht
  | string =>
    cases hv
    exact ht
  | stringList =>
    cases hv
    exact ht
  | enum =>
    cases hv
    exact ht
  | set =>
    cases hv
    exact ht

end Definition

namespace Engine
open Expression

section
variable {e : Engine} {name : Text}

theorem assign_itself (hv : e.options.Valued) (ht : e.options.Twinned)
    (ha : Alphabet.option.Accepts name) :
    (e.assign ("&g:".toList ++ name ++ " = &".toList ++ name)).1.options = e.options := by
  have hform : Assigns ("&g:".toList ++ name ++ " = &".toList ++ name)
      ⟨.globalOption, name⟩ .assign (' ' :: '&' :: name) := by
    refine ⟨ha, [], [' '], nofun, List.forall_mem_singleton.mpr (by decide), ?_⟩
    simp [Target.spelling, Kind.sigil, Operator.spelling]
  cases hp : e.plan ("&g:".toList ++ name ++ " = &".toList ++ name) with
  | error f => rw [assign_of_plan_error hp]
  | ok a =>
    obtain ⟨target, op, t⟩ := a
    obtain ⟨x, v, hform', -, hvalue, htext, hpermits⟩ := plan_eq_ok_iff.mp hp
    obtain ⟨rfl, rfl, rfl⟩ := assigns_unique hform hform'
    have hoption := option_of_evaluate ha hvalue
    obtain ⟨w, hw, hread⟩ := Option.bind_eq_some_iff.mp hoption
    obtain ⟨g, hg, rfl⟩ := Option.map_eq_some_iff.mp hw
    have hb : g.type ≠ .bool := by
      intro htype
      simp only [OptionStore.permits, hg, htype] at hpermits
      cases hpermits
    have hformat := Definition.format_of_value (hv.proper _ g (OptionStore.mem_of_lookup hg)) hb hread
      htext
    have hsame := OptionStore.change_format hv (OptionStore.lookup_own ht .global hg) hformat
    rw [assign_of_plan_ok hp]
    simp only [execute, applyOption, hg, options_changeOption, Operator.change, hsame]

/-- Options that were declared with proper values, after anything that can be
done to them since: a value has a text, unless it is an integer too long, and
setting that text succeeds and changes nothing. Nor does it change any option to
assign one to itself, whatever comes of it. -/
theorem options_round_trip {ds : List Declaration} {e : Engine}
    (hs : OptionStore.ofDeclarations ds = .ok e.options) (hd : ∀ d ∈ ds, d.Canonical)
    (as : List Action) (has : ∀ d, .define d ∈ as → d.Canonical) :
    (∀ scope, ∀ d ∈ (e.acts as).options.partition scope,
      ((∃ t, d.format = .ok t) ∨ ∃ n, d.value = .int n ∧ Numeral.Long n) ∧
      ∀ t, d.format = .ok t →
        (e.acts as).options.change d .set t = ((e.acts as).options, .ok ())) ∧
    (∀ name, Alphabet.option.Accepts name →
      ((e.acts as).assign ("&g:".toList ++ name ++ " = &".toList ++ name)).1.options =
        (e.acts as).options) := by
  have htwins := OptionStore.twinned_ofDeclarations hs
  have ht := twinned_acts htwins as
  have hv := valued_acts htwins (OptionStore.valued_ofDeclarations hd hs) has
  refine ⟨?_, fun name => assign_itself hv ht⟩
  intro scope d hm
  have hd := OptionStore.lookup_own ht scope (OptionStore.lookup_of_mem hv scope hm)
  exact ⟨Definition.format_ok_or_long (hv.proper scope d hm), fun t => OptionStore.change_format hv hd⟩

theorem options_round_trip_sample :
    let e := (sample []).acts [.statement (.assign "&tabstop -= 100".toList)]
    let d : Definition := ⟨"tabstop".toList, .int, .int (-92), .local, []⟩
    OptionStore.ofDeclarations OptionStore.standardDeclarations = .ok (sample []).options ∧
      (∀ d ∈ OptionStore.standardDeclarations, d.Canonical) ∧
      d ∈ e.options.partition .local ∧ d.format = .ok "-92".toList ∧
      e.options.change d .set "-92".toList = (e.options, .ok ()) ∧
      Alphabet.option.Accepts "tabstop".toList ∧
      (e.assign "&g:tabstop = &tabstop".toList).1.options = e.options := by
  intro e d
  have hs : OptionStore.ofDeclarations OptionStore.standardDeclarations =
    .ok (sample []).options := rfl
  have hd := OptionStore.canonical_standard
  have hm : d ∈ e.options.partition .local := by decide +kernel
  have ha : Alphabet.option.Accepts "tabstop".toList :=
    ⟨rfl, List.all_eq_true.mp (by decide)⟩
  have hf : d.format = .ok "-92".toList := by decide +kernel
  have htext : "&g:".toList ++ "tabstop".toList ++ " = &".toList ++ "tabstop".toList =
    "&g:tabstop = &tabstop".toList := by decide
  obtain ⟨hset, hitself⟩ := options_round_trip hs hd [.statement (.assign "&tabstop -= 100".toList)]
    (by simp)
  have hsame := hitself _ ha
  rw [htext] at hsame
  exact ⟨hs, hd, hm, hf, (hset .local d hm).2 _ hf, ha, hsame⟩

end

end Engine

end LetShell
