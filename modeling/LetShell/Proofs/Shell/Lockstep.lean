import LetShell.Proofs.Engine.Agreement
import LetShell.Proofs.Options.Lockstep
import LetShell.Proofs.Shell.Options

/-!
# Sessions that name no scope

Only an assignment that names a scope, or a change of one definition by itself,
can part a local definition from its global twin. Whatever else is done to an
engine, rejected or not, every option that is local too has one value in both
scopes, and its two definitions differ in nothing else either.
-/

set_option autoImplicit false

namespace LetShell

/-- The text of an assignment that does not begin with the sign of one scope. -/
def Unscoped (t : Text) : Prop :=
  ¬Kind.globalOption.sigil <+: t.trimStart ∧ ¬Kind.localOption.sigil <+: t.trimStart

def Action.Unscoped : Action → Prop
  | .statement (.assign t) => LetShell.Unscoped t
  | .change _ _ _ _ => False
  | _ => True

instance (t : Text) : Decidable (Unscoped t) := inferInstanceAs (Decidable (_ ∧ _))

instance : (a : Action) → Decidable a.Unscoped
  | .statement (.assign t) => inferInstanceAs (Decidable (Unscoped t))
  | .change _ _ _ _ => inferInstanceAs (Decidable False)
  | .statement (.remove _) | .start | .bootstrap _ | .teardown | .obtain _ | .discard _
  | .refuse _ | .define _ | .words _ => inferInstanceAs (Decidable True)

namespace Engine

section
variable {e : Engine}

theorem unscoped_plan {t : Text} (h : Unscoped t) {a : Assignment} (ha : e.plan t = .ok a) :
    a.target.kind = .environment ∨ a.target.kind = .anyOption := by
  obtain ⟨rest, x, v, hread, -⟩ := plan_stages.mp ha
  obtain ⟨ht, -⟩ := Target.read_sound hread
  rw [Target.spelling, List.append_assoc] at ht
  have hsigil : a.target.kind.sigil <+: t.trimStart := ⟨_, ht.symm⟩
  cases hk : a.target.kind with
  | environment => exact .inl rfl
  | anyOption => exact .inr rfl
  | globalOption => exact absurd (hk ▸ hsigil) h.1
  | localOption => exact absurd (hk ▸ hsigil) h.2

theorem options_execute_environment (name : Text) (op : Operator) (v : Text) :
    (e.execute ⟨.environment, name⟩ op v).1.options = e.options := by
  simp only [execute]
  split
  · exact options_appendVariable e name v
  · exact options_setVariable e name v

theorem options_execute_unknown (ht : e.options.Twinned) {name : Text}
    (hg : e.options.lookup .global name = none) (op : Operator) (v : Text) :
    (e.execute ⟨.anyOption, name⟩ op v).1.options = e.options := by
  have hl : e.options.lookup .local name = none := by
    cases hl : e.options.lookup .local name with
    | none => rfl
    | some d =>
      obtain ⟨g, hg', -⟩ := ht.twin name d hl
      rw [hg] at hg'
      cases hg'
  simp only [execute, applyOption, hl, hg, Bool.false_eq_true, if_false, if_true]

theorem level_assign (ht : e.options.Twinned) (h : e.options.Level) {t : Text} (hu : Unscoped t) :
    (e.assign t).1.options.Level := by
  unfold assign
  split
  · exact h
  · rename_i a ha
    obtain ⟨⟨kind, name⟩, op, v⟩ := a
    rcases unscoped_plan hu ha with hk | hk <;> cases hk
    · rw [options_execute_environment]
      exact h
    · cases hg : e.options.lookup .global name with
      | none =>
        rw [options_execute_unknown ht hg]
        exact h
      | some g =>
        rw [(execute_anyOption ht hg op v).1]
        exact OptionStore.level_changeDefinitions ht h op.change (fun _ _ => rfl) name

theorem level_act (ht : e.options.Twinned) (h : e.options.Level) {a : Action} (ha : a.Unscoped) :
    (e.act a).options.Level := by
  cases a with
  | statement s =>
    cases s with
    | assign t => exact level_assign ht h ha
    | remove t =>
      rw [act, perform, options_remove]
      exact h
  | start =>
    rw [act, start, options_bootstrap]
    exact h
  | bootstrap entries =>
    rw [act, options_bootstrap]
    exact h
  | teardown =>
    rw [act, options_teardown]
    exact h
  | obtain name =>
    rw [act, options_obtain]
    exact h
  | discard serial =>
    rw [act, options_discard]
    exact h
  | refuse names => exact h
  | define d =>
    unfold act
    simp only
    split
    · rename_i hd
      exact OptionStore.level_define h hd
    · exact h
  | change scope name how t => exact ha.elim
  | words ws => exact OptionStore.level_applyWords ht h ws

theorem level_acts (ht : e.options.Twinned) (h : e.options.Level) {as : List Action}
    (ha : ∀ a ∈ as, a.Unscoped) : (e.acts as).options.Level := by
  induction as generalizing e with
  | nil => exact h
  | cons a as ih =>
    obtain ⟨hone, hrest⟩ := List.forall_mem_cons.mp ha
    exact ih (twinned_act ht a) (level_act ht h hone) hrest

end

end Engine

namespace Shell

/-- From a store that was built by declarations, after any statements, words and
lines of a shell of which no assignment begins with a scope, accepted or not:
every local definition has a global one of the same name, type, allowed values
and value. -/
theorem definitions_stay_level {ds : List Declaration} {e : Engine}
    (hs : OptionStore.ofDeclarations ds = .ok e.options) (as : List Action)
    (history lines : List Text) (hu : ∀ a ∈ as ++ lines.flatMap actions, a.Unscoped) :
    let options := ((Shell.mk (e.acts as) history).after lines).engine.options
    ∀ name d, options.lookup .local name = some d →
      ∃ g, options.lookup .global name = some g ∧ g.value = d.value ∧
        g = { d with scope := .global } := by
  intro options name d hd
  have hlevel : options.Level := by
    simp only [options, session_engine]
    exact Engine.level_acts (OptionStore.twinned_ofDeclarations hs)
      (OptionStore.level_ofDeclarations hs) hu
  exact ⟨_, hlevel name d hd, rfl, rfl⟩

theorem definitions_stay_level_sample :
    let e := Engine.sample []
    let as := [Action.words ["tabstop+=4".toList, "sortorder=sideways".toList],
      .statement (.assign " &tabstop -= '&g:'".toList), .statement (.assign "&title .= 7".toList)]
    let lines := ["let &tabstop -= 10".toList, "set title-=7 invhlsearch".toList,
      "let &missing = 1".toList]
    let options := ((Shell.mk (e.acts as) []).after lines).engine.options
    OptionStore.ofDeclarations OptionStore.standardDeclarations = .ok e.options ∧
      (∀ a ∈ as ++ lines.flatMap actions, a.Unscoped) ∧
      options.lookup .local "tabstop".toList =
        some ⟨"tabstop".toList, .int, .int 2, .local, []⟩ ∧
      ∃ g, options.lookup .global "tabstop".toList = some g ∧ g.value = .int 2 := by
  intro e as lines options
  have hs : OptionStore.ofDeclarations OptionStore.standardDeclarations = .ok e.options := rfl
  have hu : ∀ a ∈ as ++ lines.flatMap actions, a.Unscoped := by decide +kernel
  have hd : options.lookup .local "tabstop".toList =
      some ⟨"tabstop".toList, .int, .int 2, .local, []⟩ := by decide +kernel
  obtain ⟨g, hg, hvalue, -⟩ := definitions_stay_level hs as [] lines hu _ _ hd
  exact ⟨hs, hu, hd, g, hg, hvalue⟩

end Shell

end LetShell
