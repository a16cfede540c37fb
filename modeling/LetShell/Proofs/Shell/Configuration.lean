import LetShell.Proofs.Shell.Switches

/-!
# Configured options and option words

The values of a configuration are set on the global definitions and no others,
while a line that sets an option sets every definition of it. An engine that is
configured with some values and one that is given the same values by lines are
the same but for the local definitions: those of the first are as they were
declared, those of the second have the values of their global twins.
-/

set_option autoImplicit false

namespace LetShell
open Shell

namespace Config

def lines (c : Config) : List Text := c.options.map fun p => wordLine p.1 .set p.2

/-- The store `w` has the global definitions of `u`, and those local ones of
`b` that stand in it are level with them. -/
structure Leveled (b u w : OptionStore) : Prop where
  globals : ∀ name, w.lookup .global name = u.lookup .global name
  level : ∀ name d, b.lookup .local name = some d → ∃ g, u.lookup .global name = some g ∧
    w.lookup .local name = some { d with value := g.value }
  absent : ∀ name, b.lookup .local name = none → w.lookup .local name = none

section
variable {b u w : OptionStore} {name t : Text} {d : Definition} {v : OptionValue}

theorem changed_definitions (h : w.Twinned) (hd : w.lookup .global name = some d)
    (hv : d.set t = .ok v) {x : Definition} (hx : x ∈ w.definitions name) :
    x.changed .set t = .ok v := by
  have hset : x.set t = d.set t := by
    rcases List.mem_append.mp hx with hx | hx
    · have hlocal := Option.mem_toList.mp hx
      obtain ⟨g, hg, htype, hvalues⟩ := h.twin name x hlocal
      cases Option.some.inj (hg.symm.trans hd)
      have hname := (OptionStore.lookup_name hd).trans (OptionStore.lookup_name hlocal).symm
      exact (Definition.set_congr hname htype hvalues t).symm
    · rw [hd, Option.toList_some, List.mem_singleton] at hx
      rw [hx]
  simp only [Definition.changed, hset, hv, Definition.lift]

theorem leveled_revalued {w' : OptionStore} (h : Leveled b u w) (hd : u.lookup .global name = some d)
    (hw : w.Revalued name (fun _ => v) w') : Leveled b (u.assign .global name v) w' := by
  have hassign := OptionStore.lookup_assign_found hd v .global
  constructor
  · intro n
    rw [hassign]
    by_cases hn : n = name
    · rw [if_pos ⟨rfl, hn⟩, hn]
      rw [hw.own .global, h.globals name, hd, Option.map_some]
    · rw [if_neg fun hat => hn hat.2, hw.others .global n hn]
      exact h.globals n
  · intro n x hx
    obtain ⟨g, hg, hlocal⟩ := h.level n x hx
    by_cases hn : n = name
    · subst hn
      exact ⟨{ d with value := v }, by rw [hassign, if_pos ⟨rfl, rfl⟩],
        by rw [hw.own .local, hlocal, Option.map_some]⟩
    · refine ⟨g, ?_, ?_⟩
      · rw [hassign, if_neg fun hat => hn hat.2]
        exact hg
      · rw [hw.others .local n hn]
        exact hlocal
  · intro n hx
    by_cases hn : n = name
    · rw [hn] at hx ⊢
      rw [hw.own .local, h.absent name hx, Option.map_none]
    · rw [hw.others .local n hn]
      exact h.absent n hx

theorem lookup_local_setOptions {s s' : OptionStore} {pairs : List (Text × Text)}
    (h : setOptions s pairs = .ok s') (n : Text) : s'.lookup .local n = s.lookup .local n := by
  induction pairs generalizing s with
  | nil =>
    cases h
    rfl
  | cons p pairs ih =>
    obtain ⟨d, v, -, -, hrest⟩ := setOptions_cons_ok_iff.mp h
    rw [ih hrest, OptionStore.lookup_assign]
    simp

/-- The line of a value that the configuration accepts changes the options as
the configuration does, and levels them. -/
theorem execute_setting {s : Shell} (ht : s.engine.options.Twinned)
    (hl : Leveled b u s.engine.options) (hd : u.lookup .global name = some d)
    (hv : d.set t = .ok v) (ha : Alphabet.option.Accepts name)
    (hsolid : ∀ c ∈ t, Text.isBlank c = false) :
    ∃ options history, s.execute (wordLine name .set t) =
        (⟨{ s.engine with options := options }, history⟩, .ok []) ∧
      options.Twinned ∧ Leveled b (u.assign .global name v) options := by
  have hg : s.engine.options.lookup .global name = some d := (hl.globals name).trans hd
  obtain ⟨hanswer, hrevalued⟩ := OptionStore.revalued_changeDefinitions ht
    fun x hx => changed_definitions ht hg hv hx
  have hword := OptionStore.applyWord_change (change?_mark ha .set t) hg
  rw [hanswer] at hword
  have hblank : ∀ c ∈ name ++ (Change.set.mark ++ t), Text.isBlank c = false := by
    simp only [List.mem_append]
    rintro c (hc | hc | hc)
    · exact not_blank_of_accepts ha c hc
    · exact Text.not_blank_of_all (by decide) c hc
    · exact hsolid c hc
  have hne : name ++ (Change.set.mark ++ t) ≠ [] := by simp [Change.mark]
  exact ⟨_, _, execute_silent hne hblank hword,
    OptionStore.twinned_steps (OptionStore.steps_changeDefinitions ht .set _ name) ht,
    leveled_revalued hl hd hrevalued⟩

theorem runLines_settings {pairs : List (Text × Text)} {u u' : OptionStore} {s : Shell}
    (ht : s.engine.options.Twinned) (hl : Leveled b u s.engine.options)
    (ha : ∀ name d, u.lookup .global name = some d → Alphabet.option.Accepts name)
    (hs : setOptions u pairs = .ok u') (hsolid : ∀ p ∈ pairs, ∀ c ∈ p.2, Text.isBlank c = false) :
    ∃ s', s.runLines (pairs.map fun p => wordLine p.1 .set p.2) =
        (s', .ok (pairs.map fun _ => [])) ∧
      s'.engine = { s.engine with options := s'.engine.options } ∧
      Leveled b u' s'.engine.options := by
  induction pairs generalizing u s with
  | nil =>
    cases hs
    exact ⟨s, rfl, rfl, hl⟩
  | cons p pairs ih =>
    obtain ⟨name, t⟩ := p
    obtain ⟨hfirst, hothers⟩ := List.forall_mem_cons.mp hsolid
    obtain ⟨d, v, hd, hv, hrest⟩ := setOptions_cons_ok_iff.mp hs
    obtain ⟨options, history, hrun, htwinned, hleveled⟩ :=
      execute_setting ht hl hd hv (ha name d hd) hfirst
    have haccepts : ∀ n x, (u.assign .global name v).lookup .global n = some x →
        Alphabet.option.Accepts n := by
      intro n x hx
      rw [OptionStore.lookup_assign, Option.map_eq_some_iff] at hx
      obtain ⟨y, hy, -⟩ := hx
      exact ha n y hy
    obtain ⟨s', hruns, hframe, hend⟩ := ih
      (s := ⟨{ s.engine with options := options }, history⟩) htwinned hleveled haccepts hrest hothers
    refine ⟨s', ?_, hframe, hend⟩
    simp only [List.map_cons, runLines, hrun]
    rw [hruns]
    rfl

theorem accepts_standard {name : Text} {d : Definition}
    (h : OptionStore.standard.lookup .global name = some d) : Alphabet.option.Accepts name := by
  have hall : ∀ d ∈ OptionStore.standard.globals, Alphabet.option.Accepts d.name := by
    decide +kernel
  rw [← OptionStore.lookup_name h]
  exact hall d (List.mem_of_find?_eq_some h)

theorem leveled_standard : Leveled .standard .standard .standard := by
  have hvalues : ∀ d ∈ OptionStore.standard.locals,
      (OptionStore.standard.lookup .global d.name).map (·.value) = some d.value := by
    decide +kernel
  refine ⟨fun _ => rfl, ?_, fun _ h => h⟩
  intro name d hd
  have hvalue := hvalues d (List.mem_of_find?_eq_some hd)
  rw [OptionStore.lookup_name hd, Option.map_eq_some_iff] at hvalue
  obtain ⟨g, hg, hsame⟩ := hvalue
  exact ⟨g, hg, by rw [hsame]; exact hd⟩

theorem leveled_local_iff (h : Leveled b u w) {g : Definition} (hd : b.lookup .local name = some d)
    (hg : u.lookup .global name = some g) :
    w.lookup .local name = b.lookup .local name ↔ d.value = g.value := by
  obtain ⟨g', hg', hlocal⟩ := h.level name d hd
  cases Option.some.inj (hg.symm.trans hg')
  rw [hlocal, hd, Option.some.injEq]
  constructor
  · intro heq
    exact (congrArg Definition.value heq).symm
  · intro hv
    rw [← hv]

end

/-- The engine of a configuration, and the engine of no values for options
after one line for each of the values, which hold no blanks. The lines are all
silent. The engines have the same global definitions and differ in nothing but
local ones. Those of the first are as they were declared; those of the second
have the values of the global ones. -/
theorem configured_globally {c : Config} {table : Table} {refused : List Text} {e : Engine}
    (h : c.engine table refused = .ok e)
    (hsolid : ∀ p ∈ c.options, ∀ x ∈ p.2, Text.isBlank x = false) :
    ∃ e₀ s, { c with options := [] }.engine table refused = .ok e₀ ∧
      (ofEngine e₀).runLines c.lines = (s, .ok (c.options.map fun _ => [])) ∧
      s.engine = { e with options := s.engine.options } ∧
      (∀ name, e.options.lookup .local name = OptionStore.standard.lookup .local name) ∧
      Leveled e.options e.options s.engine.options ∧
      ∀ name d g, e.options.lookup .local name = some d → e.options.lookup .global name = some g →
        (s.engine.options.lookup .local name = e.options.lookup .local name ↔ d.value = g.value) := by
  unfold engine at h
  split at h
  · cases h
  · rename_i hlimit
    split at h
    · cases h
    · rename_i options hoptions
      cases h
      have htwinned := OptionStore.twinned_ofDeclarations OptionStore.standard_eq_ofDeclarations
      obtain ⟨s, hruns, hframe, hleveled⟩ := runLines_settings
        (s := ofEngine (.ofParts table .standard c.caseSensitive c.nameMax refused))
        htwinned leveled_standard (fun _ _ => accepts_standard) hoptions hsolid
      have hkept := lookup_local_setOptions hoptions
      have hown : Leveled options options s.engine.options := by
        refine ⟨hleveled.globals, ?_, ?_⟩
        · intro name d hd
          exact hleveled.level name d ((hkept name).symm.trans hd)
        · intro name hd
          exact hleveled.absent name ((hkept name).symm.trans hd)
      refine ⟨_, s, ?_, hruns, hframe, hkept, hown, fun _ _ _ => leveled_local_iff hown⟩
      unfold engine
      rw [if_neg hlimit]
      rfl

theorem configured_globally_sample :
    let c : Config :=
      { options := [("tabstop".toList, "4".toList), ("hlsearch".toList, "off".toList)] }
    ∃ e, c.engine .empty [] = .ok e ∧ (∀ p ∈ c.options, ∀ x ∈ p.2, Text.isBlank x = false) ∧
      ∃ e₀ s, { c with options := [] }.engine .empty [] = .ok e₀ ∧
        (ofEngine e₀).runLines c.lines = (s, .ok (c.options.map fun _ => [])) ∧
        Leveled e.options e.options s.engine.options := by
  intro c
  obtain ⟨e, he⟩ : ∃ e, c.engine .empty [] = .ok e := ⟨_, rfl⟩
  have hsolid : ∀ p ∈ c.options, ∀ x ∈ p.2, Text.isBlank x = false := by
    have hall : ∀ p ∈ c.options, p.2.all Text.isSolid = true := by decide
    exact fun p hp => Text.not_blank_of_all (hall p hp)
  obtain ⟨e₀, s, he₀, hruns, -, -, hleveled, -⟩ := configured_globally he hsolid
  exact ⟨e, he, hsolid, e₀, s, he₀, hruns, hleveled⟩

/-- A value for an option with a local definition is not seen in the local
scope, where the line for it is. -/
theorem tabstop_not_configured_locally :
    let c : Config := { options := [("tabstop".toList, "4".toList)] }
    ∃ e e₀ s, c.engine .empty [] = .ok e ∧
      { c with options := [] }.engine .empty [] = .ok e₀ ∧
      (ofEngine e₀).runLines c.lines = (s, .ok [[]]) ∧
      (e.options.lookup .global "tabstop".toList).map (·.value) = some (.int 4) ∧
      (e.options.lookup .local "tabstop".toList).map (·.value) = some (.int 8) ∧
      (s.engine.options.lookup .local "tabstop".toList).map (·.value) = some (.int 4) := by
  refine ⟨_, _, _, rfl, rfl, rfl, ?_, ?_, ?_⟩ <;> decide +kernel

end Config

end LetShell
