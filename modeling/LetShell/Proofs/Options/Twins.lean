import Mathlib.Logic.Relation
import LetShell.Options.Word

/-!
# Twins

In a store that was built by defining options, every local definition has a
global one of the same type and with the same allowed values. Nothing but
values changes afterwards: every change, by itself or through the words of the
shell, replaces the value of one definition as it then stands in the store.
-/

set_option autoImplicit false

namespace LetShell.OptionStore

structure Twinned (s : OptionStore) : Prop where
  scope : ∀ scope name d, s.lookup scope name = some d → d.scope = scope
  twin : ∀ name d, s.lookup .local name = some d →
    ∃ g, s.lookup .global name = some g ∧ g.type = d.type ∧ g.values = d.values

/-- One change to a definition of the store, accepted or not. -/
inductive Step (s : OptionStore) : OptionStore → Prop where
  | change (d : Definition) (hd : s.lookup d.scope d.name = some d) (how : Change) (t : Text) :
      Step s (s.change d how t).1

abbrev Steps : OptionStore → OptionStore → Prop := Relation.ReflTransGen Step

theorem lookup_own {s : OptionStore} (h : s.Twinned) (scope : Scope) {name : Text}
    {d : Definition} (hd : s.lookup scope name = some d) : s.lookup d.scope d.name = some d := by
  rw [h.scope scope name d hd, lookup_name hd]
  exact hd

/-- Every definition of the name has the value that `f` gives it, and the other
options are as they were. -/
structure Revalued (s : OptionStore) (name : Text) (f : Definition → OptionValue)
    (s' : OptionStore) : Prop where
  own : ∀ scope, s'.lookup scope name =
    (s.lookup scope name).map fun d => { d with value := f d }
  others : ∀ scope n, n ≠ name → s'.lookup scope n = s.lookup scope n

theorem twinned_empty : empty.Twinned := by
  constructor
  · intro scope name d h
    cases scope <;> cases h
  · intro name d h
    cases h

section
variable {s : OptionStore}

theorem twinned_assign (h : s.Twinned) (scope : Scope) (name : Text) (v : OptionValue) :
    (s.assign scope name v).Twinned := by
  have hkeep : ∀ (other : Scope) (d : Definition),
      (if other = scope ∧ d.name = name then { d with value := v } else d).scope = d.scope ∧
        (if other = scope ∧ d.name = name then { d with value := v } else d).type = d.type ∧
        (if other = scope ∧ d.name = name then { d with value := v } else d).values = d.values := by
    intro other d
    split <;> exact ⟨rfl, rfl, rfl⟩
  constructor
  · intro other sought d hd
    rw [lookup_assign, Option.map_eq_some_iff] at hd
    obtain ⟨d', hd', rfl⟩ := hd
    rw [(hkeep other d').1]
    exact h.scope other sought d' hd'
  · intro sought d hd
    rw [lookup_assign, Option.map_eq_some_iff] at hd
    obtain ⟨d', hd', rfl⟩ := hd
    obtain ⟨g, hg, htype, hvalues⟩ := h.twin sought d' hd'
    refine ⟨_, by rw [lookup_assign, hg]; rfl, ?_, ?_⟩
    · rw [(hkeep .global g).2.1, (hkeep .local d').2.1]
      exact htype
    · rw [(hkeep .global g).2.2, (hkeep .local d').2.2]
      exact hvalues

theorem twinned_change (h : s.Twinned) (d : Definition) (how : Change) (t : Text) :
    (s.change d how t).1.Twinned := by
  unfold change
  split
  · exact twinned_assign h _ _ _
  · exact h

theorem twinned_steps {s' : OptionStore} (hs : Steps s s') (h : s.Twinned) : s'.Twinned := by
  induction hs with
  | refl => exact h
  | tail _ hstep ih =>
    cases hstep with
    | change d hd how t => exact twinned_change ih d how t

theorem lookup_change_other (s : OptionStore) {d : Definition} {scope : Scope}
    (h : scope ≠ d.scope) (how : Change) (t : Text) (name : Text) :
    (s.change d how t).1.lookup scope name = s.lookup scope name := by
  unfold change
  split
  · rw [lookup_assign]
    simp [h]
  · rfl

theorem find?_forget {name sought : Text} (h : sought ≠ name) (ds : List Definition) :
    (ds.filter (·.name ≠ name)).find? (·.name = sought) = ds.find? (·.name = sought) := by
  rw [List.find?_filter]
  congr 1
  funext d
  by_cases hd : d.name = sought
  · simp [hd, h]
  · simp [hd]

theorem partition_insert (s : OptionStore) (d : Definition) (scope : Scope) :
    (s.insert d).partition scope =
      if scope = d.scope then (s.partition d.scope).filter (·.name ≠ d.name) ++ [d]
      else s.partition scope := by
  split
  · rename_i hs
    rw [hs, insert, forget, partition_update_same, partition_update_same]
  · rename_i hs
    rw [insert, forget, partition_update_other _ hs, partition_update_other _ hs]

theorem lookup_insert (s : OptionStore) (d : Definition) (scope : Scope) (name : Text) :
    (s.insert d).lookup scope name =
      if scope = d.scope ∧ name = d.name then some d else s.lookup scope name := by
  rw [lookup, partition_insert]
  by_cases hs : scope = d.scope
  · subst hs
    rw [if_pos rfl, List.find?_append]
    by_cases hn : name = d.name
    · have hgone : ((s.partition d.scope).filter (·.name ≠ d.name)).find? (·.name = name) = none := by
        rw [List.find?_eq_none, hn]
        intro x hx
        simpa using (List.mem_filter.mp hx).2
      rw [hgone, if_pos ⟨rfl, hn⟩]
      simp [hn]
    · rw [find?_forget hn, if_neg fun he => hn he.2]
      simp [lookup, Ne.symm hn]
  · rw [if_neg hs, if_neg fun he => hs he.1, lookup]

theorem twinned_define {s' : OptionStore} (h : s.Twinned) {d : Declaration}
    (hd : s.define d = .ok s') : s'.Twinned := by
  unfold define at hd
  by_cases hnew : (s.lookup .global d.name).isSome = true
  · rw [if_pos hnew] at hd
    cases hd
  · rw [if_neg hnew] at hd
    cases hd
    have hglobal : ∀ (u : OptionStore) scope name, (u.insert (d.definition .global)).lookup scope name =
        if scope = .global ∧ name = d.name then some (d.definition .global)
        else u.lookup scope name := fun u => lookup_insert u _
    have hlocal : ∀ (u : OptionStore) scope name, (u.insert (d.definition .local)).lookup scope name =
        if scope = .local ∧ name = d.name then some (d.definition .local)
        else u.lookup scope name := fun u => lookup_insert u _
    cases hl : d.isLocal with
    | false =>
      simp only [Bool.false_eq_true, if_false]
      constructor
      · intro scope name g hg
        rw [hglobal] at hg
        split at hg
        · rename_i hs
          cases hg
          exact hs.1.symm
        · exact h.scope scope name g hg
      · intro name g hg
        rw [hglobal, if_neg (by simp)] at hg
        obtain ⟨g', hg', hsame⟩ := h.twin name g hg
        have hne : name ≠ d.name := by
          rintro rfl
          exact hnew (by rw [hg']; rfl)
        exact ⟨g', by rw [hglobal, if_neg fun he => hne he.2]; exact hg', hsame⟩
    | true =>
      simp only [if_true]
      constructor
      · intro scope name g hg
        rw [hlocal, hglobal] at hg
        split at hg
        · rename_i hs
          cases hg
          exact hs.1.symm
        · split at hg
          · rename_i hs
            cases hg
            exact hs.1.symm
          · exact h.scope scope name g hg
      · intro name g hg
        by_cases hn : name = d.name
        · rw [hlocal, if_pos ⟨rfl, hn⟩] at hg
          cases hg
          exact ⟨d.definition .global, by rw [hlocal, hglobal]; simp [hn], rfl, rfl⟩
        · rw [hlocal, if_neg fun he => hn he.2, hglobal, if_neg fun he => hn he.2] at hg
          obtain ⟨g', hg', hsame⟩ := h.twin name g hg
          refine ⟨g', ?_, hsame⟩
          rw [hlocal, if_neg fun he => hn he.2, hglobal, if_neg fun he => hn he.2]
          exact hg'

/-- What the empty store has and every declaration keeps. -/
theorem ofDeclarations_induction {P : OptionStore → Prop} {ds : List Declaration} (hempty : P empty)
    (hdefine : ∀ u u' d, d ∈ ds → P u → u.define d = .ok u' → P u')
    (h : ofDeclarations ds = .ok s) : P s := by
  have hrun : ∀ (ds : List Declaration) (u : OptionStore),
      (∀ u u' d, d ∈ ds → P u → u.define d = .ok u' → P u') → P u →
      ds.foldlM define u = .ok s → P s := by
    intro ds
    induction ds with
    | nil =>
      intro u _ hu hs
      cases hs
      exact hu
    | cons d ds ih =>
      intro u hkeep hu hs
      rw [List.foldlM_cons] at hs
      cases hd : u.define d with
      | error x =>
        rw [hd] at hs
        cases hs
      | ok u' =>
        rw [hd] at hs
        have hu' := hkeep u u' d (List.mem_cons_self ..) hu hd
        exact ih u' (fun v v' x hx => hkeep v v' x (List.mem_cons_of_mem d hx)) hu' hs
  exact hrun ds empty hdefine hempty h

theorem twinned_ofDeclarations {ds : List Declaration} (h : ofDeclarations ds = .ok s) :
    s.Twinned :=
  ofDeclarations_induction twinned_empty (fun _ _ _ _ hu hd => twinned_define hu hd) h

theorem steps_changeAll (how : Change) (text : Definition → Text) {ds : List Definition}
    (hcurrent : ∀ d ∈ ds, s.lookup d.scope d.name = some d)
    (hscopes : ds.Pairwise fun a b => a.scope ≠ b.scope) :
    Steps s (s.changeAll how text ds).1 := by
  induction ds generalizing s with
  | nil => exact .refl
  | cons d ds ih =>
    have hstep := Step.change d (hcurrent d (List.mem_cons_self ..)) how (text d)
    obtain ⟨hd, hds⟩ := List.pairwise_cons.mp hscopes
    have hrest : ∀ d' ∈ ds, (s.change d how (text d)).1.lookup d'.scope d'.name = some d' := by
      intro d' hd'
      rw [lookup_change_other s (hd d' hd').symm]
      exact hcurrent d' (List.mem_cons_of_mem d hd')
    have htail := ih hrest hds
    cases hc : s.change d how (text d) with
    | mk s' answer =>
      rw [hc] at hstep htail
      cases answer with
      | ok _ => simpa only [changeAll, hc] using htail.head hstep
      | error e => simpa only [changeAll, hc] using Relation.ReflTransGen.single hstep

theorem definitions_current (h : s.Twinned) {name : Text} {d : Definition}
    (hd : d ∈ s.definitions name) : s.lookup d.scope d.name = some d := by
  rcases List.mem_append.mp hd with hd | hd
  · exact lookup_own h .local (Option.mem_toList.mp hd)
  · exact lookup_own h .global (Option.mem_toList.mp hd)

theorem definitions_scopes (h : s.Twinned) (name : Text) :
    (s.definitions name).Pairwise fun a b => a.scope ≠ b.scope := by
  have hone : ∀ o : Option Definition, o.toList.Pairwise fun a b => a.scope ≠ b.scope := by
    intro o
    cases o with
    | none => exact .nil
    | some d => exact List.pairwise_singleton _ d
  apply List.pairwise_append.mpr ⟨hone _, hone _, _⟩
  intro a ha b hb
  rw [h.scope .local name a (Option.mem_toList.mp ha),
    h.scope .global name b (Option.mem_toList.mp hb)]
  decide

theorem changeAll_accepted {how : Change} {text : Definition → Text} {f : Definition → OptionValue}
    {ds : List Definition} (h : ∀ d ∈ ds, d.changed how (text d) = .ok (f d)) :
    s.changeAll how text ds =
      (ds.foldl (fun s d => s.assign d.scope d.name (f d)) s, .ok ()) := by
  induction ds generalizing s with
  | nil => rfl
  | cons d ds ih =>
    obtain ⟨hd, hds⟩ := List.forall_mem_cons.mp h
    simp only [changeAll, change, hd, List.foldl_cons]
    exact ih hds

theorem lookup_assign_found {scope : Scope} {name : Text} {d : Definition}
    (hd : s.lookup scope name = some d) (v : OptionValue) (other : Scope) (n : Text) :
    (s.assign scope name v).lookup other n =
      if other = scope ∧ n = name then some { d with value := v } else s.lookup other n := by
  rw [lookup_assign]
  split
  · rename_i hat
    obtain ⟨rfl, rfl⟩ := hat
    rw [hd, Option.map_some, if_pos ⟨rfl, lookup_name hd⟩]
  · rename_i hout
    cases hl : s.lookup other n with
    | none => rfl
    | some x =>
      rw [Option.map_some, if_neg fun hat => hout ⟨hat.1, (lookup_name hl).symm.trans hat.2⟩]

theorem lookup_assigns_other {f : Definition → OptionValue} {ds : List Definition} {scope : Scope}
    {n : Text} (h : ∀ d ∈ ds, scope = d.scope → n ≠ d.name) :
    (ds.foldl (fun s d => s.assign d.scope d.name (f d)) s).lookup scope n = s.lookup scope n := by
  induction ds generalizing s with
  | nil => rfl
  | cons d ds ih =>
    obtain ⟨hd, hds⟩ := List.forall_mem_cons.mp h
    rw [List.foldl_cons, ih hds, lookup_assign]
    cases hl : s.lookup scope n with
    | none => rfl
    | some x => rw [Option.map_some, if_neg fun hat => hd hat.1 ((lookup_name hl).symm.trans hat.2)]

theorem lookup_assigns_own {f : Definition → OptionValue} {ds : List Definition}
    (hcurrent : ∀ d ∈ ds, s.lookup d.scope d.name = some d)
    (hscopes : ds.Pairwise fun a b => a.scope ≠ b.scope) {d : Definition} (hd : d ∈ ds) :
    (ds.foldl (fun s d => s.assign d.scope d.name (f d)) s).lookup d.scope d.name =
      some { d with value := f d } := by
  induction ds generalizing s with
  | nil => cases hd
  | cons x ds ih =>
    obtain ⟨hx, hds⟩ := List.pairwise_cons.mp hscopes
    have hassign := lookup_assign_found (hcurrent x (List.mem_cons_self ..)) (f x)
    rcases List.mem_cons.mp hd with rfl | hd
    · rw [List.foldl_cons, lookup_assigns_other fun y hy hat => absurd hat (hx y hy), hassign,
        if_pos ⟨rfl, rfl⟩]
    · apply ih _ hds hd
      intro y hy
      rw [hassign, if_neg fun hat => hx y hy hat.1.symm]
      exact hcurrent y (List.mem_cons_of_mem x hy)

theorem definitions_named {name : Text} {d : Definition} (hd : d ∈ s.definitions name) :
    d.name = name := by
  rcases List.mem_append.mp hd with hd | hd <;> exact lookup_name (Option.mem_toList.mp hd)

theorem mem_definitions {scope : Scope} {name : Text} {d : Definition}
    (hd : s.lookup scope name = some d) : d ∈ s.definitions name := by
  cases scope with
  | global => exact List.mem_append_right _ (Option.mem_toList.mpr hd)
  | «local» => exact List.mem_append_left _ (Option.mem_toList.mpr hd)

theorem revalued_changeDefinitions (h : s.Twinned) {how : Change} {text : Definition → Text}
    {f : Definition → OptionValue} {name : Text}
    (hok : ∀ d ∈ s.definitions name, d.changed how (text d) = .ok (f d)) :
    (s.changeAll how text (s.definitions name)).2 = .ok () ∧
      Revalued s name f (s.changeAll how text (s.definitions name)).1 := by
  have hcurrent : ∀ d ∈ s.definitions name, s.lookup d.scope d.name = some d :=
    fun _ => definitions_current h
  rw [changeAll_accepted hok]
  refine ⟨rfl, ?_, ?_⟩
  · intro scope
    cases hl : s.lookup scope name with
    | none =>
      rw [Option.map_none, ← hl]
      apply lookup_assigns_other
      rintro d hd rfl rfl
      rw [hcurrent d hd] at hl
      cases hl
    | some d =>
      obtain rfl : d.scope = scope := h.scope scope name d hl
      obtain rfl : d.name = name := lookup_name hl
      exact lookup_assigns_own hcurrent (definitions_scopes h d.name) (mem_definitions hl)
  · intro scope n hn
    exact lookup_assigns_other fun d hd _ hat => hn (hat.trans (definitions_named hd))

theorem steps_changeDefinitions (h : s.Twinned) (how : Change) (text : Definition → Text)
    (name : Text) : Steps s (s.changeAll how text (s.definitions name)).1 :=
  steps_changeAll how text (fun _ => definitions_current h) (definitions_scopes h name)

theorem steps_switch (h : s.Twinned) (word : Text) : Steps s (s.switch word).1 := by
  unfold switch
  split
  · exact .refl
  · exact steps_changeDefinitions h .set _ _

theorem steps_applyWord (h : s.Twinned) (word : Text) : Steps s (s.applyWord word).1 := by
  unfold applyWord
  split
  · split
    · exact .refl
    · exact steps_changeDefinitions h _ _ _
  · split
    · split <;> exact .refl
    · split
      · split
        · exact steps_switch h word
        · exact .refl
      · exact steps_switch h word

theorem steps_applyWords (h : s.Twinned) (words : List Text) :
    Steps s (s.applyWords words).1 := by
  induction words generalizing s with
  | nil => exact .refl
  | cons word words ih =>
    have hword := steps_applyWord h word
    have hrest := ih (twinned_steps hword h)
    unfold applyWords
    split <;> rename_i ha <;> rw [ha] at hword hrest
    · exact hword
    · exact hword.trans hrest
    · exact hword.trans hrest
    · exact hword.trans hrest

end

end LetShell.OptionStore
