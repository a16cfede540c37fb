import LetShell.Proofs.Options.Twins

/-!
# Twins in lockstep

A change that is made to every definition of a name comes out the same for
twins of one value: its result depends on the type, the allowed values, the
present value and the text, and on nothing else. So the local definition is
rejected only if the global one would be, before either has changed, and twins
that were level stay so. Option words make no other changes.
-/

set_option autoImplicit false

namespace LetShell

namespace Definition

theorem changed_scope (d : Definition) (scope : Scope) (how : Change) (t : Text) :
    ({ d with scope := scope } : Definition).changed how t = d.changed how t := by
  cases how <;> rfl

end Definition

namespace OptionStore

/-- A local definition differs from the global one in its scope only. -/
def Level (s : OptionStore) : Prop :=
  ∀ name d, s.lookup .local name = some d →
    s.lookup .global name = some { d with scope := .global }

section
variable {s s' : OptionStore} {name : Text}

theorem level_empty : empty.Level := by
  intro name d h
  cases h

theorem level_define (h : s.Level) {d : Declaration} (hd : s.define d = .ok s') : s'.Level := by
  unfold define at hd
  split at hd
  · cases hd
  · rename_i hnew
    cases hd
    have hold : ∀ name x, s.lookup .local name = some x → name ≠ d.name := by
      rintro name x hx rfl
      rw [h d.name x hx] at hnew
      exact hnew rfl
    intro name x hx
    cases hlocal : d.isLocal with
    | false =>
      simp only [hlocal, Bool.false_eq_true, if_false] at hx ⊢
      rw [lookup_insert, if_neg (by rintro ⟨⟨⟩, -⟩)] at hx
      rw [lookup_insert, if_neg fun he => hold name x hx he.2]
      exact h name x hx
    | true =>
      simp only [hlocal, if_true] at hx ⊢
      rw [lookup_insert] at hx
      rw [lookup_insert, if_neg (by rintro ⟨⟨⟩, -⟩), lookup_insert]
      split at hx
      · rename_i hat
        cases hx
        exact if_pos ⟨rfl, hat.2⟩
      · rw [lookup_insert, if_neg (by rintro ⟨⟨⟩, -⟩)] at hx
        rw [if_neg fun he => hold name x hx he.2]
        exact h name x hx

theorem level_ofDeclarations {ds : List Declaration} (h : ofDeclarations ds = .ok s) : s.Level :=
  ofDeclarations_induction level_empty (fun _ _ _ _ hu hd => level_define hu hd) h

theorem changeDefinitions_together (ht : s.Twinned) {how : Change} {text : Definition → Text}
    (hsame : ∀ d ∈ s.definitions name, ∀ g ∈ s.definitions name,
      g.changed how (text g) = d.changed how (text d)) :
    (∃ v, s.Revalued name (fun _ => v) (s.changeAll how text (s.definitions name)).1) ∨
      (s.changeAll how text (s.definitions name)).1 = s := by
  cases hds : s.definitions name with
  | nil => exact .inr rfl
  | cons d ds =>
    have hd : d ∈ s.definitions name := by rw [hds]; exact List.mem_cons_self ..
    cases hc : d.changed how (text d) with
    | ok v =>
      have hall : ∀ g ∈ s.definitions name, g.changed how (text g) = .ok v :=
        fun g hg => (hsame d hd g hg).trans hc
      rw [← hds]
      exact .inl ⟨v, (revalued_changeDefinitions ht hall).2⟩
    | error e =>
      simp only [changeAll, change, hc]
      exact .inr trivial

theorem level_revalued (h : s.Level) {v : OptionValue} (hr : s.Revalued name (fun _ => v) s') :
    s'.Level := by
  intro n d hd
  by_cases hn : n = name
  · subst hn
    rw [hr.own, Option.map_eq_some_iff] at hd
    obtain ⟨x, hx, rfl⟩ := hd
    rw [hr.own, h n x hx]
    rfl
  · rw [hr.others _ n hn] at hd ⊢
    exact h n d hd

theorem definitions_same (h : s.Level) {d g : Definition} (hd : d ∈ s.definitions name)
    (hg : g ∈ s.definitions name) : g = { d with scope := g.scope } := by
  simp only [definitions, List.mem_append, Option.mem_toList] at hd hg
  cases hl : s.lookup .local name with
  | none =>
    simp only [hl, reduceCtorEq, false_or] at hd hg
    cases hd.symm.trans hg
    rfl
  | some x =>
    simp only [hl, h name x hl, Option.some.injEq] at hd hg
    rcases hd with rfl | rfl <;> rcases hg with rfl | rfl <;> rfl

theorem level_changeDefinitions (ht : s.Twinned) (h : s.Level) (how : Change)
    {text : Definition → Text} (htext : ∀ d scope, text { d with scope := scope } = text d)
    (name : Text) : (s.changeAll how text (s.definitions name)).1.Level := by
  have hsame : ∀ d ∈ s.definitions name, ∀ g ∈ s.definitions name,
      g.changed how (text g) = d.changed how (text d) := by
    intro d hd g hg
    rw [definitions_same h hd hg, htext, Definition.changed_scope]
  rcases changeDefinitions_together ht hsame with ⟨v, hv⟩ | hkept
  · exact level_revalued h hv
  · rw [hkept]
    exact h

theorem level_switch (ht : s.Twinned) (h : s.Level) (word : Text) : (s.switch word).1.Level := by
  unfold switch
  split
  · exact h
  · rename_i how name _
    exact level_changeDefinitions ht h .set (by intro d scope; cases how <;> rfl) name

theorem level_applyWord (ht : s.Twinned) (h : s.Level) (word : Text) :
    (s.applyWord word).1.Level := by
  unfold applyWord
  split
  · rename_i name how t _
    split
    · exact h
    · exact level_changeDefinitions ht h how (fun _ _ => rfl) name
  · split
    · split <;> exact h
    · split
      · split
        · exact level_switch ht h word
        · exact h
      · exact level_switch ht h word

theorem level_applyWords (ht : s.Twinned) (h : s.Level) (words : List Text) :
    (s.applyWords words).1.Level := by
  induction words generalizing s with
  | nil => exact h
  | cons word words ih =>
    have hword := level_applyWord ht h word
    have hrest := ih (twinned_steps (steps_applyWord ht word) ht) hword
    unfold applyWords
    split <;> rename_i ha <;> rw [ha] at hword hrest
    · exact hword
    · exact hrest
    · exact hrest
    · exact hrest

end

end OptionStore

end LetShell
