import LetShell.Proofs.Options.Typed

/-!
# Faults of the option store

In a store with proper values no change faults, whatever its text: what a
change reads of the present value is there to be read. Only showing an option
can fault, and only if it holds an integer too long to be written. Adding to
an integer has no bound, so such a store can come about.
-/

set_option autoImplicit false

namespace LetShell

namespace Definition

section
variable {d : Definition} {f : Fault}

theorem describe_eq_error_iff (h : d.Proper) :
    d.describe = .error f ↔ f = .integerTooLong ∧ ∃ n, d.value = .int n ∧ Numeral.Long n := by
  have hmap : ∀ v : OptionValue,
      (v.toText.map fun t => [' ', ' '] ++ d.name ++ ['='] ++ t) = .error f ↔
        f = .integerTooLong ∧ ∃ n, v = .int n ∧ Numeral.Long n := by
    intro v
    rw [← OptionValue.toText_eq_error_iff]
    cases v.toText <;> simp [Except.map]
  obtain ⟨name, type, value, scope, values⟩ := d
  cases h with
  | bool b => simp [describe]
  | int n => exact hmap (.int n)
  | string t => exact hmap (.text t)
  | stringList hx => exact hmap (.text _)
  | enum hm => exact hmap (.text _)
  | set hx hs => exact hmap (.text _)

end

end Definition

namespace OptionStore

/-- A global option holds an integer too long to be written. -/
def Overlong (s : OptionStore) : Prop := ∃ d ∈ s.globals, ∃ n, d.value = .int n ∧ Numeral.Long n

section
variable {s : OptionStore} {f : Fault}

theorem proper_of_lookup (h : s.Valued) {scope : Scope} {name : Text} {d : Definition}
    (hd : s.lookup scope name = some d) : d.Proper :=
  h.proper scope d (mem_of_lookup hd)

theorem map_ne_fault {α β : Type} {r : Except (Failure OptionError) α} {g : α → β}
    (h : r ≠ .error (.fault f)) : r.map g ≠ .error (.fault f) := by
  intro hr
  cases r with
  | ok a => cases hr
  | error e =>
    cases hr
    exact h rfl

theorem switch_ne_fault (h : s.Valued) (word : Text) : (s.switch word).2 ≠ .error (.fault f) := by
  unfold switch
  split
  · exact nofun
  · exact map_ne_fault (changeAll_ne_fault .set _ fun _ => typed_definitions (typed_of_valued h))

/-- An outcome that faults only over an integer of the store. -/
def Tame {α : Type} (r : Outcome α) : Prop :=
  ∀ f, r.2 = .error (.fault f) → f = .integerTooLong ∧ r.1.Overlong

theorem tame_describe (h : s.Valued) {name : Text} {d : Definition}
    (hd : s.lookup .global name = some d) : Tame (s, describe d) := by
  intro f hf
  have hshown : d.describe = .error f := by
    unfold describe at hf
    cases hr : d.describe <;> rw [hr] at hf <;> cases hf
    rfl
  obtain ⟨rfl, n, hn⟩ := (Definition.describe_eq_error_iff (proper_of_lookup h hd)).mp hshown
  exact ⟨rfl, d, mem_of_lookup hd, n, hn⟩

theorem tame_switch (h : s.Valued) (word : Text) : Tame (s.switch word) :=
  fun _ hf => absurd hf (switch_ne_fault h word)

theorem getLast?_definitions (h : s.Twinned) {name : Text} {d : Definition}
    (hd : (s.definitions name).getLast? = some d) : s.lookup .global name = some d := by
  unfold definitions at hd
  cases hg : s.lookup .global name with
  | some g => simpa [hg] using hd
  | none =>
    rw [hg, Option.toList_none, List.append_nil] at hd
    cases hl : s.lookup .local name with
    | none =>
      rw [hl] at hd
      cases hd
    | some l =>
      obtain ⟨g, hg', -⟩ := h.twin name l hl
      rw [hg] at hg'
      cases hg'

theorem tame_applyWord (ht : s.Twinned) (h : s.Valued) (word : Text) :
    Tame (s.applyWord word) := by
  unfold applyWord
  split
  · rename_i name how t _
    split
    · exact nofun
    · intro f hf
      exact absurd hf (map_ne_fault (changeAll_ne_fault how _ fun _ => typed_definitions (typed_of_valued h)))
  · split
    · split
      · rename_i d hd
        exact tame_describe h (getLast?_definitions ht hd)
      · exact nofun
    · split
      · rename_i d hd
        split
        · exact tame_switch h word
        · exact tame_describe h hd
      · exact tame_switch h word

/-- The run ends where a word faults, so the integer is there at its end. -/
theorem applyWords_fault (ht : s.Twinned) (h : s.Valued) {words : List Text}
    (hf : (s.applyWords words).2 = .error f) :
    f = .integerTooLong ∧ (s.applyWords words).1.Overlong := by
  have hmap : ∀ {α β : Type} {r : Except Fault α} {g : α → β}, r.map g = .error f →
      r = .error f := by
    intro α β r g hr
    cases r <;> cases hr
    rfl
  induction words generalizing s with
  | nil => cases hf
  | cons word words ih =>
    have htame := tame_applyWord ht h word
    have hstep := steps_applyWord ht word
    have hrest := ih (twinned_steps hstep ht) (valued_steps hstep h)
    unfold applyWords at hf ⊢
    cases hw : s.applyWord word with
    | mk s' answer =>
      rw [hw] at htame hrest hf
      cases answer with
      | error x =>
        cases x with
        | fault x =>
          cases hf
          exact htame f rfl
        | error e => exact hrest (hmap hf)
      | ok line =>
        cases line with
        | nil => exact hrest hf
        | cons c line => exact hrest (hmap hf)

theorem mapM_describe_error_iff {ds : List Definition} (h : ∀ d ∈ ds, d.Proper) :
    ds.mapM (·.describe) = .error f ↔
      f = .integerTooLong ∧ ∃ d ∈ ds, ∃ n, d.value = .int n ∧ Numeral.Long n := by
  induction ds with
  | nil => simp [pure, Except.pure]
  | cons d ds ih =>
    obtain ⟨hd, hds⟩ := List.forall_mem_cons.mp h
    cases hshown : d.describe with
    | error x =>
      obtain ⟨rfl, hlong⟩ := (Definition.describe_eq_error_iff hd).mp hshown
      rw [List.mapM_cons, hshown]
      constructor
      · intro hf
        cases hf
        exact ⟨rfl, d, List.mem_cons_self .., hlong⟩
      · rintro ⟨rfl, -⟩
        rfl
    | ok t =>
      have hshort : ¬ ∃ n, d.value = .int n ∧ Numeral.Long n := by
        intro hlong
        rw [(Definition.describe_eq_error_iff hd).mpr ⟨rfl, hlong⟩] at hshown
        cases hshown
      have hstep : (d :: ds).mapM (·.describe) = .error f ↔ ds.mapM (·.describe) = .error f := by
        rw [List.mapM_cons, hshown]
        cases ds.mapM (·.describe) with
        | error x => rfl
        | ok lines => exact ⟨nofun, nofun⟩
      rw [hstep, ih hds]
      simp [hshort]

theorem overview_eq_error_iff (h : s.Valued) :
    s.overview = .error f ↔ f = .integerTooLong ∧ s.Overlong := by
  have hmem : ∀ d, d ∈ s.listing .global ↔ d ∈ s.globals := fun d => List.mem_mergeSort
  have hproper : ∀ d ∈ s.listing .global, d.Proper := by
    intro d hd
    exact h.proper .global d ((hmem d).mp hd)
  rw [overview, mapM_describe_error_iff hproper]
  simp only [hmem, Overlong]

end

end OptionStore

end LetShell
