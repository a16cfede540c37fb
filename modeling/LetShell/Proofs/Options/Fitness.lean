import LetShell.Options.Definition

/-!
# Fitness of a text for a change

Whether a definition rejects a text is settled by its type, its allowed values
and the text. The present value has no part in it: it can only make the change
fail with a fault. So two definitions of one type and with the same allowed
values reject the same texts, whatever they hold.
-/

set_option autoImplicit false

namespace LetShell.Definition

def fits (d : Definition) (how : Change) (t : Text) : Bool :=
  match d.type, how with
  | .bool, .set => (d.readBool t).isOk
  | .int, _ => (d.readInt t).isOk
  | .string, .set => true
  | .string, .add => true
  | .stringList, _ => true
  | .enum, .set => d.values.contains t
  | .set, _ => (d.readItems t).isOk
  | _, _ => false

section
variable {d g : Definition} {how : Change} {t : Text}

theorem readBool_isOk_congr (d g : Definition) (t : Text) :
    (g.readBool t).isOk = (d.readBool t).isOk := by
  unfold readBool
  by_cases htrue : t.trim.map Char.toLower ∈ trueWords
  · simp only [htrue, if_true]
  · by_cases hfalse : t.trim.map Char.toLower ∈ falseWords
    · simp only [htrue, hfalse, if_false, if_true]
    · simp only [htrue, hfalse, if_false]
      rfl

theorem readInt_isOk_congr (d g : Definition) (t : Text) :
    (g.readInt t).isOk = (d.readInt t).isOk := by
  unfold readInt
  cases Numeral.read t.trim <;> rfl

theorem readItems_isOk_congr (hv : g.values = d.values) (t : Text) :
    (g.readItems t).isOk = (d.readItems t).isOk := by
  unfold readItems
  rw [hv]
  by_cases hu : t.items.filter (· ∉ d.values) = []
  · simp only [hu, if_true]
  · simp only [hu, if_false]
    rfl

theorem set_congr (hn : g.name = d.name) (ht : g.type = d.type) (hv : g.values = d.values)
    (t : Text) : g.set t = d.set t := by
  obtain ⟨name, type, value, scope, values⟩ := d
  obtain ⟨name', type', value', scope', values'⟩ := g
  cases hn
  cases ht
  cases hv
  rfl

theorem fits_congr (ht : g.type = d.type) (hv : g.values = d.values) (how : Change) (t : Text) :
    g.fits how t = d.fits how t := by
  unfold fits
  rw [ht, hv, readBool_isOk_congr d g, readInt_isOk_congr d g, readItems_isOk_congr hv]

end

/-- A result that is a value or an error as the text is fit or not, unless it
is a fault. -/
def Judged (fit : Bool) (r : Outcome OptionValue) : Prop :=
  (∃ f, r = .error (.fault f)) ∨ (fit = true ∧ ∃ v, r = .ok v) ∨
    (fit = false ∧ ∃ x, r = .error (.error x))

section
variable {α β : Type} (x : Except Fault α) (y : Except OptionError β)

theorem judged_map (f : β → OptionValue) : Judged y.isOk (lift (y.map f)) := by
  cases y with
  | ok b => exact .inr (.inl ⟨rfl, f b, rfl⟩)
  | error e => exact .inr (.inr ⟨rfl, e, rfl⟩)

theorem judged_ofFault (x : Except Fault OptionValue) : Judged true (Failure.ofFault x) := by
  cases x with
  | ok v => exact .inr (.inl ⟨rfl, v, rfl⟩)
  | error f => exact .inl ⟨f, rfl⟩

theorem judged_value_first (f : α → β → OptionValue) :
    Judged y.isOk (do
      let a ← Failure.ofFault x
      let b ← lift y
      return f a b) := by
  cases x with
  | error e => exact .inl ⟨e, rfl⟩
  | ok a => cases y with
    | ok b => exact .inr (.inl ⟨rfl, f a b, rfl⟩)
    | error e => exact .inr (.inr ⟨rfl, e, rfl⟩)

theorem judged_text_first (f : α → β → OptionValue) :
    Judged y.isOk (do
      let b ← lift y
      let a ← Failure.ofFault x
      return f a b) := by
  cases y with
  | error e => exact .inr (.inr ⟨rfl, e, rfl⟩)
  | ok b => cases x with
    | ok a => exact .inr (.inl ⟨rfl, f a b, rfl⟩)
    | error e => exact .inl ⟨e, rfl⟩

end

section
variable (d : Definition) (t : Text)

theorem set_judged : Judged (d.fits .set t) (lift (d.set t)) := by
  unfold fits set
  cases d.type with
  | bool => exact judged_map (d.readBool t) .bool
  | int => exact judged_map (d.readInt t) .int
  | string => exact .inr (.inl ⟨rfl, _, rfl⟩)
  | stringList => exact .inr (.inl ⟨rfl, _, rfl⟩)
  | enum =>
    by_cases hm : t ∈ d.values
    · rw [if_pos hm]
      exact .inr (.inl ⟨List.contains_iff_mem.mpr hm, _, rfl⟩)
    · rw [if_neg hm]
      have hc : d.values.contains t = false := by simpa using hm
      exact .inr (.inr ⟨hc, _, rfl⟩)
  | set => exact judged_map (d.readItems t) fun items => .text (d.arranged items)

theorem add_judged : Judged (d.fits .add t) (d.add t) := by
  unfold fits add
  cases d.type with
  | int => exact judged_value_first d.value.toInt (d.readInt t) fun n m => .int (n + m)
  | string => exact judged_ofFault _
  | stringList =>
    cases hv : d.value.toText with
    | ok old => exact .inr (.inl ⟨rfl, _, by simp only [currentItems, hv]; rfl⟩)
    | error f => exact .inl ⟨f, by simp only [currentItems, hv]; rfl⟩
  | set =>
    exact judged_value_first (d.value.toText.map Text.items) (d.readItems t) fun old new =>
      .text (d.arranged (old ++ new))
  | bool => exact .inr (.inr ⟨rfl, _, rfl⟩)
  | enum => exact .inr (.inr ⟨rfl, _, rfl⟩)

theorem remove_judged : Judged (d.fits .remove t) (d.remove t) := by
  unfold fits remove
  cases d.type with
  | int => exact judged_value_first d.value.toInt (d.readInt t) fun n m => .int (n - m)
  | stringList =>
    cases hv : d.value.toText with
    | ok old => exact .inr (.inl ⟨rfl, _, by simp only [currentItems, hv]; rfl⟩)
    | error f => exact .inl ⟨f, by simp only [currentItems, hv]; rfl⟩
  | set =>
    exact judged_text_first (d.value.toText.map Text.items) (d.readItems t) fun old gone =>
      .text (Text.ofItems (old.filter (· ∉ gone)))
  | bool => exact .inr (.inr ⟨rfl, _, rfl⟩)
  | string => exact .inr (.inr ⟨rfl, _, rfl⟩)
  | enum => exact .inr (.inr ⟨rfl, _, rfl⟩)

theorem changed_judged (how : Change) : Judged (d.fits how t) (d.changed how t) := by
  cases how with
  | set => exact set_judged d t
  | add => exact add_judged d t
  | remove => exact remove_judged d t

end

theorem fits_of_changed {d : Definition} {how : Change} {t : Text} {v : OptionValue}
    (h : d.changed how t = .ok v) : d.fits how t = true := by
  rcases changed_judged d t how with ⟨f, hf⟩ | ⟨hfit, -⟩ | ⟨-, x, hx⟩
  · rw [h] at hf
    cases hf
  · exact hfit
  · rw [h] at hx
    cases hx

theorem not_fits_of_changed {d : Definition} {how : Change} {t : Text} {x : OptionError}
    (h : d.changed how t = .error (.error x)) : d.fits how t = false := by
  rcases changed_judged d t how with ⟨f, hf⟩ | ⟨-, v, hv⟩ | ⟨hfit, -⟩
  · rw [h] at hf
    cases hf
  · rw [h] at hv
    cases hv
  · exact hfit

end LetShell.Definition
