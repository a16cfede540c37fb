import LetShell.Options.Definition
import LetShell.Proofs.Text.CommaList

/-!
# Proper values

A value is proper if it is what the type of its option asks for: a boolean, an
integer, a text, one of the allowed values, or a comma list, which for a set is
a part of the allowed values in their order. Each change leaves a proper value
where it found one, whichever way it puts the items in order.
-/

set_option autoImplicit false

namespace LetShell

/-- The values of a type, where some may be the only ones allowed. -/
inductive OptionType.Holds (allowed : List Text) : OptionType → OptionValue → Prop
  | bool (b : Bool) : Holds allowed .bool (.bool b)
  | int (n : Int) : Holds allowed .int (.int n)
  | string (t : Text) : Holds allowed .string (.text t)
  | stringList {xs : List Text} (h : Text.Listed xs) :
      Holds allowed .stringList (.text (Text.ofItems xs))
  | enum {t : Text} (h : t ∈ allowed) : Holds allowed .enum (.text t)
  | set {xs : List Text} (h : Text.Listed xs) (hs : xs.Sublist allowed) :
      Holds allowed .set (.text (Text.ofItems xs))

namespace Definition

def Proper (d : Definition) : Prop := d.type.Holds d.values d.value

/-- The allowed values, where a type has them, can be told apart in a list. -/
def Told (d : Definition) : Prop := d.type = .enum ∨ d.type = .set → Text.Listed d.values

def holding (v : OptionValue) (d : Definition) : Definition := { d with value := v }

section
variable {α β : Type} {x : Except Fault α} {y : Except OptionError β}

theorem ok_of_map {f : β → OptionValue} {v : OptionValue} (h : lift (y.map f) = .ok v) :
    ∃ b, y = .ok b ∧ v = f b := by
  cases y with
  | error e => cases h
  | ok b =>
    cases h
    exact ⟨b, rfl, rfl⟩

theorem ok_of_value {f : α → OptionValue} {v : OptionValue}
    (h : (do
      let a ← Failure.ofFault x
      return f a : Outcome OptionValue) = .ok v) : ∃ a, x = .ok a ∧ v = f a := by
  cases x with
  | error e => cases h
  | ok a =>
    cases h
    exact ⟨a, rfl, rfl⟩

theorem ok_of_value_first {f : α → β → OptionValue} {v : OptionValue}
    (h : (do
      let a ← Failure.ofFault x
      let b ← lift y
      return f a b : Outcome OptionValue) = .ok v) : ∃ a b, x = .ok a ∧ y = .ok b ∧ v = f a b := by
  cases x with
  | error e => cases h
  | ok a => cases y with
    | error e => cases h
    | ok b =>
      cases h
      exact ⟨a, b, rfl, rfl, rfl⟩

theorem ok_of_text_first {f : α → β → OptionValue} {v : OptionValue}
    (h : (do
      let b ← lift y
      let a ← Failure.ofFault x
      return f a b : Outcome OptionValue) = .ok v) : ∃ a b, x = .ok a ∧ y = .ok b ∧ v = f a b := by
  cases y with
  | error e => cases h
  | ok b => cases x with
    | error e => cases h
    | ok a =>
      cases h
      exact ⟨a, b, rfl, rfl, rfl⟩

end

section
variable {d : Definition} {t : Text} {v : OptionValue}

theorem holds_arranged (h : Text.Listed d.values) (items : List Text) :
    OptionType.Holds d.values .set (.text (d.arranged items)) := by
  have hpart : (d.values.filter (· ∈ items)).Sublist d.values := List.filter_sublist
  exact .set (Text.listed_sublist h hpart) hpart

theorem items_of_written {xs old : List Text} (hx : Text.Listed xs)
    (h : (OptionValue.text (Text.ofItems xs)).toText.map Text.items = .ok old) : old = xs := by
  rw [← Text.items_ofItems hx]
  exact (Except.ok.inj h).symm

theorem proper_set (ht : d.Told) (h : lift (d.set t) = .ok v) : (d.holding v).Proper := by
  obtain ⟨name, type, value, scope, values⟩ := d
  cases type with
  | bool =>
    obtain ⟨b, -, rfl⟩ := ok_of_map h
    exact .bool b
  | int =>
    obtain ⟨n, -, rfl⟩ := ok_of_map h
    exact .int n
  | string =>
    cases h
    exact .string t
  | stringList =>
    cases h
    exact .stringList (Text.listed_items t)
  | enum =>
    by_cases hm : t ∈ values
    · simp only [set, hm, if_true] at h
      cases h
      exact .enum hm
    · simp only [set, hm, if_false] at h
      cases h
  | set =>
    obtain ⟨items, -, rfl⟩ := ok_of_map h
    exact holds_arranged (ht (.inr rfl)) items

theorem proper_add (hp : d.Proper) (ht : d.Told) (h : d.add t = .ok v) :
    (d.holding v).Proper := by
  obtain ⟨name, type, value, scope, values⟩ := d
  cases hp with
  | bool b => cases h
  | enum hm => cases h
  | int n =>
    obtain ⟨n, m, -, -, rfl⟩ := ok_of_value_first h
    exact .int (n + m)
  | string old =>
    cases h
    exact .string (old ++ t)
  | stringList hx =>
    obtain ⟨old, hold, rfl⟩ := ok_of_value h
    rw [items_of_written hx hold]
    exact .stringList (Text.listed_append hx (Text.listed_items t))
  | set hx hpart =>
    obtain ⟨old, new, -, -, rfl⟩ := ok_of_value_first h
    exact holds_arranged (ht (.inr rfl)) (old ++ new)

theorem proper_remove (hp : d.Proper) (h : d.remove t = .ok v) : (d.holding v).Proper := by
  obtain ⟨name, type, value, scope, values⟩ := d
  cases hp with
  | bool b => cases h
  | string old => cases h
  | enum hm => cases h
  | int n =>
    obtain ⟨n, m, -, -, rfl⟩ := ok_of_value_first h
    exact .int (n - m)
  | stringList hx =>
    obtain ⟨old, hold, rfl⟩ := ok_of_value h
    rw [items_of_written hx hold]
    exact .stringList (Text.listed_sublist hx List.filter_sublist)
  | @set xs hx hpart =>
    obtain ⟨old, gone, hold, -, rfl⟩ := ok_of_text_first h
    rw [items_of_written hx hold]
    have hkept : (xs.filter (· ∉ gone)).Sublist xs := List.filter_sublist
    exact .set (Text.listed_sublist hx hkept) (hkept.trans hpart)

theorem proper_changed (hp : d.Proper) (ht : d.Told) {how : Change}
    (h : d.changed how t = .ok v) : (d.holding v).Proper := by
  cases how with
  | set => exact proper_set ht h
  | add => exact proper_add hp ht h
  | remove => exact proper_remove hp h

end

end Definition

end LetShell
