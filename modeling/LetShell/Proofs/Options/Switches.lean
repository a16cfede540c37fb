import LetShell.Proofs.Options.Twins

/-!
# Words that switch

A boolean option has three words: its name, and its name after `no` and after
`inv`. Other readings of a word go first, and so does `no` or `inv` before the
name of another boolean option. A word that is left to the option turns its
local and its global definition, each from the value it has, and nothing else.
-/

set_option autoImplicit false

namespace LetShell

namespace OptionWord

def noText : Text := "no".toList

def invText : Text := "inv".toList

def Switch.turn : Switch → Bool → Bool
  | .off, _ => false
  | .over, b => !b
  | .on, _ => true

/-- A word that is neither a change nor a question. -/
structure Plain (word : Text) : Prop where
  nonempty : word ≠ []
  solid : ∀ c ∈ word, Text.isBlank c = false
  unchanging : change? word = none
  unasking : query? word = none

end OptionWord

namespace OptionStore
open OptionWord

def Shows (s : OptionStore) (word : Text) : Prop :=
  ∃ d, s.lookup .global word = some d ∧ d.type ≠ .bool

/-- The name of another boolean option stands in the word after `no` or `inv`. -/
def Shadowed (s : OptionStore) (word : Text) : Prop :=
  ∃ name g, (word = noText ++ name ∨ word = invText ++ name) ∧
    s.lookup .global name = some g ∧ g.type = .bool

/-- Every definition of the name has been turned, and no other option changed. -/
def Turned (s : OptionStore) (name : Text) (f : Bool → Bool) (s' : OptionStore) : Prop :=
  s.Revalued name (fun d => .bool (f d.value.isOn)) s'

section
variable {s : OptionStore} {name word : Text} {g : Definition}

theorem isSwitch_iff : s.isSwitch name = true ↔
    ∃ g, s.lookup .global name = some g ∧ g.type = .bool := by
  simp [isSwitch, Option.any_eq_true]

theorem applyWord_plain (h : Plain word) (hs : ¬s.Shows word) :
    s.applyWord word = s.switch word := by
  simp only [applyWord, h.unchanging, h.unasking]
  split
  · rename_i d hd
    exact if_pos (Decidable.by_contra fun hb => hs ⟨d, hd, hb⟩)
  · rfl

theorem find?_no (h : s.isSwitch name = true) :
    (switches (noText ++ name)).find? (fun r => s.isSwitch r.2) = some (.off, name) :=
  List.find?_cons_of_pos h

theorem find?_inv (h : s.isSwitch name = true) :
    (switches (invText ++ name)).find? (fun r => s.isSwitch r.2) = some (.over, name) :=
  List.find?_cons_of_pos h

theorem find?_bare (h : s.isSwitch name = true) (hs : ¬s.Shadowed name) :
    (switches name).find? (fun r => s.isSwitch r.2) = some (.on, name) := by
  have hno : ∀ rest, name = noText ++ rest ∨ name = invText ++ rest → ¬s.isSwitch rest = true := by
    intro rest hrest hr
    obtain ⟨g, hg, htype⟩ := isSwitch_iff.mp hr
    exact hs ⟨rest, g, hrest, hg, htype⟩
  unfold switches
  split
  · rename_i rest
    rw [List.find?_cons_of_neg (by exact hno rest (.inl rfl)), List.find?_cons_of_pos (by exact h)]
  · rename_i rest
    rw [List.find?_cons_of_neg (by exact hno rest (.inr rfl)), List.find?_cons_of_pos (by exact h)]
  · exact List.find?_cons_of_pos h

theorem changed_switch {d : Definition} (h : d.type = .bool) (how : Switch) :
    d.changed .set (how.text d) = .ok (.bool (how.turn d.value.isOn)) := by
  have hoff : d.changed .set ['0'] = .ok (.bool false) := by
    simp only [Definition.changed, Definition.set, h]
    rfl
  have hon : d.changed .set ['1'] = .ok (.bool true) := by
    simp only [Definition.changed, Definition.set, h]
    rfl
  cases how with
  | off => exact hoff
  | on => exact hon
  | «over» =>
    rw [Switch.text, Switch.turn]
    cases d.value.isOn with
    | true => exact hoff
    | false => exact hon

theorem switch_turned (h : s.Twinned) (hs : s.isSwitch name = true) {how : Switch}
    (hf : (switches word).find? (fun r => s.isSwitch r.2) = some (how, name)) :
    (s.switch word).2 = .ok [] ∧ Turned s name how.turn (s.switch word).1 := by
  obtain ⟨g, hg, htype⟩ := isSwitch_iff.mp hs
  have hbool : ∀ d ∈ s.definitions name, d.type = .bool := by
    intro d hd
    rcases List.mem_append.mp hd with hd | hd
    · obtain ⟨g', hg', hsame, -⟩ := h.twin name d (Option.mem_toList.mp hd)
      rw [hg] at hg'
      cases hg'
      exact hsame.symm.trans htype
    · rw [hg, Option.toList_some, List.mem_singleton] at hd
      rw [hd, htype]
  obtain ⟨hanswer, hturned⟩ :=
    revalued_changeDefinitions h fun d hd => changed_switch (hbool d hd) how
  simp only [switch, hf, hanswer]
  exact ⟨rfl, hturned⟩

end

end OptionStore

end LetShell
