import Mathlib.Data.List.Induction
import Mathlib.Order.Bounds.Defs
import LetShell.Proofs.Engine.Operations
import LetShell.Proofs.Engine.Step
import LetShell.Proofs.Registry.Seating

/-!
# Slots over a history

A history mixes operations on the registry with whole statements. None of them
both brings records in and lets records go, so the number of slots is told by
what stands between them: it is the largest number of records that were live at
once since the registry was empty. Every new record went to the lowest slot that
was free when it came.
-/

set_option autoImplicit false

namespace LetShell

inductive Event where
  | operation (o : Operation)
  | statement (s : Statement)

def Event.clears : Event → Bool
  | .operation o => o.clears
  | .statement _ => false

namespace Engine

def undergo (e : Engine) : Event → Engine
  | .operation o => e.operate o
  | .statement s => e.perform s

def undergoes (e : Engine) : List Event → Engine
  | [] => e
  | v :: vs => (e.undergo v).undergoes vs

theorem undergoes_append (e : Engine) (vs ws : List Event) :
    e.undergoes (vs ++ ws) = (e.undergoes vs).undergoes ws := by
  induction vs generalizing e with
  | nil => rfl
  | cons v vs ih => exact ih (e.undergo v)

open Registry

section
variable (e : Engine)

theorem grows_obtain (name : Text) : Grows e.registry (e.obtain name).1.registry := by
  rcases obtain_cases e name with ⟨r, ho⟩ | ho | ⟨e', -, hadd, ho⟩
  · rw [ho]
    exact grows_refl e.registry
  · rw [ho]
    exact grows_refl e.registry
  · rw [ho, hadd]
    exact grows_add e.registry name

theorem grows_store (r : Record) (value message : Text) :
    Grows e.registry (e.store r value message).1.registry := by
  rw [registry_store]
  exact grows_modify _ _ fun _ => ⟨rfl, rfl⟩

theorem grows_setVariable (name value : Text) :
    Grows e.registry (e.setVariable name value).1.registry := by
  have hobtain := grows_obtain e name
  unfold setVariable
  split <;> rename_i ho <;> rw [ho] at hobtain
  · exact hobtain
  · exact grows_trans hobtain (grows_store _ _ value _)

theorem grows_appendVariable (name value : Text) :
    Grows e.registry (e.appendVariable name value).1.registry := by
  unfold appendVariable
  split
  · exact grows_setVariable e name value
  · split
    · exact grows_setVariable e name value
    · exact grows_store e _ _ _

theorem grows_execute (target : Target) (op : Operator) (value : Text) :
    Grows e.registry (e.execute target op value).1.registry := by
  by_cases hk : target.kind = .environment
  · simp only [execute, hk]
    split
    · exact grows_appendVariable e target.name value
    · exact grows_setVariable e target.name value
  · rw [(execute_option_frame e hk op value).1]
    exact grows_refl e.registry

theorem grows_assign (t : Text) : Grows e.registry (e.assign t).1.registry := by
  unfold assign
  split
  · exact grows_refl e.registry
  · exact grows_execute e _ _ _

theorem grows_inherit (entry : Text) : Grows e.registry (e.inherit entry).1.registry := by
  unfold inherit
  split
  · exact grows_refl e.registry
  · rename_i name value _
    have hobtain := grows_obtain e (Text.upTo e.nameMax name)
    simp only
    split <;> rename_i ho <;> rw [ho] at hobtain
    · exact hobtain
    · exact grows_trans hobtain (grows_modify _ _ fun _ => ⟨rfl, rfl⟩)

theorem grows_inheritAll (entries : List Text) :
    Grows e.registry (e.inheritAll entries).1.registry := by
  induction entries generalizing e with
  | nil => exact grows_refl e.registry
  | cons entry entries ih => exact grows_trans (grows_inherit e entry) (ih _)

theorem shrinks_discard (serial : Nat) : Shrinks e.registry (e.discard serial).registry := by
  unfold discard
  split
  · exact shrinks_refl e.registry
  · split
    · exact shrinks_modify _ _ fun _ => ⟨rfl, rfl⟩
    · split
      · exact shrinks_erase _ _
      · exact shrinks_refl e.registry

theorem shrinks_removeName (name : Text) : Shrinks e.registry (e.removeName name).1.registry := by
  unfold removeName
  split
  · exact shrinks_refl e.registry
  · split
    · exact shrinks_refl e.registry
    · exact shrinks_discard e _

theorem shrinks_removeTokens (tokens : List (Except ParseError Text)) :
    Shrinks e.registry (e.removeTokens tokens).1.registry := by
  induction tokens generalizing e with
  | nil => exact shrinks_refl e.registry
  | cons token tokens ih =>
    cases token with
    | error p => exact ih e
    | ok name =>
      have hone := shrinks_removeName e name
      unfold removeTokens
      split <;> rename_i hr <;> rw [hr] at hone <;> exact shrinks_trans hone (ih _)

theorem shrinks_remove (t : Text) : Shrinks e.registry (e.remove t).1.registry := by
  have h := shrinks_removeTokens e (Removal.read e.nameMax t).tokens
  simp only [remove]
  split <;> exact h

theorem grows_or_shrinks {v : Event} (hv : v.clears = false) :
    Grows e.registry (e.undergo v).registry ∨ Shrinks e.registry (e.undergo v).registry := by
  cases v with
  | statement s =>
    cases s with
    | assign t => exact .inl (grows_assign e t)
    | remove t => exact .inr (shrinks_remove e t)
  | operation o =>
    cases o with
    | refuse names => exact .inr ⟨fun _ _ h => h, Nat.le_refl _, rfl⟩
    | exchange t => exact .inr (shrinks_refl e.registry)
    | obtain name => exact .inl (grows_obtain e name)
    | discard serial => exact .inr (shrinks_discard e serial)
    | inherit entry => exact .inl (grows_inherit e entry)
    | bootstrap entries => exact .inl (grows_inheritAll e entries)
    | teardown => cases hv
    | assign name value => exact .inl (grows_execute e _ _ value)
    | append name value => exact .inl (grows_execute e _ _ value)

theorem slots_undergo {v : Event} (hv : v.clears = false) :
    (e.undergo v).registry.slots.length =
      max e.registry.slots.length (e.undergo v).registry.size := by
  rcases grows_or_shrinks e hv with h | h
  · exact h.slots
  · have hsize := e.registry.size_le_slots
    rw [h.slots, Nat.max_eq_left (Nat.le_trans h.size hsize)]

/-- The sizes that the registry has had by the end of a history. -/
def sizes (vs : List Event) : Set Nat := {n | ∃ p, p <+: vs ∧ (e.undergoes p).registry.size = n}

/-- The ghost is the largest size so far, and the slots are as many. -/
theorem slots_isGreatest (hempty : e.registry.slots = []) {vs : List Event}
    (hv : ∀ v ∈ vs, v.clears = false) :
    IsGreatest (e.sizes vs) (e.undergoes vs).registry.slots.length := by
  induction vs using List.reverseRecOn with
  | nil =>
    have hsize : e.registry.size = 0 := by rw [Registry.size, Registry.records, hempty]; rfl
    have hslots : (e.undergoes []).registry.slots.length = 0 := by rw [undergoes, hempty]; rfl
    rw [hslots]
    refine ⟨⟨[], List.prefix_rfl, hsize⟩, ?_⟩
    rintro n ⟨p, hp, rfl⟩
    rw [List.prefix_nil.mp hp]
    exact Nat.le_of_eq hsize
  | append_singleton vs v ih =>
    obtain ⟨⟨p, hp, hpeak⟩, hbound⟩ := ih fun w hw => hv w (List.mem_append_left _ hw)
    have hslots := slots_undergo (e.undergoes vs) (hv v (by simp))
    have hlast : e.undergoes (vs ++ [v]) = (e.undergoes vs).undergo v := undergoes_append e vs [v]
    rw [hlast, hslots]
    constructor
    · rcases Nat.le_total (e.undergoes vs).registry.slots.length
        ((e.undergoes vs).undergo v).registry.size with hle | hle
      · rw [Nat.max_eq_right hle]
        exact ⟨vs ++ [v], List.prefix_rfl, by rw [hlast]⟩
      · rw [Nat.max_eq_left hle]
        exact ⟨p, hp.trans (List.prefix_append vs [v]), hpeak⟩
    · rintro n ⟨q, hq, rfl⟩
      rcases List.prefix_concat_iff.mp hq with rfl | hq
      · rw [hlast]
        exact Nat.le_max_right _ _
      · exact Nat.le_trans (hbound ⟨q, hq, rfl⟩) (Nat.le_max_left _ _)

theorem seat_of_new {v : Event} (hv : v.clears = false) {i n : Nat}
    (hn : (e.undergo v).registry.seat? i = some n) (hnew : ∀ j, e.registry.seat? j ≠ some n) :
    e.registry.seat? i = none ∧ ∀ j < i, ∃ m, (e.undergo v).registry.seat? j = some m ∧
      (e.registry.seat? j = some m ∨ e.registry.seat? j = none ∧ m < n) := by
  rcases grows_or_shrinks e hv with h | h
  · have hfree : e.registry.seat? i = none := by
      cases hs : e.registry.seat? i with
      | none => rfl
      | some m =>
        have hm := h.stay i m hs
        rw [hn] at hm
        exact absurd (hm ▸ hs) (hnew i)
    refine ⟨hfree, ?_⟩
    intro j hj
    cases hs : e.registry.seat? j with
    | some m => exact ⟨m, h.stay j m hs, .inl rfl⟩
    | none =>
      obtain ⟨m, hm, hlt⟩ := (h.come i n hfree hn).2.2 j hj hs
      exact ⟨m, hm, .inr ⟨rfl, hlt⟩⟩
  · exact absurd (h.stay i n hn) (hnew i)

end

/-- From an empty registry, a new one or one just torn down, through any history
without another teardown: there are as many slots as the most records that were
live at once, removed ones included. And at every point of the history, a record
that has come sits in a slot that was free, where every lower slot was taken
before or by a record that came earlier in the same event. -/
theorem slots_peak (e : Engine) (hempty : e.registry.slots = []) (history : List Event)
    (hv : ∀ v ∈ history, v.clears = false) :
    IsGreatest (e.sizes history) (e.undergoes history).registry.slots.length ∧
    ∀ past v, past ++ [v] <+: history →
      let before := (e.undergoes past).registry
      let after := (e.undergoes (past ++ [v])).registry
      ∀ i n, after.seat? i = some n → (∀ j, before.seat? j ≠ some n) →
        before.seat? i = none ∧ ∀ j < i, ∃ m, after.seat? j = some m ∧
          (before.seat? j = some m ∨ before.seat? j = none ∧ m < n) := by
  refine ⟨slots_isGreatest e hempty hv, ?_⟩
  intro past v hpast before after i n hn hnew
  have hclears : v.clears = false := hv v (hpast.subset (by simp))
  have hlast : e.undergoes (past ++ [v]) = (e.undergoes past).undergo v := undergoes_append e past [v]
  simp only [after, hlast] at hn ⊢
  exact seat_of_new _ hclears hn hnew

theorem slots_peak_sample :
    let e := ((ofParts ⟨.ofMemory, [("HOME".toList, ['1'])]⟩ .standard true 64 []).start.teardown).1
    let past : List Event := [.operation (.refuse ["X".toList]), .operation (.obtain "X".toList),
      .operation (.inherit "A=1".toList), .statement (.assign "$B = 2".toList),
      .operation (.obtain "C".toList), .statement (.remove "$B $A $C".toList),
      .operation (.discard 2)]
    let history := past ++ [.operation (.bootstrap ["A=2".toList, "D=3".toList, "E=4".toList])]
    e.registry.slots = [] ∧ (∀ v ∈ history, v.clears = false) ∧
      (e.undergoes past).registry.size = 1 ∧ IsGreatest (e.sizes history) 3 ∧
      (e.undergoes history).registry.seat? 2 = some 5 ∧
      (e.undergoes past).registry.seat? 2 = none ∧
      ∃ m, (e.undergoes history).registry.seat? 1 = some m ∧ m < 5 := by
  intro e past history
  have hempty : e.registry.slots = [] := slots_teardown rfl
  have hv : ∀ v ∈ history, v.clears = false := by decide +kernel
  have hlength : (e.undergoes history).registry.slots.length = 3 := by decide +kernel
  have hseat : (e.undergoes history).registry.seat? 2 = some 5 := by decide +kernel
  have hbefore : (e.undergoes past).registry.slots =
    [some ⟨1, ['A'], ['1'], ['1'], true, true⟩, none, none] := by decide +kernel
  have hnew : ∀ j, (e.undergoes past).registry.seat? j ≠ some 5 := by
    intro j
    rw [seat?, hbefore]
    rcases j with _ | _ | _ | j <;> simp
  obtain ⟨hpeak, hplace⟩ := slots_peak e hempty history hv
  obtain ⟨hfree, hlower⟩ := hplace past _ List.prefix_rfl 2 5 hseat hnew
  obtain ⟨m, hm, hold | ⟨-, hlt⟩⟩ := hlower 1 (by decide)
  · rw [seat?, hbefore] at hold
    cases hold
  · rw [hlength] at hpeak
    exact ⟨hempty, hv, by decide +kernel, hpeak, hseat, hfree, m, hm, hlt⟩

end Engine

end LetShell
