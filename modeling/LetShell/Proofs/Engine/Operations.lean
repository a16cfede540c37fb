import LetShell.Proofs.Engine.Run
import LetShell.Proofs.Registry.Continuity

/-!
# Operations on the registry

The registry is worked on from outside by single operations: a name is given a
record or refused one, a record is discarded through a handle however old, an
environment is loaded entry by entry or at once, a variable is written, and all
is given back to a table. No order of them brings two live records of one name
about, or a removed record that is not inherited, and none but a teardown takes
an inherited record out of its slot.
-/

set_option autoImplicit false

namespace LetShell

inductive Operation where
  | refuse (names : List Text)
  | exchange (t : Table)
  | obtain (name : Text)
  | discard (serial : Nat)
  | inherit (entry : Text)
  | bootstrap (entries : List Text)
  | teardown
  | assign (name value : Text)
  | append (name value : Text)

namespace Operation

def loads : Operation → Bool
  | .inherit _ | .bootstrap _ => true
  | _ => false

def clears : Operation → Bool
  | .teardown => true
  | _ => false

end Operation

namespace Engine

def operate (e : Engine) : Operation → Engine
  | .refuse names => e.refusing names
  | .exchange t => { e with table := t }
  | .obtain name => (e.obtain name).1
  | .discard serial => e.discard serial
  | .inherit entry => (e.inherit entry).1
  | .bootstrap entries => e.bootstrap entries
  | .teardown => (e.teardown).1
  | .assign name value => (e.execute ⟨.environment, name⟩ .assign value).1
  | .append name value => (e.execute ⟨.environment, name⟩ .append value).1

def operates (e : Engine) : List Operation → Engine
  | [] => e
  | o :: os => (e.operate o).operates os

open Registry

section
variable (e : Engine)

theorem obtain_cases (name : Text) :
    (∃ r, e.obtain name = (e, some r)) ∨ e.obtain name = (e, none) ∨
      ∃ e', e.registry.find? name = none ∧ e'.registry = e.registry.add name ∧
        e.obtain name = (e', some (.fresh e.registry.next name)) := by
  unfold obtain
  cases hf : e.registry.find? name with
  | some r => exact .inl ⟨r, rfl⟩
  | none =>
    cases hr : e.registry.refuses name with
    | true => exact .inr (.inl rfl)
    | false => exact .inr (.inr ⟨_, rfl, rfl, rfl⟩)

theorem advances_obtain (name : Text) :
    Advances True True e.registry (e.obtain name).1.registry := by
  rcases obtain_cases e name with ⟨r, ho⟩ | ho | ⟨e', hf, hadd, ho⟩
  · rw [ho]
    exact advances_refl True True e.registry
  · rw [ho]
    exact advances_refl True True e.registry
  · rw [ho, hadd]
    exact advances_add True True hf

/-- A handle to a live inherited record marks it, one to another live record
erases it, and one to a record that is not live changes no live record. -/
theorem advances_discard (serial : Nat) :
    Advances True True e.registry (e.discard serial).registry := by
  intro h
  have hown : ∀ r s, e.registry.record? serial = some r → s ∈ e.registry.records →
      s.serial = serial → s = r := by
    rintro r s hr hs rfl
    exact Option.some.inj ((record?_of_mem h.sound hs).symm.trans hr)
  revert h
  unfold discard
  cases hr : e.registry.record? serial with
  | none => exact advances_refl True True e.registry
  | some r =>
    cases hi : r.inherited with
    | true =>
      simp only [hi, if_true]
      refine advances_modify True serial (fun s => ⟨rfl, rfl, fun hs => hs, fun _ _ => rfl⟩) ?_
      intro s hs hserial _ _
      rw [hown r s hr hs hserial]
      exact hi
    | false =>
      cases hl : e.registry.isLive serial with
      | false =>
        simp only [hi, Bool.false_eq_true, if_false]
        exact advances_refl True True e.registry
      | true =>
        simp only [hi, Bool.false_eq_true, if_false, if_true]
        apply advances_erase True True
        intro s hs hserial
        rw [hown r s hr hs hserial]
        exact hi

theorem advances_inherit (entry : Text) :
    Advances False True e.registry (e.inherit entry).1.registry := by
  have hload : ∀ (g : Registry) (serial : Nat) (value : Text), Advances False True g
      (g.modify serial fun r => { r with inherited := true, initial := value, value := value }) := by
    intro g serial value
    exact advances_modify True serial (fun s => ⟨rfl, rfl, fun _ => rfl, False.elim⟩)
      fun _ _ _ _ _ => rfl
  unfold inherit
  split
  · exact advances_refl False True e.registry
  · rename_i name value _
    have hobtain := advances_obtain e (Text.upTo e.nameMax name)
    simp only
    split <;> rename_i ho <;> rw [ho] at hobtain
    · exact advances_mono False.elim id hobtain
    · exact advances_mono False.elim (fun h => ⟨h, h⟩) (advances_trans hobtain (hload _ _ value))

theorem advances_inheritAll (entries : List Text) :
    Advances False True e.registry (e.inheritAll entries).1.registry := by
  induction entries generalizing e with
  | nil => exact advances_refl False True e.registry
  | cons entry entries ih =>
    have hone := advances_inherit e entry
    exact advances_mono (fun h => ⟨h, h⟩) (fun h => ⟨h, h⟩) (advances_trans hone (ih _))

theorem advances_teardown : Advances True False e.registry (e.teardown).1.registry := by
  unfold teardown
  split
  · exact advances_refl True False e.registry
  · exact advances_clear True e.registry

/-- The record has its new value whether or not the table takes it. -/
theorem registry_store (r : Record) (value message : Text) :
    (e.store r value message).1.registry =
      e.registry.modify r.serial fun r => { r with value := value, removed := false } := by
  unfold store
  simp only
  split <;> rfl

theorem advances_store (r : Record) (value message : Text) :
    Advances True True e.registry (e.store r value message).1.registry := by
  rw [registry_store]
  apply advances_modify True r.serial
  · intro s
    exact ⟨rfl, rfl, fun hs => hs, fun _ _ => rfl⟩
  · intro s _ _ _ hrem
    cases hrem

theorem advances_setVariable (name value : Text) :
    Advances True True e.registry (e.setVariable name value).1.registry := by
  have hobtain := advances_obtain e name
  unfold setVariable
  split <;> rename_i ho <;> rw [ho] at hobtain
  · exact hobtain
  · exact advances_mono (fun h => ⟨h, h⟩) (fun h => ⟨h, h⟩)
      (advances_trans hobtain (advances_store _ _ value _))

theorem advances_appendVariable (name value : Text) :
    Advances True True e.registry (e.appendVariable name value).1.registry := by
  unfold appendVariable
  split
  · exact advances_setVariable e name value
  · split
    · exact advances_setVariable e name value
    · exact advances_store e _ _ _

theorem advances_operate (o : Operation) :
    Advances (o.loads = false) (o.clears = false) e.registry (e.operate o).registry := by
  have htrue : ∀ {p : Prop}, p → True := fun _ => trivial
  have hload : ∀ {b : Bool}, b = true → b = false → False := by
    intro b ht hf
    rw [ht] at hf
    cases hf
  cases o with
  | refuse names => exact advances_refusing _ _ e.registry names
  | exchange t => exact advances_refl _ _ e.registry
  | obtain name => exact advances_mono htrue htrue (advances_obtain e name)
  | discard serial => exact advances_mono htrue htrue (advances_discard e serial)
  | inherit entry => exact advances_mono (hload rfl) htrue (advances_inherit e entry)
  | bootstrap entries => exact advances_mono (hload rfl) htrue (advances_inheritAll e entries)
  | teardown => exact advances_mono htrue (hload rfl) (advances_teardown e)
  | assign name value => exact advances_mono htrue htrue (advances_setVariable e name value)
  | append name value => exact advances_mono htrue htrue (advances_appendVariable e name value)

theorem advances_operates (os : List Operation) :
    Advances (∀ o ∈ os, o.loads = false) (∀ o ∈ os, o.clears = false) e.registry
      (e.operates os).registry := by
  induction os generalizing e with
  | nil => exact advances_refl _ _ e.registry
  | cons o os ih =>
    have hone := advances_operate e o
    have hrest := ih (e.operate o)
    exact advances_mono (fun h => List.forall_mem_cons.mp h) (fun h => List.forall_mem_cons.mp h)
      (advances_trans hone hrest)

theorem slots_discard_stale {serial : Nat} (h : e.registry.isLive serial = false) :
    (e.discard serial).registry.slots = e.registry.slots := by
  have hslot : ∀ r, some r ∈ e.registry.slots → r.serial ≠ serial := by
    intro r hr he
    have hrec : r ∈ e.registry.records := List.mem_filterMap.mpr ⟨_, hr, rfl⟩
    rw [← he, isLive_of_mem hrec] at h
    cases h
  unfold discard
  split
  · rfl
  · split
    · change e.registry.slots.map _ = e.registry.slots
      apply (List.map_congr_left ?_).trans (List.map_id _)
      intro s hs
      cases s with
      | none => rfl
      | some r => simp [hslot r hs]
    · rw [h]
      rfl

end

/-- Whatever is done to a new registry, and whatever is done next: no two live
records have names that compare equal, and a removed live record is inherited.
An inherited record stays in its slot unless all are given up, and keeps its
first value unless entries are loaded. Handles tell all records that ever were
apart and keep their record, and discarding one that is in no slot changes no
slot, also when its name has a new record. -/
theorem operates_keep_registry (table : Table) (options : OptionStore) (caseSensitive : Bool)
    (nameMax : Int) (refused : List Text) (os : List Operation) :
    let e := (ofParts table options caseSensitive nameMax refused).operates os
    e.registry.caseSensitive = caseSensitive ∧
    e.registry.records.Pairwise (fun r s => e.registry.key r.name ≠ e.registry.key s.name) ∧
    (∀ r ∈ e.registry.records, r.removed = true → r.inherited = true) ∧
    (∀ later (i : Nat) (r : Record), (∀ o ∈ later, o.clears = false) →
      e.registry.slots[i]? = some (some r) → r.inherited = true →
      ∃ s, (e.operates later).registry.slots[i]? = some (some s) ∧
        r.Follows (∀ o ∈ later, o.loads = false) s) ∧
    (∀ later, ∀ r ∈ e.registry.issued, ∃ s ∈ (e.operates later).registry.issued,
      r.Follows (∀ o ∈ later, o.loads = false) s) ∧
    (e.registry.issued.map (·.serial)).Nodup ∧
    (∀ serial, e.registry.isLive serial = false →
      (e.discard serial).registry.slots = e.registry.slots) := by
  intro e
  have hnew := lawful_empty caseSensitive refused
  obtain ⟨hlawful, hcont⟩ :=
    advances_operates (ofParts table options caseSensitive nameMax refused) os hnew
  have hkeys := hlawful.sound.keys
  rw [List.nodup_iff_pairwise_ne, List.pairwise_map] at hkeys
  have hlater := fun later => (advances_operates e later hlawful).2
  refine ⟨hcont.caseSensitive, hkeys, hlawful.tombs, ?_, ?_, hlawful.sound.serials, ?_⟩
  · intro later i r hseat hr hi
    exact (hlater later).seats hseat i r hr hi
  · intro later
    exact (hlater later).issued
  · intro serial
    exact slots_discard_stale e

end Engine

end LetShell
