import Mathlib.Logic.Relation
import LetShell.Proofs.Engine.Run
import LetShell.Proofs.Registry.Identity

/-!
# What statements do to records and table

Over a private table a statement touches records and table together, in four
ways only: it gives a live record a value, it makes a record and gives it a
value, it erases a record, or it marks one as removed. The table is told of
each under the name the record has. An invariant of these steps is therefore
an invariant of every statement, well formed or not, and of every run.
-/

set_option autoImplicit false

namespace LetShell

namespace Record

def holding (value : Text) (r : Record) : Record := { r with value := value, removed := false }

def tombstoned (r : Record) : Record := { r with removed := true }

theorem gentle_holding (value : Text) : Registry.Gentle (holding value) := fun _ => ⟨rfl, rfl⟩

theorem gentle_tombstoned : Registry.Gentle tombstoned := fun _ => ⟨rfl, rfl⟩

end Record

namespace Engine

inductive Step (e e' : Engine) : Prop where
  | idle (hg : e'.registry = e.registry) (ht : e'.table = e.table)
  | write (r : Record) (v : Text) (hr : r ∈ e.registry.records)
      (hg : e'.registry = e.registry.modify r.serial (Record.holding v))
      (ht : e.table.set r.name v = .ok e'.table)
  | create (name v : Text) (hn : e.registry.find? name = none)
      (ha : e.registry.refuses name = false)
      (hg : e'.registry =
        (e.registry.add name).modify e.registry.next (Record.holding v))
      (ht : e.table.set name v = .ok e'.table)
  | erase (r : Record) (hr : r ∈ e.registry.records) (hi : r.inherited = false)
      (hg : e'.registry = e.registry.erase r.serial) (ht : e'.table = e.table.unset r.name)
  | tombstone (r : Record) (hr : r ∈ e.registry.records) (hi : r.inherited = true)
      (hg : e'.registry = e.registry.modify r.serial Record.tombstoned)
      (ht : e'.table = e.table.unset r.name)

/-- Records with an identity over a table that takes every write. -/
structure Regular (e : Engine) : Prop where
  sound : e.registry.Sound
  memory : e.table.kind = .ofMemory

section
variable {e e' : Engine}

theorem regular_step (h : e.Regular) (hs : Step e e') : e'.Regular := by
  cases hs with
  | idle hg ht => exact ⟨hg ▸ h.sound, ht ▸ h.memory⟩
  | write r v hr hg ht =>
    exact ⟨hg ▸ Registry.sound_modify h.sound _ (Record.gentle_holding v),
      (Table.kind_set ht).trans h.memory⟩
  | create name v hn ha hg ht =>
    have hadd := Registry.sound_add h.sound hn
    exact ⟨hg ▸ Registry.sound_modify hadd _ (Record.gentle_holding v),
      (Table.kind_set ht).trans h.memory⟩
  | erase r hr hi hg ht =>
    exact ⟨hg ▸ Registry.sound_erase h.sound r.serial, ht ▸ h.memory⟩
  | tombstone r hr hi hg ht =>
    exact ⟨hg ▸ Registry.sound_modify h.sound _ Record.gentle_tombstoned, ht ▸ h.memory⟩

end

section
variable {e : Engine}

theorem store_ofMemory (h : e.table.kind = .ofMemory) (r : Record) (v message : Text) :
    (e.store r v message).1.registry = e.registry.modify r.serial (Record.holding v) ∧
      e.table.set r.name v = .ok (e.store r v message).1.table := by
  have ht := Table.set_ofMemory h r.name v
  unfold store
  simp only [ht]
  exact ⟨rfl, rfl⟩

theorem step_setVariable (h : e.table.kind = .ofMemory) (name v : Text) :
    Step e (e.setVariable name v).1 := by
  unfold setVariable obtain
  cases hf : e.registry.find? name with
  | some r =>
    obtain ⟨hg, ht⟩ := store_ofMemory h r v ("set $".toList ++ name)
    exact .write r v (Registry.find?_mem hf).1 hg ht
  | none =>
    cases ha : e.registry.refuses name with
    | true => exact .idle rfl rfl
    | false =>
      let made := { e with registry := e.registry.add name }.note .debug registrySource
        ("created ".toList ++ name)
      obtain ⟨hg, ht⟩ := store_ofMemory (e := made) h (.fresh e.registry.next name) v
        ("set $".toList ++ name)
      exact .create name v hf ha hg ht

theorem step_appendVariable (h : e.table.kind = .ofMemory) (name v : Text) :
    Step e (e.appendVariable name v).1 := by
  unfold appendVariable
  cases hf : e.registry.find? name with
  | none => exact step_setVariable h name v
  | some r =>
    cases hr : r.removed with
    | true => simpa only [hr, if_true] using step_setVariable h name v
    | false =>
      obtain ⟨hg, ht⟩ := store_ofMemory h r (r.value ++ v) ("appended to $".toList ++ name)
      simp only [hr, Bool.false_eq_true, if_false]
      exact .write r _ (Registry.find?_mem hf).1 hg ht

theorem changeOption_frame (e : Engine) (d : Definition) (op : Operator) (v : Text) :
    (e.changeOption d op v).1.registry = e.registry ∧
      (e.changeOption d op v).1.table = e.table := by
  unfold changeOption
  split <;> exact ⟨rfl, rfl⟩

theorem applyOption_frame (e : Engine) (scope : Scope) (name : Text) (op : Operator) (v : Text)
    (required : Bool) :
    (e.applyOption scope name op v required).1.registry = e.registry ∧
      (e.applyOption scope name op v required).1.table = e.table := by
  unfold applyOption
  split
  · exact changeOption_frame e _ op v
  · split <;> exact ⟨rfl, rfl⟩

theorem execute_option_frame (e : Engine) {target : Target} (h : target.kind ≠ .environment)
    (op : Operator) (v : Text) :
    (e.execute target op v).1.registry = e.registry ∧
      (e.execute target op v).1.table = e.table := by
  unfold execute
  split
  · rename_i hk
    exact absurd hk h
  · exact applyOption_frame e _ _ op v true
  · exact applyOption_frame e _ _ op v true
  · have hl := applyOption_frame e .local target.name op v false
    split
    · rename_i e' he
      rw [he] at hl
      have hg := applyOption_frame e' .global target.name op v true
      exact ⟨hg.1.trans hl.1, hg.2.trans hl.2⟩
    · rename_i e' f he
      rw [he] at hl
      exact hl

theorem step_execute (h : e.table.kind = .ofMemory) (target : Target) (op : Operator) (v : Text) :
    Step e (e.execute target op v).1 := by
  by_cases hk : target.kind = .environment
  · simp only [execute, hk]
    split
    · exact step_appendVariable h target.name v
    · exact step_setVariable h target.name v
  · obtain ⟨hg, ht⟩ := execute_option_frame e hk op v
    exact .idle hg ht

theorem step_assign (h : e.table.kind = .ofMemory) (t : Text) : Step e (e.assign t).1 := by
  unfold assign
  split
  · exact .idle rfl rfl
  · exact step_execute h _ _ _

theorem step_removeName (h : e.Regular) (name : Text) : Step e (e.removeName name).1 := by
  unfold removeName
  cases hf : e.registry.find? name with
  | none => exact .idle rfl rfl
  | some r =>
    have hr := (Registry.find?_mem hf).1
    have hr? := Registry.record?_of_mem h.sound hr
    cases hrem : r.removed with
    | true => simpa only [hrem, if_true] using Step.idle rfl rfl
    | false =>
      simp only [hrem, Bool.false_eq_true, if_false, discard, hr?, Registry.isLive_of_mem hr, if_true]
      cases hi : r.inherited with
      | true => exact .tombstone r hr hi rfl rfl
      | false => exact .erase r hr hi rfl rfl

end

abbrev Steps : Engine → Engine → Prop := Relation.ReflTransGen Step

theorem Steps.keep {I : Engine → Prop} (hI : ∀ e e', I e → Step e e' → I e') {e e' : Engine}
    (h : Steps e e') (he : I e) : I e' := by
  induction h with
  | refl => exact he
  | tail _ hs ih => exact hI _ _ ih hs

theorem regular_steps {e e' : Engine} (h : Steps e e') (he : e.Regular) : e'.Regular :=
  h.keep (fun _ _ => regular_step) he

section
variable {e : Engine}

theorem steps_removeTokens (h : e.Regular) (tokens : List (Except ParseError Text)) :
    Steps e (e.removeTokens tokens).1 := by
  induction tokens generalizing e with
  | nil => exact .refl
  | cons token tokens ih =>
    cases token with
    | error p => exact ih h
    | ok name =>
      have hs := step_removeName h name
      have ht := ih (regular_step h hs)
      cases hr : e.removeName name with
      | mk e' answer =>
        rw [hr] at hs ht
        cases answer with
        | ok own => simpa only [removeTokens, hr] using ht.head hs
        | error x => simpa only [removeTokens, hr] using ht.head hs

theorem steps_remove (h : e.Regular) (t : Text) : Steps e (e.remove t).1 := by
  have ht := steps_removeTokens h (Removal.read e.nameMax t).tokens
  simp only [remove]
  split
  · exact ht
  · exact ht.tail (.idle rfl rfl)

theorem steps_perform (h : e.Regular) (s : Statement) : Steps e (e.perform s) := by
  cases s with
  | assign t => exact .single (step_assign h.memory t)
  | remove t => exact steps_remove h t

theorem steps_run (h : e.Regular) (ss : List Statement) : Steps e (e.run ss) := by
  induction ss generalizing e with
  | nil => exact .refl
  | cons s ss ih =>
    have hs := steps_perform h s
    exact hs.trans (ih (regular_steps hs h))

end

end Engine

end LetShell
