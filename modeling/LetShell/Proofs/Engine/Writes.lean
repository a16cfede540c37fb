import Mathlib.Logic.Relation
import LetShell.Proofs.Engine.Regularity

/-!
# What reaches the table

An engine changes its table by writes that the table takes and by removals, and
in no other way. What these keep, every history of an engine keeps. The table of
a process never comes to hold a value with a null character.
-/

set_option autoImplicit false

namespace LetShell

namespace Table

inductive Write (t : Table) : Table → Prop where
  | set {u : Table} (name value : Text) (h : t.set name value = .ok u) : Write t u
  | unset (name : Text) : Write t (t.unset name)

abbrev Writes : Table → Table → Prop := Relation.ReflTransGen Write

/-- The table of a process, whose values have no null character. -/
structure Strict (t : Table) : Prop where
  process : t.kind = .ofProcess
  clean : ∀ name value, t.get? name = some value → '\x00' ∉ value

section
variable {t u : Table}

theorem objection_ofProcess (h : t.kind = .ofProcess) (name value : Text) :
    t.objection name value =
      if '\x00' ∈ name ∨ '\x00' ∈ value then some .embeddedNul
      else if '=' ∈ name then some .illegalName
      else if name = [] then some .emptyName
      else none := by
  rw [objection, h]

theorem value_of_set (h : t.kind = .ofProcess) {name value : Text}
    (hset : t.set name value = .ok u) : '\x00' ∉ value := by
  intro hv
  rw [set, objection_ofProcess h, if_pos (.inr hv)] at hset
  cases hset

theorem strict_write (h : t.Strict) (hs : Write t u) : u.Strict := by
  cases hs with
  | set name value hset =>
    refine ⟨(kind_set hset).trans h.process, ?_⟩
    intro n v hv
    rw [get?_set hset] at hv
    split at hv
    · cases hv
      exact value_of_set h.process hset
    · exact h.clean n v hv
  | unset name =>
    refine ⟨h.process, ?_⟩
    intro n v hv
    rw [get?_unset] at hv
    split at hv
    · cases hv
    · exact h.clean n v hv

theorem strict_writes (h : t.Strict) (hs : Writes t u) : u.Strict := by
  induction hs with
  | refl => exact h
  | tail _ hs ih => exact strict_write ih hs

theorem writes_foldlM {ps : List (Text × Text)}
    (h : ps.foldlM (fun t p => t.set p.1 p.2) t = .ok u) : Writes t u := by
  induction ps generalizing t with
  | nil =>
    cases h
    exact .refl
  | cons p ps ih =>
    rw [List.foldlM_cons] at h
    cases hp : t.set p.1 p.2 with
    | error f =>
      rw [hp] at h
      cases h
    | ok t' =>
      rw [hp] at h
      exact (ih h).head (.set p.1 p.2 hp)

theorem strict_ofPairs {ps : List (Text × Text)} (h : ofPairs .ofProcess ps = .ok t) : t.Strict :=
  strict_writes ⟨rfl, by rintro name value ⟨⟩⟩ (writes_foldlM h)

end

end Table

namespace Engine
open Table

section
variable (e : Engine)

theorem writes_store (r : Record) (v message : Text) :
    Writes e.table (e.store r v message).1.table := by
  unfold store
  simp only
  split
  · exact .refl
  · rename_i u hu
    exact .single (.set r.name v hu)

theorem writes_setVariable (name v : Text) : Writes e.table (e.setVariable name v).1.table := by
  have hobtain := table_obtain e name
  unfold setVariable
  split <;> rename_i ho <;> rw [ho] at hobtain
  · rw [note_table, hobtain]
  · rw [← hobtain]
    exact writes_store _ _ v _

theorem writes_appendVariable (name v : Text) :
    Writes e.table (e.appendVariable name v).1.table := by
  unfold appendVariable
  split
  · exact writes_setVariable e name v
  · split
    · exact writes_setVariable e name v
    · exact writes_store e _ _ _

theorem writes_execute (target : Target) (op : Operator) (v : Text) :
    Writes e.table (e.execute target op v).1.table := by
  by_cases hk : target.kind = .environment
  · simp only [execute, hk]
    split
    · exact writes_appendVariable e target.name v
    · exact writes_setVariable e target.name v
  · rw [(execute_option_frame e hk op v).2]

theorem writes_assign (t : Text) : Writes e.table (e.assign t).1.table := by
  unfold assign
  split
  · exact .refl
  · exact writes_execute e _ _ _

theorem writes_removeName (name : Text) : Writes e.table (e.removeName name).1.table := by
  unfold removeName
  split
  · exact .refl
  · rename_i r _
    split
    · exact .refl
    · rw [← table_discard e r.serial]
      exact .single (.unset r.name)

theorem writes_removeTokens (tokens : List (Except ParseError Text)) :
    Writes e.table (e.removeTokens tokens).1.table := by
  induction tokens generalizing e with
  | nil => exact .refl
  | cons token tokens ih =>
    cases token with
    | error p => exact ih e
    | ok name =>
      have hone := writes_removeName e name
      unfold removeTokens
      split <;> rename_i hr <;> rw [hr] at hone <;> exact hone.trans (ih _)

theorem writes_remove (t : Text) : Writes e.table (e.remove t).1.table := by
  have htokens := writes_removeTokens e (Removal.read e.nameMax t).tokens
  simp only [remove]
  split <;> exact htokens

theorem writes_restore (t : Table) (rs : List Record) : Writes t (restore t rs).1 := by
  induction rs generalizing t with
  | nil => exact .refl
  | cons r rs ih =>
    unfold restore
    split
    · split
      · rename_i u hu
        exact (ih u).head (.set r.name r.initial hu)
      · exact .refl
    · exact (ih _).head (.unset r.name)

theorem writes_act (a : Action) : Writes e.table (e.act a).table := by
  have hstill : ∀ {e' : Engine}, e'.table = e.table → Writes e.table e'.table := by
    intro e' h
    rw [h]
  cases a with
  | statement s =>
    cases s with
    | assign t => exact writes_assign e t
    | remove t => exact writes_remove e t
  | start => exact hstill (table_inheritAll e _)
  | bootstrap entries => exact hstill (table_inheritAll e entries)
  | teardown =>
    rw [act, table_teardown]
    exact writes_restore e.table _
  | obtain name => exact hstill (table_obtain e name)
  | discard serial => exact hstill (table_discard e serial)
  | refuse names => exact .refl
  | define d =>
    unfold act
    simp only
    split <;> exact .refl
  | change scope name how t =>
    unfold act
    simp only
    split <;> exact .refl
  | words ws => exact .refl

theorem writes_acts (as : List Action) : Writes e.table (e.acts as).table := by
  induction as generalizing e with
  | nil => exact .refl
  | cons a as ih => exact (writes_act e a).trans (ih _)

end

end Engine

end LetShell
