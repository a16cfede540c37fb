import LetShell.Proofs.Engine.Replay

/-!
# Regularity along a history

Only statements and teardowns write to the table, and neither makes it refuse
what it took before. An engine over a private table stays regular whatever is
done to it.
-/

set_option autoImplicit false

namespace LetShell.Engine

section
variable (e : Engine)

theorem table_obtain (name : Text) : (e.obtain name).1.table = e.table := by
  unfold obtain
  split
  · rfl
  · split <;> rfl

theorem table_discard (serial : Nat) : (e.discard serial).table = e.table := by
  unfold discard
  split
  · rfl
  · split
    · rfl
    · split <;> rfl

theorem table_inherit (entry : Text) : (e.inherit entry).1.table = e.table := by
  unfold inherit
  split
  · rfl
  · rename_i name value _
    have h := table_obtain e (Text.upTo e.nameMax name)
    simp only
    split <;> rename_i ho <;> rw [ho] at h <;> exact h

theorem table_inheritAll (entries : List Text) : (e.inheritAll entries).1.table = e.table := by
  induction entries generalizing e with
  | nil => rfl
  | cons entry entries ih => exact (ih _).trans (table_inherit e entry)

theorem kind_restore (t : Table) (rs : List Record) : (restore t rs).1.kind = t.kind := by
  induction rs generalizing t with
  | nil => rfl
  | cons r rs ih =>
    unfold restore
    split
    · split
      · rename_i u hu
        exact (ih u).trans (Table.kind_set hu)
      · rfl
    · exact ih _

end

section
variable {e : Engine}

theorem memory_act (h : e.Regular) (a : Action) : (e.act a).table.kind = .ofMemory := by
  cases a with
  | statement s => exact (regular_steps (steps_perform h s) h).memory
  | start => exact (congrArg Table.kind (table_inheritAll e _)).trans h.memory
  | bootstrap entries => exact (congrArg Table.kind (table_inheritAll e entries)).trans h.memory
  | teardown =>
    rw [act, table_teardown, kind_restore]
    exact h.memory
  | obtain name => exact (congrArg Table.kind (table_obtain e name)).trans h.memory
  | discard serial => exact (congrArg Table.kind (table_discard e serial)).trans h.memory
  | refuse names => exact h.memory
  | define d =>
    unfold act
    simp only
    split <;> exact h.memory
  | change scope name how t =>
    unfold act
    simp only
    split <;> exact h.memory
  | words ws => exact h.memory

theorem regular_acts (h : e.Regular) (as : List Action) : (e.acts as).Regular := by
  induction as generalizing e with
  | nil => exact h
  | cons a as ih => exact ih ⟨(accounts_act e a h.sound).1, memory_act h a⟩

end

end LetShell.Engine
