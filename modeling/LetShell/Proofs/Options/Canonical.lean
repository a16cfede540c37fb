import LetShell.Proofs.Options.Proper
import LetShell.Proofs.Options.Twins

/-!
# Stores with proper values

A store whose options are declared with proper values holds no others later:
names stand once in a scope, so a change reaches the one definition it was made
for, and a rejected change leaves the value that it found.
-/

set_option autoImplicit false

namespace LetShell

/-- A declaration whose value is proper from the start. -/
structure Declaration.Canonical (d : Declaration) : Prop where
  proper : d.type.Holds d.values d.value
  told : d.type = .enum ∨ d.type = .set → Text.Listed d.values

namespace OptionStore

structure Valued (s : OptionStore) : Prop where
  names : ∀ scope, ((s.partition scope).map (·.name)).Nodup
  proper : ∀ scope, ∀ d ∈ s.partition scope, d.Proper
  told : ∀ scope, ∀ d ∈ s.partition scope, d.Told

theorem valued_empty : empty.Valued := by
  constructor <;> intro scope <;> cases scope <;> simp [partition, empty]

section
variable {s : OptionStore} {d : Definition}

theorem mem_of_lookup {scope : Scope} {name : Text} (h : s.lookup scope name = some d) :
    d ∈ s.partition scope :=
  List.mem_of_find?_eq_some h

theorem lookup_of_mem (h : s.Valued) (scope : Scope) (hd : d ∈ s.partition scope) :
    s.lookup scope d.name = some d := by
  cases hl : s.lookup scope d.name with
  | none =>
    have hno := List.find?_eq_none.mp hl d hd
    exact absurd (decide_eq_true rfl) hno
  | some g =>
    rw [List.inj_on_of_nodup_map (h.names scope) (mem_of_lookup hl) hd (lookup_name hl)]

theorem valued_assign (h : s.Valued) (hd : s.lookup d.scope d.name = some d) {v : OptionValue}
    (hv : (d.holding v).Proper) : (s.assign d.scope d.name v).Valued := by
  have hname : ∀ (scope : Scope) (x : Definition),
      (if scope = d.scope ∧ x.name = d.name then { x with value := v } else x).name = x.name := by
    intro scope x
    split <;> rfl
  constructor
  · intro scope
    rw [partition_assign, List.map_map]
    simpa only [Function.comp_def, hname] using h.names scope
  · intro scope y hy
    rw [partition_assign] at hy
    obtain ⟨x, hx, rfl⟩ := List.mem_map.mp hy
    split
    · rename_i hat
      obtain ⟨rfl, hxd⟩ := hat
      rw [List.inj_on_of_nodup_map (h.names d.scope) hx (mem_of_lookup hd) hxd]
      exact hv
    · exact h.proper scope x hx
  · intro scope y hy
    rw [partition_assign] at hy
    obtain ⟨x, hx, rfl⟩ := List.mem_map.mp hy
    split
    · exact h.told scope x hx
    · exact h.told scope x hx

theorem valued_change (h : s.Valued) (hd : s.lookup d.scope d.name = some d) (how : Change)
    (t : Text) : (s.change d how t).1.Valued := by
  have hm := mem_of_lookup hd
  unfold change
  split
  · rename_i v hv
    exact valued_assign h hd (Definition.proper_changed (h.proper _ d hm) (h.told _ d hm) hv)
  · exact h

theorem valued_steps {s' : OptionStore} (hs : Steps s s') (h : s.Valued) : s'.Valued := by
  induction hs with
  | refl => exact h
  | tail _ hstep ih =>
    cases hstep with
    | change d hd how t => exact valued_change ih hd how t

theorem mem_partition_insert {x : Definition} {scope : Scope}
    (hx : x ∈ (s.insert d).partition scope) : x ∈ s.partition scope ∨ x = d := by
  rw [partition_insert] at hx
  split at hx
  · rename_i hscope
    subst hscope
    rcases List.mem_append.mp hx with hx | hx
    · exact .inl (List.mem_filter.mp hx).1
    · exact .inr (List.mem_singleton.mp hx)
  · exact .inl hx

theorem valued_insert (h : s.Valued) (hp : d.Proper) (ht : d.Told) : (s.insert d).Valued := by
  constructor
  · intro scope
    rw [partition_insert]
    split
    · rw [List.map_append, List.nodup_append]
      refine ⟨(List.filter_sublist.map _).nodup (h.names d.scope), List.nodup_singleton _, ?_⟩
      rintro name hname _ hsame rfl
      obtain ⟨x, hx, rfl⟩ := List.mem_map.mp hname
      have hne : x.name ≠ d.name := by simpa using (List.mem_filter.mp hx).2
      exact hne (List.mem_singleton.mp hsame)
    · exact h.names scope
  · intro scope x hx
    rcases mem_partition_insert hx with hx | rfl
    · exact h.proper scope x hx
    · exact hp
  · intro scope x hx
    rcases mem_partition_insert hx with hx | rfl
    · exact h.told scope x hx
    · exact ht

theorem valued_define {s' : OptionStore} (h : s.Valued) {d : Declaration} (hc : d.Canonical)
    (hd : s.define d = .ok s') : s'.Valued := by
  have hglobal := valued_insert (d := d.definition .global) h hc.proper hc.told
  unfold define at hd
  split at hd
  · cases hd
  · cases hd
    cases hl : d.isLocal with
    | false => exact hglobal
    | true => exact valued_insert (d := d.definition .local) hglobal hc.proper hc.told

theorem valued_ofDeclarations {ds : List Declaration} (hc : ∀ d ∈ ds, d.Canonical)
    (h : ofDeclarations ds = .ok s) : s.Valued :=
  ofDeclarations_induction valued_empty (fun _ _ d hd hu hs => valued_define hu (hc d hd) hs) h

/-- Every local definition has a global twin that stands in the store with it. -/
theorem exists_global (ht : s.Twinned) (h : s.Valued) (hd : d ∈ s.locals) :
    ∃ g ∈ s.globals, g.name = d.name ∧ g.type = d.type ∧ g.values = d.values := by
  have hl : s.lookup .local d.name = some d := lookup_of_mem h .local hd
  obtain ⟨g, hg, htype, hvalues⟩ := ht.twin d.name d hl
  have hm : g ∈ s.partition .global := mem_of_lookup hg
  exact ⟨g, hm, lookup_name hg, htype, hvalues⟩

end

theorem canonical_standard : ∀ d ∈ standardDeclarations, d.Canonical := by
  have hset : Text.Listed [['f'], ['s']] := by decide
  have hlist : Text.Listed ["tags".toList] := by decide
  simp only [standardDeclarations, List.forall_mem_cons]
  refine ⟨⟨.bool true, by decide⟩, ⟨.string _, by decide⟩, ⟨.int 8, by decide⟩,
    ⟨.enum (by decide), by decide⟩, ⟨.set hset (by decide), by decide⟩,
    ⟨.stringList hlist, by decide⟩, ⟨.int 15, by decide⟩,
    ⟨.string [], by decide⟩, ?_⟩
  intro d hd
  cases hd

end OptionStore

end LetShell
