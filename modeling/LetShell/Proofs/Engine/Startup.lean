import LetShell.Proofs.Engine.Step

/-!
# Startup

A new engine over a private table loads the pairs of the table one by one. If
it can tell all names apart and cuts none of them short, each pair ends up in
an inherited record of its own, except where the record could not be made.
The table is only read.
-/

set_option autoImplicit false

namespace LetShell

def Record.loaded (value : Text) (r : Record) : Record :=
  { r with inherited := true, initial := value, value := value }

theorem Record.gentle_loaded (value : Text) : Registry.Gentle (Record.loaded value) :=
  fun _ => ⟨rfl, rfl⟩

namespace Engine

/-- A new engine over a private table whose names it keeps as they are and
tells apart. -/
structure Startup (e : Engine) : Prop where
  new : e.registry = .empty e.registry.caseSensitive e.registry.refused
  memory : e.table.kind = .ofMemory
  named : ∀ p ∈ e.table.pairs, p.1 ≠ []
  plain : ∀ p ∈ e.table.pairs, '=' ∉ p.1
  short : ∀ p ∈ e.table.pairs, (p.1.length : Int) ≤ e.nameMax
  distinct : e.table.pairs.Pairwise fun p q => e.registry.key p.1 ≠ e.registry.key q.1

instance (e : Engine) : Decidable e.Startup :=
  decidable_of_iff
    (e.registry = .empty e.registry.caseSensitive e.registry.refused ∧
      e.table.kind = .ofMemory ∧ (∀ p ∈ e.table.pairs, p.1 ≠ []) ∧
      (∀ p ∈ e.table.pairs, '=' ∉ p.1) ∧
      (∀ p ∈ e.table.pairs, (p.1.length : Int) ≤ e.nameMax) ∧
      e.table.pairs.Pairwise fun p q => e.registry.key p.1 ≠ e.registry.key q.1)
    ⟨fun ⟨h1, h2, h3, h4, h5, h6⟩ => ⟨h1, h2, h3, h4, h5, h6⟩,
      fun ⟨h1, h2, h3, h4, h5, h6⟩ => ⟨h1, h2, h3, h4, h5, h6⟩⟩

def sample (refused : List Text) : Engine :=
  .ofParts ⟨.ofMemory, [("PATH".toList, "/bin".toList), ("Home".toList, "/root".toList),
    ("LANG".toList, "C".toList)]⟩ .standard false 8 refused

/-- The engine `e` after some pairs have been loaded into `e₀`. -/
structure Loaded (e₀ : Engine) (done : List (Text × Text)) (e : Engine) : Prop where
  sound : e.registry.Sound
  table : e.table = e₀.table
  nameMax : e.nameMax = e₀.nameMax
  caseSensitive : e.registry.caseSensitive = e₀.registry.caseSensitive
  refused : e.registry.refused = e₀.registry.refused
  inherited : ∀ r ∈ e.registry.records, r.inherited = true ∧ r.removed = false ∧
    r.value = r.initial ∧ (r.name, r.initial) ∈ done
  found : ∀ p ∈ done, e.registry.refuses p.1 = false →
    ∃ r ∈ e.registry.records, r.name = p.1 ∧ r.initial = p.2

theorem names_nodup {e : Engine} (h : e.Startup) : (e.table.pairs.map Prod.fst).Nodup := by
  rw [List.nodup_iff_pairwise_ne, List.pairwise_map]
  exact h.distinct.imp fun hk he => hk (congrArg e.registry.key he)

theorem entry?_append {name : Text} (hn : name ≠ []) (hp : '=' ∉ name) (value : Text) :
    entry? (name ++ '=' :: value) = some (name, value) := by
  simp [Text.cutAt_append hp, hn, entry?]

section
variable {e₀ e : Engine} {done : List (Text × Text)}

theorem loaded_new (h : e₀.Startup) : Loaded e₀ [] e₀ := by
  have hr : e₀.registry.records = [] := by
    rw [h.new]
    rfl
  refine ⟨?_, rfl, rfl, rfl, rfl, ?_, ?_⟩
  · rw [h.new]
    exact Registry.sound_empty _ _
  · simp [hr]
  · simp

theorem key_eq (h : Loaded e₀ done e) : e.registry.key = e₀.registry.key :=
  Registry.key_congr h.caseSensitive

theorem loaded_inherit (h : Loaded e₀ done e) {p : Text × Text} (hn : p.1 ≠ [])
    (hp : '=' ∉ p.1) (hs : (p.1.length : Int) ≤ e₀.nameMax)
    (hd : ∀ q ∈ done, e₀.registry.key q.1 ≠ e₀.registry.key p.1) :
    Loaded e₀ (done ++ [p]) (e.inherit (p.1 ++ '=' :: p.2)).1 := by
  have hfind : e.registry.find? p.1 = none := by
    apply Registry.find?_eq_none_iff.mpr
    intro r hr hk
    rw [key_eq h] at hk
    exact hd _ (h.inherited r hr).2.2.2 hk
  have hup : Text.upTo e.nameMax p.1 = p.1 :=
    Text.upTo_of_length_le (by rw [h.nameMax]; exact hs)
  simp only [inherit, entry?_append hn hp, hup, obtain, hfind]
  cases hr : e.registry.refuses p.1 with
  | true =>
    refine ⟨h.sound, h.table, h.nameMax, h.caseSensitive, h.refused, ?_, ?_⟩
    · intro r hm
      obtain ⟨h1, h2, h3, h4⟩ := h.inherited r hm
      exact ⟨h1, h2, h3, List.mem_append_left _ h4⟩
    · intro q hq hnot
      rcases List.mem_append.mp hq with hq | hq
      · exact h.found q hq hnot
      · rw [List.mem_singleton.mp hq] at hnot
        exact absurd (hr.symm.trans hnot) (by decide)
  | false =>
    have hmem := fun r => Registry.mem_records_add_modify h.sound hfind (Record.loaded p.2) (x := r)
    have hsound := Registry.sound_modify (Registry.sound_add h.sound hfind) e.registry.next
      (Record.gentle_loaded p.2)
    refine ⟨hsound, h.table, h.nameMax, h.caseSensitive, h.refused, ?_, ?_⟩
    · intro r hm
      rcases (hmem r).mp hm with rfl | hm
      · exact ⟨rfl, rfl, rfl, List.mem_append_right _ (List.mem_singleton.mpr rfl)⟩
      · obtain ⟨h1, h2, h3, h4⟩ := h.inherited r hm
        exact ⟨h1, h2, h3, List.mem_append_left _ h4⟩
    · intro q hq hnot
      rcases List.mem_append.mp hq with hq | hq
      · obtain ⟨r, hm, hrq⟩ := h.found q hq hnot
        exact ⟨r, (hmem _).mpr (.inr hm), hrq⟩
      · rw [List.mem_singleton.mp hq]
        exact ⟨_, (hmem _).mpr (.inl rfl), rfl, rfl⟩

theorem loaded_inheritAll (h₀ : e₀.Startup) (h : Loaded e₀ done e) {todo : List (Text × Text)}
    (ht : done ++ todo = e₀.table.pairs) :
    Loaded e₀ (done ++ todo) (e.inheritAll (todo.map fun p => p.1 ++ '=' :: p.2)).1 := by
  induction todo generalizing done e with
  | nil => simpa [inheritAll] using h
  | cons p todo ih =>
    have hp : p ∈ e₀.table.pairs := ht ▸ List.mem_append_right _ (List.mem_cons_self ..)
    have hd : ∀ q ∈ done, e₀.registry.key q.1 ≠ e₀.registry.key p.1 := by
      intro q hq
      have hall := h₀.distinct
      rw [← ht, List.pairwise_append] at hall
      exact hall.2.2 q hq p (List.mem_cons_self ..)
    have hone := loaded_inherit h (h₀.named p hp) (h₀.plain p hp) (h₀.short p hp) hd
    have happ : done ++ [p] ++ todo = done ++ p :: todo := by simp
    have hrest := ih hone (happ.trans ht)
    rw [happ] at hrest
    simpa only [List.map_cons, inheritAll] using hrest

theorem loaded_start (h : e.Startup) : Loaded e e.table.pairs e.start := by
  have hall := loaded_inheritAll h (loaded_new h) (List.nil_append e.table.pairs)
  exact ⟨hall.sound, hall.table, hall.nameMax, hall.caseSensitive, hall.refused, hall.inherited,
    hall.found⟩

theorem regular_start (h : e.Startup) : e.start.Regular :=
  ⟨(loaded_start h).sound, (loaded_start h).table ▸ h.memory⟩

end

end Engine

end LetShell
