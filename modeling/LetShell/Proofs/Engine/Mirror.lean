import LetShell.Proofs.Engine.Startup

/-!
# The mirror

If every name of the table is given a record at startup, the table is from
then on the map of the visible records, each under its own name: after every
statement, whether it succeeded or not, and whatever names are refused a record
in between. So the names that complete a bare `$` are those of the table.
-/

set_option autoImplicit false

namespace LetShell

namespace Registry

section
variable {g : Registry} {r : Record} {n v w : Text}

theorem mem_items : (n, v) ∈ g.items ↔
    ∃ r ∈ g.records, r.removed = false ∧ r.name = n ∧ r.value = v := by
  simp only [items, visible, List.mem_map, List.mem_filter, Bool.not_eq_true', Prod.mk.injEq,
    and_assoc]

theorem items_names_nodup (h : g.Sound) : (g.items.map Prod.fst).Nodup := by
  have hnames : (g.records.map (·.name)).Nodup := by
    apply List.Nodup.of_map g.key
    rw [List.map_map]
    exact h.keys
  rw [items, List.map_map]
  exact (List.filter_sublist.map _).nodup hnames

theorem names_nil (g : Registry) : g.names [] = g.items.map Prod.fst := by
  have hkey : g.key [] = [] := by
    unfold key
    split <;> rfl
  rw [names, hkey, items, List.map_map]
  exact List.filter_eq_self.mpr fun _ _ => rfl

theorem mem_items_holding (h : g.Sound) (hr : r ∈ g.records) :
    (n, w) ∈ (g.modify r.serial (Record.holding v)).items ↔
      if n = r.name then w = v else (n, w) ∈ g.items := by
  simp only [mem_items, mem_records_modify h hr]
  split
  · rename_i hn
    constructor
    · rintro ⟨x, rfl | ⟨hx, hxr⟩, -, hxn, hxv⟩
      · exact hxv.symm
      · exact absurd (eq_of_name h hx hr (hxn.trans hn)) hxr
    · rintro rfl
      exact ⟨_, .inl rfl, rfl, hn.symm, rfl⟩
  · rename_i hn
    constructor
    · rintro ⟨x, rfl | ⟨hx, -⟩, hrem, hxn, hxv⟩
      · exact absurd hxn.symm hn
      · exact ⟨x, hx, hrem, hxn, hxv⟩
    · rintro ⟨x, hx, hrem, hxn, hxv⟩
      exact ⟨x, .inr ⟨hx, fun hxr => hn (by rw [← hxn, hxr])⟩, hrem, hxn, hxv⟩

theorem mem_items_add (h : g.Sound) (hn : g.find? n = none) {m : Text} :
    (m, w) ∈ ((g.add n).modify g.next (Record.holding v)).items ↔
      if m = n then w = v else (m, w) ∈ g.items := by
  simp only [mem_items, mem_records_add_modify h hn]
  split
  · rename_i hm
    constructor
    · rintro ⟨x, rfl | hx, -, hxn, hxv⟩
      · exact hxv.symm
      · exact absurd (congrArg g.key (hxn.trans hm)) (find?_eq_none_iff.mp hn x hx)
    · rintro rfl
      exact ⟨_, .inl rfl, rfl, hm.symm, rfl⟩
  · rename_i hm
    constructor
    · rintro ⟨x, rfl | hx, hrem, hxn, hxv⟩
      · exact absurd hxn.symm hm
      · exact ⟨x, hx, hrem, hxn, hxv⟩
    · rintro ⟨x, hx, hrem, hxn, hxv⟩
      exact ⟨x, .inr hx, hrem, hxn, hxv⟩

theorem mem_items_tombstoned (h : g.Sound) (hr : r ∈ g.records) :
    (n, w) ∈ (g.modify r.serial Record.tombstoned).items ↔ n ≠ r.name ∧ (n, w) ∈ g.items := by
  simp only [mem_items, mem_records_modify h hr]
  constructor
  · rintro ⟨x, rfl | ⟨hx, hxr⟩, hrem, hxn, hxv⟩
    · cases hrem
    · exact ⟨fun hn => hxr (eq_of_name h hx hr (hxn.trans hn)), x, hx, hrem, hxn, hxv⟩
  · rintro ⟨hn, x, hx, hrem, hxn, hxv⟩
    exact ⟨x, .inr ⟨hx, fun hxr => hn (by rw [← hxn, hxr])⟩, hrem, hxn, hxv⟩

theorem mem_items_erase (h : g.Sound) (hr : r ∈ g.records) :
    (n, w) ∈ (g.erase r.serial).items ↔ n ≠ r.name ∧ (n, w) ∈ g.items := by
  simp only [mem_items, mem_records_erase h hr]
  constructor
  · rintro ⟨x, ⟨hx, hxr⟩, hrem, hxn, hxv⟩
    exact ⟨fun hn => hxr (eq_of_name h hx hr (hxn.trans hn)), x, hx, hrem, hxn, hxv⟩
  · rintro ⟨hn, x, hx, hrem, hxn, hxv⟩
    exact ⟨x, ⟨hx, fun hxr => hn (by rw [← hxn, hxr])⟩, hrem, hxn, hxv⟩

end

end Registry

namespace Engine

/-- The table holds what the visible records hold. -/
structure Mirrored (e : Engine) : Prop where
  regular : e.Regular
  agrees : ∀ n v, e.table.get? n = some v ↔ (n, v) ∈ e.registry.items

section
variable {e e' : Engine}

theorem mirrored_start (h : e.Startup)
    (ha : ∀ p ∈ e.table.pairs, e.registry.refuses p.1 = false) : e.start.Mirrored := by
  have hl := loaded_start h
  apply Mirrored.mk (regular_start h)
  intro n v
  have hget : e.start.table.get? n = some v ↔ (n, v) ∈ e.table.pairs := by
    rw [hl.table]
    exact Table.valueOf_eq_some_iff (names_nodup h)
  rw [hget, Registry.mem_items]
  constructor
  · intro hp
    have hna : e.start.registry.refuses n = false := by
      rw [Registry.refuses, hl.refused]
      exact ha (n, v) hp
    obtain ⟨r, hr, hrn, hrv⟩ := hl.found (n, v) hp hna
    obtain ⟨-, hrem, hval, -⟩ := hl.inherited r hr
    exact ⟨r, hr, hrem, hrn, hval.trans hrv⟩
  · rintro ⟨r, hr, -, rfl, rfl⟩
    obtain ⟨-, -, hval, hp⟩ := hl.inherited r hr
    rw [hval]
    exact hp

theorem mirrored_step (h : e.Mirrored) (hs : Step e e') : e'.Mirrored := by
  have hsound := h.regular.sound
  apply Mirrored.mk (regular_step h.regular hs)
  intro n w
  cases hs with
  | idle hg ht =>
    rw [hg, ht]
    exact h.agrees n w
  | write r v hr hg ht =>
    rw [Table.get?_set ht, hg, Registry.mem_items_holding hsound hr]
    split
    · exact ⟨fun hv => (Option.some.inj hv).symm, fun hv => congrArg some hv.symm⟩
    · exact h.agrees n w
  | create name v hn ha hg ht =>
    rw [Table.get?_set ht, hg, Registry.mem_items_add hsound hn]
    split
    · exact ⟨fun hv => (Option.some.inj hv).symm, fun hv => congrArg some hv.symm⟩
    · exact h.agrees n w
  | erase r hr hi hg ht =>
    rw [ht, Table.get?_unset, hg, Registry.mem_items_erase hsound hr]
    split
    · simp [*]
    · simp [*, h.agrees n w]
  | tombstone r hr hi hg ht =>
    rw [ht, Table.get?_unset, hg, Registry.mem_items_tombstoned hsound hr]
    split
    · simp [*]
    · simp [*, h.agrees n w]

theorem mirrored_refusing (h : e.Mirrored) (names : List Text) : (e.refusing names).Mirrored :=
  ⟨⟨⟨h.regular.sound.serials, h.regular.sound.bound, h.regular.sound.keys⟩, h.regular.memory⟩,
    h.agrees⟩

theorem mirrored_runRefusing (h : e.Mirrored) (ss : List (List Text × Statement)) :
    (e.runRefusing ss).Mirrored := by
  induction ss generalizing e with
  | nil => exact h
  | cons s ss ih =>
    have hr := mirrored_refusing h s.1
    exact ih ((steps_perform hr.regular s.2).keep (fun _ _ => mirrored_step) hr)

theorem complete_sigil (e : Engine) :
    (e.complete ['$']).groups.flatten = e.registry.items.map Prod.fst := by
  rw [← Registry.names_nil]
  exact List.append_nil _

/-- After startup and any statements, each with its own names that are refused
a record, the table is the map of the visible records. It is also what the
registry lists, no name twice, and what completes a bare sigil. -/
theorem table_mirrors_records {e : Engine} (h : e.Startup)
    (ha : ∀ p ∈ e.table.pairs, e.registry.refuses p.1 = false)
    (ss : List (List Text × Statement)) :
    (∀ n v, (e.start.runRefusing ss).table.get? n = some v ↔
      ∃ r ∈ (e.start.runRefusing ss).registry.records,
        r.removed = false ∧ r.name = n ∧ r.value = v) ∧
    (∀ n v, (e.start.runRefusing ss).table.get? n = some v ↔
      (n, v) ∈ (e.start.runRefusing ss).registry.items) ∧
    ((e.start.runRefusing ss).registry.items.map Prod.fst).Nodup ∧
    ((e.start.runRefusing ss).complete ['$']).groups.flatten.Nodup ∧
    (∀ n, n ∈ ((e.start.runRefusing ss).complete ['$']).groups.flatten ↔
      (e.start.runRefusing ss).table.get? n ≠ none) := by
  have hm := mirrored_runRefusing (mirrored_start h ha) ss
  have hnodup := Registry.items_names_nodup hm.regular.sound
  refine ⟨?_, hm.agrees, hnodup, ?_, ?_⟩
  · intro n v
    rw [hm.agrees, Registry.mem_items]
  · rw [complete_sigil]
    exact hnodup
  · intro n
    rw [complete_sigil, List.mem_map, Option.ne_none_iff_exists']
    constructor
    · rintro ⟨⟨m, v⟩, hp, rfl⟩
      exact ⟨v, (hm.agrees m v).mpr hp⟩
    · rintro ⟨v, hv⟩
      exact ⟨(n, v), (hm.agrees n v).mp hv, rfl⟩

theorem table_mirrors_records_sample :
    (sample []).Startup ∧
      (∀ p ∈ (sample []).table.pairs, (sample []).registry.refuses p.1 = false) ∧
      (((sample []).start.runRefusing
        [([], .assign "$path .= ':x'".toList), (["tmp".toList], .assign "$tmp = 1".toList),
          ([], .assign "$tmp = 2".toList), ([], .remove "$HOME $TMP".toList),
          (["TMP".toList], .assign "$TMP = 3".toList)]).registry.items.map Prod.fst).Nodup := by
  have h : (sample []).Startup := by decide
  have ha : ∀ p ∈ (sample []).table.pairs, (sample []).registry.refuses p.1 = false := by decide
  exact ⟨h, ha, (table_mirrors_records h ha _).2.2.1⟩

end

end Engine

end LetShell
