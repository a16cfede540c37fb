import LetShell.Proofs.Engine.Startup

/-!
# Restoration

However the records of an engine have been changed, teardown gives the table
back as it was at startup. Each live record still knows what its name stood
for at startup, a name without a record has not been touched, and a name that
stood for something never loses its record. The names that could not be given
a record are the same throughout: such a name is left alone to the end.
-/

set_option autoImplicit false

namespace LetShell

/-- What the name of a record stood for at startup. -/
def Record.origin (r : Record) : Option Text := if r.inherited then some r.initial else none

namespace Engine

/-- The engine still knows all that the table `t` held. -/
structure Restorable (t : Table) (e : Engine) : Prop where
  regular : e.Regular
  origin : ∀ r ∈ e.registry.records, t.get? r.name = r.origin
  others : ∀ n, (∀ r ∈ e.registry.records, r.name ≠ n) → e.table.get? n = t.get? n
  kept : ∀ n, t.get? n ≠ none → e.registry.refuses n = false →
    ∃ r ∈ e.registry.records, r.name = n

section
variable {e : Engine}

theorem restorable_start (h : e.Startup) : Restorable e.table e.start := by
  have hl := loaded_start h
  have hget : ∀ n v, e.table.get? n = some v ↔ (n, v) ∈ e.table.pairs :=
    fun _ _ => Table.valueOf_eq_some_iff (names_nodup h)
  apply Restorable.mk (regular_start h)
  · intro r hr
    obtain ⟨hi, -, -, hp⟩ := hl.inherited r hr
    rw [Record.origin, hi, if_pos rfl]
    exact (hget _ _).mpr hp
  · intro n _
    rw [hl.table]
  · intro n hn ha
    obtain ⟨v, hv⟩ := Option.ne_none_iff_exists'.mp hn
    obtain ⟨r, hr, hrn, -⟩ := hl.found (n, v) ((hget n v).mp hv) ha
    exact ⟨r, hr, hrn⟩

end

section
variable {t : Table} {e e' : Engine} {r : Record}

/-- A record may be changed, and its name in the table with it, as long as it
keeps its name and what that stood for. -/
theorem restorable_replace (h : Restorable t e) (hs : Step e e') (hr : r ∈ e.registry.records)
    {f : Record → Record} (hname : (f r).name = r.name) (horigin : (f r).origin = r.origin)
    (hg : e'.registry = e.registry.modify r.serial f)
    (ht : ∀ n, n ≠ r.name → e'.table.get? n = e.table.get? n) : Restorable t e' := by
  have hmem : ∀ x, x ∈ e'.registry.records ↔ x = f r ∨ x ∈ e.registry.records ∧ x ≠ r := by
    intro x
    rw [hg]
    exact Registry.mem_records_modify h.regular.sound hr f
  have hnames : ∀ x ∈ e.registry.records, ∃ y ∈ e'.registry.records, y.name = x.name := by
    intro x hx
    by_cases hxr : x = r
    · exact ⟨f r, (hmem _).mpr (.inl rfl), by rw [hname, hxr]⟩
    · exact ⟨x, (hmem _).mpr (.inr ⟨hx, hxr⟩), rfl⟩
  apply Restorable.mk (regular_step h.regular hs)
  · intro x hx
    rcases (hmem x).mp hx with rfl | ⟨hx, -⟩
    · rw [hname, horigin]
      exact h.origin r hr
    · exact h.origin x hx
  · intro n hn
    have hold : ∀ x ∈ e.registry.records, x.name ≠ n := by
      intro x hx hxn
      obtain ⟨y, hy, hyx⟩ := hnames x hx
      exact hn y hy (hyx.trans hxn)
    rw [ht n (hold r hr).symm]
    exact h.others n hold
  · intro n hn ha
    rw [hg] at ha
    obtain ⟨x, hx, hxn⟩ := h.kept n hn ha
    obtain ⟨y, hy, hyx⟩ := hnames x hx
    exact ⟨y, hy, hyx.trans hxn⟩

theorem restorable_step (h : Restorable t e) (hs : Step e e') : Restorable t e' := by
  cases id hs with
  | idle hg ht =>
    apply Restorable.mk (regular_step h.regular hs)
    · rw [hg]
      exact h.origin
    · rw [hg, ht]
      exact h.others
    · rw [hg]
      exact h.kept
  | write r v hr hg ht =>
    apply restorable_replace h hs hr rfl rfl hg
    intro n hn
    rw [Table.get?_set ht, if_neg hn]
  | tombstone r hr hi hg ht =>
    apply restorable_replace h hs hr rfl rfl hg
    intro n hn
    rw [ht, Table.get?_unset, if_neg hn]
  | create name v hn ha hg ht =>
    have hmem : ∀ x, x ∈ e'.registry.records ↔
        x = Record.holding v (.fresh e.registry.next name) ∨ x ∈ e.registry.records := by
      intro x
      rw [hg]
      exact Registry.mem_records_add_modify h.regular.sound hn _
    -- A name that stood for something has a record, unless it is refused one.
    have hunset : t.get? name = none := by
      by_contra hne
      obtain ⟨r, hr, hrn⟩ := h.kept name hne ha
      exact Registry.find?_eq_none_iff.mp hn r hr (congrArg e.registry.key hrn)
    apply Restorable.mk (regular_step h.regular hs)
    · intro x hx
      rcases (hmem x).mp hx with rfl | hx
      · exact hunset
      · exact h.origin x hx
    · intro n hall
      have hne : n ≠ name := fun he => hall _ ((hmem _).mpr (.inl rfl)) he.symm
      rw [Table.get?_set ht, if_neg hne]
      exact h.others n fun x hx => hall x ((hmem x).mpr (.inr hx))
    · intro n hne hna
      rw [hg] at hna
      obtain ⟨x, hx, hxn⟩ := h.kept n hne hna
      exact ⟨x, (hmem x).mpr (.inr hx), hxn⟩
  | erase r hr hi hg ht =>
    have hmem : ∀ x, x ∈ e'.registry.records ↔ x ∈ e.registry.records ∧ x ≠ r := by
      intro x
      rw [hg]
      exact Registry.mem_records_erase h.regular.sound hr
    have hunset : t.get? r.name = none := by
      rw [h.origin r hr, Record.origin, hi]
      rfl
    apply Restorable.mk (regular_step h.regular hs)
    · intro x hx
      exact h.origin x ((hmem x).mp hx).1
    · intro n hall
      rw [ht, Table.get?_unset]
      by_cases hne : n = r.name
      · rw [if_pos hne, hne, hunset]
      · rw [if_neg hne]
        apply h.others n
        intro x hx hxn
        have hxr : x ≠ r := fun he => hne (by rw [← hxn, he])
        exact hall x ((hmem x).mpr ⟨hx, hxr⟩) hxn
    · intro n hne hna
      rw [hg] at hna
      obtain ⟨x, hx, hxn⟩ := h.kept n hne hna
      have hxr : x ≠ r := by
        rintro rfl
        exact hne (hxn ▸ hunset)
      exact ⟨x, (hmem x).mpr ⟨hx, hxr⟩, hxn⟩

end

theorem get?_restore {t : Table} (hm : t.kind = .ofMemory) {n : Text} {o : Option Text}
    (rs : List Record) (hr : ∀ r ∈ rs, r.name = n → r.origin = o)
    (ht : t.get? n = o ∨ ∃ r ∈ rs, r.name = n) : (restore t rs).1.get? n = o := by
  induction rs generalizing t with
  | nil => simpa [restore] using ht
  | cons r rs ih =>
    have hrs : ∀ x ∈ rs, x.name = n → x.origin = o := fun x hx => hr x (List.mem_cons_of_mem _ hx)
    have hown : r.name = n → r.origin = o := hr r (List.mem_cons_self ..)
    -- Whatever this record writes, either it fits or a later record speaks for the name.
    have hnext : ∀ u : Table, (u.get? n = if n = r.name then r.origin else t.get? n) →
        u.get? n = o ∨ ∃ x ∈ rs, x.name = n := by
      intro u hu
      by_cases hn : n = r.name
      · rw [if_pos hn, hown hn.symm] at hu
        exact .inl hu
      · rw [if_neg hn] at hu
        rcases ht with ht | ⟨x, hx, hxn⟩
        · exact .inl (hu.trans ht)
        · rcases List.mem_cons.mp hx with rfl | hx
          · exact absurd hxn.symm hn
          · exact .inr ⟨x, hx, hxn⟩
    cases hi : r.inherited with
    | true =>
      have hset := Table.set_ofMemory hm r.name r.initial
      simp only [restore, hi, if_true, hset]
      refine ih hm hrs (hnext _ ?_)
      rw [Table.get?_set hset, Record.origin, hi, if_pos rfl]
    | false =>
      simp only [restore, hi, Bool.false_eq_true, if_false]
      refine ih hm hrs (hnext _ ?_)
      rw [Table.get?_unset, Record.origin, hi, if_neg Bool.false_ne_true]

theorem teardown_of_restorable {t : Table} {e : Engine} (h : Restorable t e) :
    (e.teardown).2 = .ok () ∧ (∀ n, (e.teardown).1.table.get? n = t.get? n) ∧
      (e.teardown).1.registry.slots = [] := by
  refine ⟨teardown_ofMemory h.regular.memory, ?_, slots_teardown h.regular.memory⟩
  intro n
  rw [table_teardown]
  apply get?_restore h.regular.memory
  · intro r hr hrn
    rw [← hrn, h.origin r hr]
  · by_cases hn : ∃ r ∈ e.registry.records, r.name = n
    · exact .inr hn
    · exact .inl (h.others n fun r hr hrn => hn ⟨r, hr, hrn⟩)

/-- Startup, any run of statements, and teardown: the table holds what it held
before, and no slot is left. -/
theorem teardown_run_restores {e : Engine} (h : e.Startup) (ss : List Statement) :
    ((e.start.run ss).teardown).2 = .ok () ∧
      (∀ n, ((e.start.run ss).teardown).1.table.get? n = e.table.get? n) ∧
      ((e.start.run ss).teardown).1.registry.slots = [] :=
  teardown_of_restorable
    ((steps_run (regular_start h) ss).keep (fun _ _ => restorable_step) (restorable_start h))

theorem teardown_run_restores_sample :
    (sample ["LANG".toList]).Startup ∧
      (((sample ["LANG".toList]).start.run
        [.assign "$path .= ':x'".toList, .remove "$HOME $lang x".toList,
          .assign "$lang = '1'".toList, .assign "$home = 'y'".toList,
          .assign "$LANG = 2".toList]).teardown).1.table.get? "LANG".toList =
        some "C".toList := by
  have h : (sample ["LANG".toList]).Startup := by decide
  exact ⟨h, ((teardown_run_restores h _).2.1 _).trans rfl⟩

end Engine

end LetShell
