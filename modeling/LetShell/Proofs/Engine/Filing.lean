import LetShell.Proofs.Engine.Restoration

/-!
# How startup files the table

Startup cuts every name to the longest length and keeps one record for all
pairs whose cut names compare equal. The record has the name of the first of
them that is not refused a record and the value of the last. Teardown writes
that value under that name. So a teardown right after startup leaves the table
as it was just if each of these names is a name of the table with this value,
and otherwise it adds names or changes values.
-/

set_option autoImplicit false

namespace LetShell.Engine

/-- What startup makes of one entry: a cut name and a value. -/
def reading? (e : Engine) (entry : Text) : Option (Text × Text) :=
  Option.map (fun p => (Text.upTo e.nameMax p.1, p.2)) <| entry? entry

def readings (e : Engine) : List (Text × Text) :=
  (e.table.pairs.filter (·.1 ≠ [])).map fun p => (Text.upTo e.nameMax p.1, p.2)

/-- The pairs that share one record. -/
def namesakes (e : Engine) (ps : List (Text × Text)) (name : Text) : List (Text × Text) :=
  ps.filter fun p => e.registry.key p.1 = e.registry.key name

/-- Among `ps`, all namesakes of `first` are kept under its name, with the value
of `last`. -/
structure Keeps (e : Engine) (ps : List (Text × Text)) (first last : Text × Text) : Prop where
  named : (e.namesakes ps first.1).find? (fun p => !e.registry.refuses p.1) = some first
  valued : (e.namesakes ps first.1).getLast? = some last

section
variable {e : Engine} {ps : List (Text × Text)} {p q first last : Text × Text} {name : Text}

theorem namesakes_append_same (h : e.registry.key p.1 = e.registry.key name) :
    e.namesakes (ps ++ [p]) name = e.namesakes ps name ++ [p] := by
  simp [namesakes, h]

theorem namesakes_append_other (h : e.registry.key p.1 ≠ e.registry.key name) :
    e.namesakes (ps ++ [p]) name = e.namesakes ps name := by
  simp [namesakes, h]

theorem namesakes_congr {other : Text} (h : e.registry.key name = e.registry.key other) :
    e.namesakes ps name = e.namesakes ps other := by
  simp only [namesakes, h]

theorem keeps_append_same (h : e.Keeps ps first last)
    (hk : e.registry.key p.1 = e.registry.key first.1) : e.Keeps (ps ++ [p]) first p := by
  constructor
  · rw [namesakes_append_same hk, List.find?_append, h.named]
    rfl
  · rw [namesakes_append_same hk, List.getLast?_concat]

theorem keeps_append_other (h : e.Keeps ps first last)
    (hk : e.registry.key p.1 ≠ e.registry.key first.1) : e.Keeps (ps ++ [p]) first last := by
  constructor
  · rw [namesakes_append_other hk]
    exact h.named
  · rw [namesakes_append_other hk]
    exact h.valued

theorem keeps_append_new (hr : e.registry.refuses p.1 = false)
    (hnew : ∀ q ∈ ps, e.registry.key q.1 = e.registry.key p.1 → e.registry.refuses q.1 = true) :
    e.Keeps (ps ++ [p]) p p := by
  have hnone : (e.namesakes ps p.1).find? (fun p => !e.registry.refuses p.1) = none := by
    rw [List.find?_eq_none]
    intro q hq
    have hq := List.mem_filter.mp hq
    simp [hnew q hq.1 (by simpa using hq.2)]
  constructor
  · rw [namesakes_append_same rfl, List.find?_append, hnone]
    simp [hr]
  · rw [namesakes_append_same rfl, List.getLast?_concat]

theorem keeps_mem (h : e.Keeps ps first last) :
    first ∈ ps ∧ e.registry.refuses first.1 = false := by
  have hm := List.mem_filter.mp (List.mem_of_find?_eq_some h.named)
  exact ⟨hm.1, by simpa using List.find?_some h.named⟩

theorem keeps_unique {first' last' : Text × Text} (h : e.Keeps ps first last)
    (h' : e.Keeps ps first' last') (hk : e.registry.key first.1 = e.registry.key first'.1) :
    first' = first ∧ last' = last := by
  have hsame : e.namesakes ps first.1 = e.namesakes ps first'.1 := namesakes_congr hk
  have hfirst := h'.named
  have hlast := h'.valued
  rw [← hsame] at hfirst hlast
  rw [h.named] at hfirst
  rw [h.valued] at hlast
  exact ⟨(Option.some.inj hfirst).symm, (Option.some.inj hlast).symm⟩

end

/-- What startup does with one entry. One without a reading is skipped. The
record of its name is loaded if there is one; else the reading is dropped if the
name is refused a record, and a new record is loaded if it is not. -/
inductive Inherits (e : Engine) : Option (Text × Text) → Engine × Bool → Prop
  | skip (message : Text) : Inherits e none (e.note .warning registrySource message, false)
  | reload {p : Text × Text} {r : Record} (hf : e.registry.find? p.1 = some r) :
      Inherits e (some p)
        ({ e with registry := e.registry.modify r.serial (Record.loaded p.2) }, true)
  | drop {p : Text × Text} (hf : e.registry.find? p.1 = none)
      (hr : e.registry.refuses p.1 = true) (message : Text) :
      Inherits e (some p) (e.note .warning registrySource message, false)
  | create {p : Text × Text} (hf : e.registry.find? p.1 = none)
      (hr : e.registry.refuses p.1 = false) (message : Text) :
      Inherits e (some p) ({ e.note .debug registrySource message with
        registry := (e.registry.add p.1).modify e.registry.next (Record.loaded p.2) }, true)

theorem inherits (e : Engine) (entry : Text) : Inherits e (e.reading? entry) (e.inherit entry) := by
  unfold inherit reading?
  cases entry? entry with
  | none => exact .skip _
  | some p =>
    obtain ⟨name, value⟩ := p
    simp only [Option.map_some, obtain]
    cases hf : e.registry.find? (Text.upTo e.nameMax name) with
    | some r => exact .reload (p := (Text.upTo e.nameMax name, value)) hf
    | none =>
      cases hr : e.registry.refuses (Text.upTo e.nameMax name) with
      | true => exact .drop (p := (Text.upTo e.nameMax name, value)) hf hr _
      | false => exact .create (p := (Text.upTo e.nameMax name, value)) hf hr _

theorem filterMap_reading? (e : Engine) (entry : Text) (entries : List Text) :
    (entry :: entries).filterMap e.reading? =
      (e.reading? entry).toList ++ entries.filterMap e.reading? := by
  cases hr : e.reading? entry <;> simp [hr]

theorem reading?_congr {e e₀ : Engine} (h : e.nameMax = e₀.nameMax) : e.reading? = e₀.reading? := by
  funext entry
  rw [reading?, reading?, h]

theorem refuses_congr {e e₀ : Engine} (h : e.registry.refused = e₀.registry.refused) :
    e.registry.refuses = e₀.registry.refuses := by
  funext name
  rw [Registry.refuses, Registry.refuses, h]

/-- The engine `e` after the pairs `done` have been loaded into `e₀`. -/
structure Filed (e₀ : Engine) (done : List (Text × Text)) (e : Engine) : Prop where
  sound : e.registry.Sound
  table : e.table = e₀.table
  nameMax : e.nameMax = e₀.nameMax
  caseSensitive : e.registry.caseSensitive = e₀.registry.caseSensitive
  refused : e.registry.refused = e₀.registry.refused
  kept : ∀ r ∈ e.registry.records, r.inherited = true ∧
    ∃ first last, e₀.Keeps done first last ∧ r.name = first.1 ∧ r.initial = last.2
  found : ∀ p ∈ done, e₀.registry.refuses p.1 = false →
    ∃ r ∈ e.registry.records, e₀.registry.key r.name = e₀.registry.key p.1

section
variable {e₀ e : Engine} {done : List (Text × Text)}

theorem filed_new {caseSensitive : Bool} {refused : List Text}
    (h : e₀.registry = .empty caseSensitive refused) : Filed e₀ [] e₀ := by
  have hr : e₀.registry.records = [] := by
    rw [h]
    rfl
  refine ⟨?_, rfl, rfl, rfl, rfl, ?_, ?_⟩
  · rw [h]
    exact Registry.sound_empty caseSensitive refused
  · simp [hr]
  · simp

theorem key_filed (h : Filed e₀ done e) : e.registry.key = e₀.registry.key :=
  Registry.key_congr h.caseSensitive

theorem filed_reload (h : Filed e₀ done e) {p : Text × Text} {r : Record}
    (hf : e.registry.find? p.1 = some r) :
    Filed e₀ (done ++ [p])
      { e with registry := e.registry.modify r.serial (Record.loaded p.2) } := by
  obtain ⟨hr, hkey⟩ := Registry.find?_mem hf
  rw [key_filed h] at hkey
  have hmem := fun x => Registry.mem_records_modify h.sound hr (Record.loaded p.2) (x := x)
  have hsound := Registry.sound_modify h.sound r.serial (Record.gentle_loaded p.2)
  refine ⟨hsound, h.table, h.nameMax, h.caseSensitive, h.refused, ?_, ?_⟩
  · intro x hx
    rcases (hmem x).mp hx with rfl | ⟨hx, hne⟩
    · obtain ⟨-, first, last, hkeeps, hname, -⟩ := h.kept r hr
      rw [hname] at hkey
      exact ⟨rfl, first, p, keeps_append_same hkeeps hkey.symm, hname, rfl⟩
    · obtain ⟨hi, first, last, hkeeps, hname, hinitial⟩ := h.kept x hx
      have hother : e₀.registry.key p.1 ≠ e₀.registry.key first.1 := by
        intro hk
        refine hne (Registry.eq_of_key h.sound hx hr ?_)
        rw [key_filed h, hname, ← hk, hkey]
      exact ⟨hi, first, last, keeps_append_other hkeeps hother, hname, hinitial⟩
  · intro q hq ha
    have hkeep : ∀ x ∈ e.registry.records,
        ∃ y ∈ (e.registry.modify r.serial (Record.loaded p.2)).records, y.name = x.name := by
      intro x hx
      by_cases hxr : x = r
      · exact ⟨_, (hmem _).mpr (.inl rfl), by rw [hxr]; rfl⟩
      · exact ⟨x, (hmem x).mpr (.inr ⟨hx, hxr⟩), rfl⟩
    have hold : ∃ x ∈ e.registry.records, e₀.registry.key x.name = e₀.registry.key q.1 := by
      rcases List.mem_append.mp hq with hq | hq
      · exact h.found q hq ha
      · rw [List.mem_singleton.mp hq]
        exact ⟨r, hr, hkey⟩
    obtain ⟨x, hx, hxq⟩ := hold
    obtain ⟨y, hy, hyx⟩ := hkeep x hx
    exact ⟨y, hy, by rw [hyx, hxq]⟩

theorem filed_drop (h : Filed e₀ done e) {p : Text × Text} (hf : e.registry.find? p.1 = none)
    (ha : e₀.registry.refuses p.1 = true) : Filed e₀ (done ++ [p]) e := by
  have hother := Registry.find?_eq_none_iff.mp hf
  rw [key_filed h] at hother
  refine ⟨h.sound, h.table, h.nameMax, h.caseSensitive, h.refused, ?_, ?_⟩
  · intro x hx
    obtain ⟨hi, first, last, hkeeps, hname, hinitial⟩ := h.kept x hx
    have hne := (hother x hx).symm
    rw [hname] at hne
    exact ⟨hi, first, last, keeps_append_other hkeeps hne, hname, hinitial⟩
  · intro q hq hnot
    rcases List.mem_append.mp hq with hq | hq
    · exact h.found q hq hnot
    · rw [List.mem_singleton.mp hq, ha] at hnot
      cases hnot

theorem filed_create (h : Filed e₀ done e) {p : Text × Text} (hf : e.registry.find? p.1 = none)
    (ha : e₀.registry.refuses p.1 = false) :
    Filed e₀ (done ++ [p]) { e with
      registry := (e.registry.add p.1).modify e.registry.next (Record.loaded p.2) } := by
  have hother := Registry.find?_eq_none_iff.mp hf
  rw [key_filed h] at hother
  have hmem := fun x => Registry.mem_records_add_modify h.sound hf (Record.loaded p.2) (x := x)
  have hsound := Registry.sound_modify (Registry.sound_add h.sound hf) e.registry.next
    (Record.gentle_loaded p.2)
  refine ⟨hsound, h.table, h.nameMax, h.caseSensitive, h.refused, ?_, ?_⟩
  · intro x hx
    rcases (hmem x).mp hx with rfl | hx
    · refine ⟨rfl, p, p, keeps_append_new ha ?_, rfl, rfl⟩
      -- An earlier namesake with a record would have been found.
      intro q hq hk
      by_contra hnot
      obtain ⟨r, hr, hrq⟩ := h.found q hq (by simpa using hnot)
      exact hother r hr (hrq.trans hk)
    · obtain ⟨hi, first, last, hkeeps, hname, hinitial⟩ := h.kept x hx
      have hne := (hother x hx).symm
      rw [hname] at hne
      exact ⟨hi, first, last, keeps_append_other hkeeps hne, hname, hinitial⟩
  · intro q hq hnot
    rcases List.mem_append.mp hq with hq | hq
    · obtain ⟨r, hr, hrq⟩ := h.found q hq hnot
      exact ⟨r, (hmem r).mpr (.inr hr), hrq⟩
    · rw [List.mem_singleton.mp hq]
      exact ⟨_, (hmem _).mpr (.inl rfl), rfl⟩

theorem filed_note (h : Filed e₀ done e) (level : Level) (source message : Text) :
    Filed e₀ done (e.note level source message) :=
  ⟨h.sound, h.table, h.nameMax, h.caseSensitive, h.refused, h.kept, h.found⟩

theorem filed_inherit (h : Filed e₀ done e) (entry : Text) :
    Filed e₀ (done ++ (e₀.reading? entry).toList) (e.inherit entry).1 := by
  have hcases := inherits e entry
  rw [reading?_congr h.nameMax] at hcases
  generalize e₀.reading? entry = reading, e.inherit entry = after at hcases
  cases hcases with
  | skip message => simpa using filed_note h _ _ _
  | reload hf => exact filed_reload h hf
  | drop hf hr message =>
    exact filed_note (filed_drop h hf (refuses_congr h.refused ▸ hr)) _ _ _
  | create hf hr message =>
    have hfiled := filed_create h hf (refuses_congr h.refused ▸ hr)
    exact filed_note hfiled .debug registrySource message

theorem filed_inheritAll (h : Filed e₀ done e) (entries : List Text) :
    Filed e₀ (done ++ entries.filterMap e₀.reading?) (e.inheritAll entries).1 := by
  induction entries generalizing done e with
  | nil => simpa [inheritAll] using h
  | cons entry entries ih =>
    have hall := ih (filed_inherit h entry)
    rw [filterMap_reading?, ← List.append_assoc]
    exact hall

theorem filed_bootstrap {caseSensitive : Bool} {refused : List Text}
    (h : e₀.registry = .empty caseSensitive refused) (entries : List Text) :
    Filed e₀ (entries.filterMap e₀.reading?) (e₀.bootstrap entries) :=
  filed_note (filed_inheritAll (filed_new h) entries) _ _ _

end

section
variable {e₀ e : Engine} {done : List (Text × Text)} {first last : Text × Text}

theorem record_of_keeps (h : Filed e₀ done e) (hk : e₀.Keeps done first last) :
    ∃ r ∈ e.registry.records, r.name = first.1 ∧ r.origin = some last.2 := by
  obtain ⟨hmem, ha⟩ := keeps_mem hk
  obtain ⟨r, hr, hkey⟩ := h.found first hmem ha
  obtain ⟨hi, first', last', hk', hname, hinitial⟩ := h.kept r hr
  obtain ⟨rfl, rfl⟩ := keeps_unique hk hk' (by rw [← hkey, hname])
  exact ⟨r, hr, hname, by rw [Record.origin, hi, if_pos rfl, hinitial]⟩

theorem get?_teardown_of_keeps (h : Filed e₀ done e) (hm : e₀.table.kind = .ofMemory)
    (hk : e₀.Keeps done first last) : (e.teardown).1.table.get? first.1 = some last.2 := by
  obtain ⟨r, hr, hname, horigin⟩ := record_of_keeps h hk
  rw [table_teardown]
  apply get?_restore (h.table ▸ hm)
  · intro x hx hxn
    rw [Registry.eq_of_name h.sound hx hr (hxn.trans hname.symm)]
    exact horigin
  · exact .inr ⟨r, hr, hname⟩

theorem get?_teardown_of_not_kept (h : Filed e₀ done e) (hm : e₀.table.kind = .ofMemory)
    {n : Text} (hn : ∀ first last, e₀.Keeps done first last → first.1 ≠ n) :
    (e.teardown).1.table.get? n = e₀.table.get? n := by
  have hnone : ∀ r ∈ e.registry.records, r.name ≠ n := by
    intro r hr hrn
    obtain ⟨-, first, last, hk, hname, -⟩ := h.kept r hr
    exact hn first last hk (hname.symm.trans hrn)
  rw [table_teardown]
  apply get?_restore (h.table ▸ hm)
  · intro r hr hrn
    exact absurd hrn (hnone r hr)
  · rw [h.table]
    exact .inl rfl

end

section
variable {e : Engine}

theorem readings_entries (h : ∀ p ∈ e.table.pairs, '=' ∉ p.1) :
    e.table.entries.filterMap e.reading? = e.readings := by
  unfold Table.entries readings
  revert h
  induction e.table.pairs with
  | nil => intro _; rfl
  | cons p ps ih =>
    intro h
    have hp := h p (List.mem_cons_self ..)
    have hps := ih fun q hq => h q (List.mem_cons_of_mem p hq)
    by_cases hn : p.1 = []
    · have hread : e.reading? (p.1 ++ '=' :: p.2) = none := by
        rw [reading?, entry?, Text.cutAt_append hp, hn]
        rfl
      rw [List.map_cons, List.filterMap_cons_none hread, hps]
      simp [hn]
    · have hread : e.reading? (p.1 ++ '=' :: p.2) = some (Text.upTo e.nameMax p.1, p.2) := by
        rw [reading?, entry?_append hn hp]
        rfl
      rw [List.map_cons, List.filterMap_cons_some hread, hps]
      simp [hn]

/-- Startup and teardown of a new engine over a private table with plain names:
for every record that startup keeps, its name ends up with its value, and no
other name is touched. So the table is as it was just if each of these names
had this value before. -/
theorem teardown_start_unchanged_iff {caseSensitive : Bool} {refused : List Text}
    (hnew : e.registry = .empty caseSensitive refused) (hmemory : e.table.kind = .ofMemory)
    (hplain : ∀ p ∈ e.table.pairs, '=' ∉ p.1) :
    (e.start.teardown).2 = .ok () ∧ (e.start.teardown).1.registry.slots = [] ∧
    (∀ first last, e.Keeps e.readings first last →
      (e.start.teardown).1.table.get? first.1 = some last.2) ∧
    (∀ n, (∀ first last, e.Keeps e.readings first last → first.1 ≠ n) →
      (e.start.teardown).1.table.get? n = e.table.get? n) ∧
    ((∀ n, (e.start.teardown).1.table.get? n = e.table.get? n) ↔
      ∀ first last, e.Keeps e.readings first last → e.table.get? first.1 = some last.2) := by
  have hfiled : Filed e e.readings e.start := readings_entries hplain ▸ filed_bootstrap hnew _
  have hkind : e.start.table.kind = .ofMemory := hfiled.table ▸ hmemory
  have hkept : ∀ first last, e.Keeps e.readings first last →
      (e.start.teardown).1.table.get? first.1 = some last.2 :=
    fun _ _ => get?_teardown_of_keeps hfiled hmemory
  have hother : ∀ n, (∀ first last, e.Keeps e.readings first last → first.1 ≠ n) →
      (e.start.teardown).1.table.get? n = e.table.get? n :=
    fun _ => get?_teardown_of_not_kept hfiled hmemory
  refine ⟨teardown_ofMemory hkind, slots_teardown hkind, hkept, hother, ?_⟩
  constructor
  · intro hall first last hk
    rw [← hall, hkept first last hk]
  · intro hall n
    by_cases hn : ∃ first last, e.Keeps e.readings first last ∧ first.1 = n
    · obtain ⟨first, last, hk, rfl⟩ := hn
      rw [hkept first last hk, hall first last hk]
    · exact hother n fun first last hk hfn => hn ⟨first, last, hk, hfn⟩

def overlong : Engine :=
  .ofParts ⟨.ofMemory, [("ABC".toList, ['1']), ("ABCD".toList, ['2']), ("WXYZ".toList, ['3'])]⟩
    .standard true 3 []

theorem teardown_start_unchanged_iff_sample :
    overlong.registry = .empty true [] ∧ overlong.table.kind = .ofMemory ∧
      (∀ p ∈ overlong.table.pairs, '=' ∉ p.1) ∧
      overlong.Keeps overlong.readings ("ABC".toList, ['1']) ("ABC".toList, ['2']) ∧
      (overlong.start.teardown).1.table.get? "ABC".toList = some ['2'] := by
  have hplain : ∀ p ∈ overlong.table.pairs, '=' ∉ p.1 := by decide
  have hkeeps : overlong.Keeps overlong.readings ("ABC".toList, ['1']) ("ABC".toList, ['2']) :=
    ⟨by decide, by decide⟩
  obtain ⟨-, -, hkept, -⟩ := teardown_start_unchanged_iff (e := overlong) rfl rfl hplain
  exact ⟨rfl, rfl, hplain, hkeeps, hkept _ _ hkeeps⟩

/-- Startup and teardown alone give a variable the value of another one and
bring up a name that was never there. -/
theorem teardown_start_overwrites :
    overlong.table.get? "ABC".toList = some ['1'] ∧
      (overlong.start.teardown).1.table.get? "ABC".toList = some ['2'] ∧
      overlong.table.get? "WXY".toList = none ∧
      (overlong.start.teardown).1.table.get? "WXY".toList = some ['3'] := by
  decide +kernel

example :
    let e := ofParts ⟨.ofMemory, [("Path".toList, ['1']), ("PATH".toList, ['2'])]⟩ .standard false
      64 []
    (e.start.teardown).1.table.get? "Path".toList = some ['2'] := by
  decide +kernel

end

end LetShell.Engine
