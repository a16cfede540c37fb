import Mathlib.Data.List.Nodup
import LetShell.Registry

/-!
# Identity of records

A record is told apart in two ways: by its serial number, among all records
that ever were, and by the key of its name, among the live ones. Both survive
every operation on the registry, as long as a name is given a record only when
it has none. So a change made through a serial number reaches one live record
and no other, and a search by name finds at most one.
-/

set_option autoImplicit false

namespace LetShell.Registry

structure Sound (g : Registry) : Prop where
  serials : ((g.records ++ g.retired).map (·.serial)).Nodup
  bound : ∀ r ∈ g.records ++ g.retired, r.serial < g.next
  keys : (g.records.map fun r => g.key r.name).Nodup

theorem sound_empty (caseSensitive : Bool) (refused : List Text) :
    (empty caseSensitive refused).Sound :=
  ⟨List.nodup_nil, by simp [empty, records], List.nodup_nil⟩

section
variable {g : Registry} {r s : Record} {name : Text}

theorem eq_of_serial (h : g.Sound) (hr : r ∈ g.records) (hs : s ∈ g.records)
    (he : r.serial = s.serial) : r = s :=
  List.inj_on_of_nodup_map h.serials (List.mem_append_left _ hr) (List.mem_append_left _ hs) he

theorem eq_of_key (h : g.Sound) (hr : r ∈ g.records) (hs : s ∈ g.records)
    (he : g.key r.name = g.key s.name) : r = s :=
  List.inj_on_of_nodup_map h.keys hr hs he

theorem eq_of_name (h : g.Sound) (hr : r ∈ g.records) (hs : s ∈ g.records)
    (he : r.name = s.name) : r = s :=
  eq_of_key h hr hs (congrArg g.key he)

theorem find?_eq_none_iff : g.find? name = none ↔ ∀ r ∈ g.records, g.key r.name ≠ g.key name := by
  simp [find?, List.find?_eq_none]

theorem record?_of_mem (h : g.Sound) (hr : r ∈ g.records) : g.record? r.serial = some r := by
  have hm : r ∈ g.records ++ g.retired := List.mem_append_left _ hr
  cases hf : g.record? r.serial with
  | none =>
    have hr : ¬decide (r.serial = r.serial) = true := List.find?_eq_none.mp hf r hm
    exact absurd (decide_eq_true rfl) hr
  | some s =>
    have hs : s.serial = r.serial := by simpa using List.find?_some hf
    rw [List.inj_on_of_nodup_map h.serials (List.mem_of_find?_eq_some hf) hm hs]

theorem isLive_of_mem (hr : r ∈ g.records) : g.isLive r.serial = true :=
  List.any_eq_true.mpr ⟨r, hr, by simp⟩

end

section
variable {g : Registry} {r : Record}

theorem key_congr {g' : Registry} (h : g'.caseSensitive = g.caseSensitive) : g'.key = g.key := by
  funext name
  simp only [key, h]

@[simp] theorem key_add (g : Registry) (name : Text) : (g.add name).key = g.key := rfl

@[simp] theorem key_modify (g : Registry) (serial : Nat) (f : Record → Record) :
    (g.modify serial f).key = g.key := rfl

/-- A change through the serial number of a live record replaces that record
and leaves every other one. -/
theorem mem_records_modify (h : g.Sound) (hr : r ∈ g.records) (f : Record → Record) {x : Record} :
    x ∈ (g.modify r.serial f).records ↔ x = f r ∨ x ∈ g.records ∧ x ≠ r := by
  rw [records_modify, List.mem_map]
  constructor
  · rintro ⟨s, hs, rfl⟩
    by_cases he : s.serial = r.serial
    · rw [if_pos he, eq_of_serial h hs hr he]
      exact .inl rfl
    · rw [if_neg he]
      exact .inr ⟨hs, fun hsr => he (congrArg Record.serial hsr)⟩
  · rintro (rfl | ⟨hx, hne⟩)
    · exact ⟨r, hr, if_pos rfl⟩
    · exact ⟨x, hx, if_neg fun he => hne (eq_of_serial h hx hr he)⟩

theorem mem_records_erase (h : g.Sound) (hr : r ∈ g.records) {x : Record} :
    x ∈ (g.erase r.serial).records ↔ x ∈ g.records ∧ x ≠ r := by
  rw [records_erase, List.mem_filter]
  constructor
  · rintro ⟨hx, hs⟩
    exact ⟨hx, fun hxr => by simp [hxr] at hs⟩
  · rintro ⟨hx, hne⟩
    have hs : x.serial ≠ r.serial := fun he => hne (eq_of_serial h hx hr he)
    exact ⟨hx, by simpa using hs⟩

theorem records_add_perm (g : Registry) (name : Text) :
    (g.add name).records.Perm (.fresh g.next name :: g.records) := by
  obtain ⟨front, back, h1, h2⟩ := records_place (.fresh g.next name) g.slots
  have hg : g.records = front ++ back := h1
  have ha : (g.add name).records = front ++ Record.fresh g.next name :: back := h2
  rw [hg, ha]
  exact List.perm_middle

theorem sound_add (h : g.Sound) {name : Text} (hn : g.find? name = none) : (g.add name).Sound := by
  have hp := records_add_perm g name
  have hp2 : ((g.add name).records ++ (g.add name).retired).Perm
      (.fresh g.next name :: (g.records ++ g.retired)) := hp.append_right g.retired
  constructor
  · rw [(hp2.map (·.serial)).nodup_iff, List.map_cons, List.nodup_cons]
    refine ⟨?_, h.serials⟩
    intro hm
    obtain ⟨r, hr, he⟩ := List.mem_map.mp hm
    exact absurd (h.bound r hr) (by rw [he]; exact Nat.lt_irrefl g.next)
  · intro r hr
    have hnext : (g.add name).next = g.next + 1 := rfl
    rcases List.mem_cons.mp (hp2.mem_iff.mp hr) with rfl | hr
    · exact Nat.lt_succ_self g.next
    · exact Nat.lt_succ_of_lt (h.bound r hr)
  · rw [key_add, (hp.map fun r => g.key r.name).nodup_iff, List.map_cons, List.nodup_cons]
    refine ⟨?_, h.keys⟩
    intro hm
    obtain ⟨r, hr, he⟩ := List.mem_map.mp hm
    exact find?_eq_none_iff.mp hn r hr he

theorem mem_records_add_modify (h : g.Sound) {name : Text} (hn : g.find? name = none)
    (f : Record → Record) {x : Record} :
    x ∈ ((g.add name).modify g.next f).records ↔ x = f (.fresh g.next name) ∨ x ∈ g.records := by
  have hnew : Record.fresh g.next name ∈ (g.add name).records := mem_records_add.mpr (.inl rfl)
  have hm := mem_records_modify (sound_add h hn) hnew f (x := x)
  rw [show (Record.fresh g.next name).serial = g.next from rfl] at hm
  rw [hm, mem_records_add]
  constructor
  · rintro (hx | ⟨hx | hx, hne⟩)
    · exact .inl hx
    · exact absurd hx hne
    · exact .inr hx
  · rintro (hx | hx)
    · exact .inl hx
    · have hlt : x.serial < g.next := h.bound x (List.mem_append_left _ hx)
      exact .inr ⟨.inr hx, fun he => Nat.lt_irrefl _ (he ▸ hlt)⟩

/-- A change that touches neither serial numbers nor names. -/
def Gentle (f : Record → Record) : Prop := ∀ r, (f r).serial = r.serial ∧ (f r).name = r.name

theorem sound_modify (h : g.Sound) (serial : Nat) {f : Record → Record} (hf : Gentle f) :
    (g.modify serial f).Sound := by
  have hs : ∀ r : Record, (if r.serial = serial then f r else r).serial = r.serial := by
    intro r
    split
    · exact (hf r).1
    · rfl
  have hn : ∀ r : Record, (if r.serial = serial then f r else r).name = r.name := by
    intro r
    split
    · exact (hf r).2
    · rfl
  have hall : (g.modify serial f).records ++ (g.modify serial f).retired =
      (g.records ++ g.retired).map fun r => if r.serial = serial then f r else r := by
    rw [records_modify, List.map_append]
    rfl
  constructor
  · rw [hall, List.map_map]
    simpa only [Function.comp_def, hs] using h.serials
  · intro r hr
    rw [hall] at hr
    obtain ⟨s, hm, rfl⟩ := List.mem_map.mp hr
    rw [hs]
    exact h.bound s hm
  · rw [records_modify, List.map_map]
    simpa only [Function.comp_def, hn, key_modify] using h.keys

theorem sound_erase (h : g.Sound) (serial : Nat) : (g.erase serial).Sound := by
  have hp : ((g.erase serial).records ++ (g.erase serial).retired).Perm
      (g.records ++ g.retired) := by
    have hr : (g.erase serial).retired =
        g.retired ++ g.records.filter fun r => r.serial = serial := rfl
    have hsplit := List.filter_append_perm (fun r : Record => decide (r.serial ≠ serial)) g.records
    rw [records_erase, hr]
    apply (List.perm_append_comm.append_left _).trans
    rw [← List.append_assoc]
    refine List.Perm.append_right _ (List.Perm.trans ?_ hsplit)
    simp
  constructor
  · exact (hp.map (·.serial)).nodup_iff.mpr h.serials
  · intro r hr
    exact h.bound r (hp.mem_iff.mp hr)
  · rw [records_erase]
    exact (List.filter_sublist.map _).nodup h.keys

theorem sound_clear (h : g.Sound) : g.clear.Sound := by
  have hp : (g.clear.records ++ g.clear.retired).Perm (g.records ++ g.retired) := by
    change (g.retired ++ g.records).Perm _
    exact List.perm_append_comm
  refine ⟨?_, ?_, List.nodup_nil⟩
  · exact (hp.map (·.serial)).nodup_iff.mpr h.serials
  · intro r hr
    exact h.bound r (hp.mem_iff.mp hr)

end

end LetShell.Registry
