import LetShell.Proofs.Engine.Step
import LetShell.Proofs.Registry.Search

/-!
# A registry without some names

Removing a name takes the visible record that has it, whatever its spelling: an
inherited record stays in its slot with a mark, any other leaves its slot free.
Whether names are removed one by one or at once makes no difference. The other
records stay where they are, and a search finds them as before.
-/

set_option autoImplicit false

namespace LetShell.Registry

/-- One of the names compares equal to `name`. -/
def mentions (g : Registry) (names : List Text) (name : Text) : Bool :=
  names.any fun n => g.key n = g.key name

/-- What is left of a record when names are removed. One that was removed
before stays as it is. -/
def leave (g : Registry) (names : List Text) (r : Record) : Option Record :=
  if r.removed || !g.mentions names r.name then some r
  else if r.inherited then some r.tombstoned
  else none

/-- The registry `g` without the variables of some names. -/
structure Withdrawn (g : Registry) (names : List Text) (g' : Registry) : Prop where
  sound : g'.Sound
  caseSensitive : g'.caseSensitive = g.caseSensitive
  slots : g'.slots = g.slots.map (·.bind (g.leave names))

section
variable {g g' g'' : Registry} {names names' : List Text} {name : Text} {r : Record}

theorem mentions_append : g.mentions (names ++ names') name =
    (g.mentions names name || g.mentions names' name) :=
  List.any_append

theorem mentions_congr {n m : Text} (h : g.key n = g.key m) :
    g.mentions names n = g.mentions names m := by
  simp only [mentions, h]

theorem mentions_single {n : Text} : g.mentions [n] name = true ↔ g.key n = g.key name := by
  simp [mentions]

theorem key_withdrawn (h : Withdrawn g names g') : g'.key = g.key := key_congr h.caseSensitive

theorem mentions_withdrawn (h : Withdrawn g names g') : g'.mentions = g.mentions := by
  funext names name
  simp only [mentions, key_withdrawn h]

theorem leave_nil (g : Registry) (r : Record) : g.leave [] r = some r := by
  simp [leave, mentions]

theorem leave_append (g : Registry) (names names' : List Text) (r : Record) :
    (g.leave names r).bind (g.leave names') = g.leave (names ++ names') r := by
  cases hrem : r.removed with
  | true => simp [leave, hrem]
  | false =>
    cases hm : g.mentions names r.name with
    | false => simp [leave, hrem, hm, mentions_append]
    | true => cases hi : r.inherited <;> simp [leave, hrem, hm, hi, mentions_append, Record.tombstoned]

theorem slots_leave {f : Option Record → Option Record} (hnone : f none = none)
    (hsome : ∀ r ∈ g.records, f (some r) = g.leave names r) :
    g.slots.map f = g.slots.map (·.bind (g.leave names)) := by
  apply List.map_congr_left
  intro s hs
  cases s with
  | none => exact hnone
  | some r => exact hsome r (List.mem_filterMap.mpr ⟨_, hs, rfl⟩)

theorem withdrawn_kept (h : g.Sound) (hkept : ∀ r ∈ g.records, g.leave names r = some r) :
    Withdrawn g names g := by
  have hslots := slots_leave (f := id) rfl fun r hr => (hkept r hr).symm
  rw [List.map_id] at hslots
  exact ⟨h, rfl, hslots⟩

theorem withdrawn_nil (h : g.Sound) : Withdrawn g [] g :=
  withdrawn_kept h fun r _ => leave_nil g r

theorem withdrawn_trans (h : Withdrawn g names g') (h' : Withdrawn g' names' g'') :
    Withdrawn g (names ++ names') g'' := by
  have hleave : g'.leave names' = g.leave names' := by
    funext r
    simp only [leave, mentions_withdrawn h]
  refine ⟨h'.sound, h'.caseSensitive.trans h.caseSensitive, ?_⟩
  rw [h'.slots, h.slots, hleave, List.map_map]
  apply List.map_congr_left
  intro s _
  cases s with
  | none => rfl
  | some r => exact leave_append g names names' r

theorem records_withdrawn (h : Withdrawn g names g') :
    g'.records = g.records.filterMap (g.leave names) := by
  rw [records, h.slots, records, List.filterMap_map, List.filterMap_filterMap]
  rfl

theorem visible_withdrawn (h : Withdrawn g names g') :
    g'.visible = g.visible.filter fun r => !g.mentions names r.name := by
  have hone : ∀ r, (g.leave names r).filter (!·.removed) =
      Option.guard (fun r => !g.mentions names r.name && !r.removed) r := by
    intro r
    cases hrem : r.removed with
    | true => simp [leave, hrem, Option.guard]
    | false =>
      cases hm : g.mentions names r.name with
      | false => simp [leave, hrem, hm, Option.guard]
      | true =>
        cases hi : r.inherited <;>
          simp [leave, hrem, hm, hi, Record.tombstoned, Option.guard]
  rw [visible, records_withdrawn h, List.filter_filterMap, visible, List.filter_filter]
  simp only [hone]
  exact congrFun List.filterMap_eq_filter _

theorem withdrawn_unknown (h : g.Sound) (hn : ∀ r ∈ g.visible, g.key r.name ≠ g.key name) :
    Withdrawn g [name] g := by
  apply withdrawn_kept h
  intro r hr
  cases hrem : r.removed with
  | true => simp [leave, hrem]
  | false =>
    have hk := hn r (List.mem_filter.mpr ⟨hr, by simp [hrem]⟩)
    simp [leave, mentions, hk.symm]

theorem leave_single (h : g.Sound) (hr : r ∈ g.records) (hk : g.key r.name = g.key name)
    {x : Record} (hx : x ∈ g.records) (hne : x.serial ≠ r.serial) : g.leave [name] x = some x := by
  have hkey : g.key name ≠ g.key x.name := by
    intro he
    exact hne (congrArg Record.serial (eq_of_key h hx hr (he.symm.trans hk.symm)))
  simp [leave, mentions, hkey]

theorem withdrawn_tombstone (h : g.Sound) (hr : r ∈ g.records) (hv : r.removed = false)
    (hi : r.inherited = true) (hk : g.key r.name = g.key name) :
    Withdrawn g [name] (g.modify r.serial Record.tombstoned) := by
  refine ⟨sound_modify h _ Record.gentle_tombstoned, rfl, slots_leave rfl ?_⟩
  intro x hx
  by_cases he : x.serial = r.serial
  · rw [eq_of_serial h hx hr he]
    simp [leave, mentions, hv, hi, hk]
  · rw [leave_single h hr hk hx he, Option.map_some, if_neg he]

theorem withdrawn_erase (h : g.Sound) (hr : r ∈ g.records) (hv : r.removed = false)
    (hi : r.inherited = false) (hk : g.key r.name = g.key name) :
    Withdrawn g [name] (g.erase r.serial) := by
  refine ⟨sound_erase h _, rfl, slots_leave rfl ?_⟩
  intro x hx
  by_cases he : x.serial = r.serial
  · rw [eq_of_serial h hx hr he]
    simp [leave, mentions, hv, hi, hk, Option.filter]
  · rw [leave_single h hr hk hx he]
    simp [Option.filter, he]

theorem find?_visible (h : g.Sound) (name : Text) :
    (g.visible.find? fun r => g.key r.name = g.key name) =
      (g.find? name).filter (!·.removed) := by
  cases hf : g.find? name with
  | none =>
    rw [Option.filter_none, List.find?_eq_none]
    intro x hx
    simpa using find?_eq_none_iff.mp hf x (List.mem_filter.mp hx).1
  | some r =>
    obtain ⟨hr, hk⟩ := find?_mem hf
    cases hrem : r.removed with
    | true =>
      rw [Option.filter_some, hrem, Bool.not_true, if_neg Bool.false_ne_true, List.find?_eq_none]
      intro x hx
      obtain ⟨hx, hvis⟩ := List.mem_filter.mp hx
      simp only [decide_eq_true_eq]
      intro hkx
      rw [eq_of_key h hx hr (hkx.trans hk.symm), hrem] at hvis
      cases hvis
    | false =>
      have hmem : r ∈ g.visible := List.mem_filter.mpr ⟨hr, by simp [hrem]⟩
      rw [Option.filter_some, hrem, Bool.not_false, if_pos rfl]
      cases hv : g.visible.find? fun r => g.key r.name = g.key name with
      | none => exact absurd (decide_eq_true hk) (List.find?_eq_none.mp hv r hmem)
      | some x =>
        have hkx : g.key x.name = g.key name := by simpa using List.find?_some hv
        have hx := (List.mem_filter.mp (List.mem_of_find?_eq_some hv)).1
        rw [eq_of_key h hx hr (hkx.trans hk.symm)]

theorem find?_visible_withdrawn (h : Withdrawn g names g') (name : Text) :
    (g'.visible.find? fun r => g'.key r.name = g'.key name) =
      if g.mentions names name then none
      else g.visible.find? fun r => g.key r.name = g.key name := by
  rw [visible_withdrawn h, key_withdrawn h, List.find?_filter]
  split
  · rename_i hm
    rw [List.find?_eq_none]
    intro r _
    by_cases hk : g.key r.name = g.key name
    · simp [mentions_congr hk, hm]
    · simp [hk]
  · rename_i hm
    congr 1
    funext r
    by_cases hk : g.key r.name = g.key name
    · simp [mentions_congr hk, hm, hk]
    · simp [hk]

theorem read_withdrawn (h : g.Sound) (hw : Withdrawn g names g') (name : Text) :
    g'.read name = if g.mentions names name then [] else g.read name := by
  have hread : ∀ {g : Registry}, g.Sound → g.read name =
      ((g.visible.find? fun r => g.key r.name = g.key name).map (·.value)).getD [] := by
    intro g hg
    rw [find?_visible hg, read]
    cases g.find? name with
    | none => rfl
    | some r => cases hrem : r.removed <;> simp [hrem, Option.filter_some]
  rw [hread h, hread hw.sound, find?_visible_withdrawn hw]
  split <;> rfl

end

end LetShell.Registry
