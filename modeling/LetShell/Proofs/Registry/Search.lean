import LetShell.Proofs.Registry.Identity

/-!
# Searching after a change

A change of one record is found under the names that compare equal to its own,
and a new record under those that had none. A search by any other name goes as
before, every other record stays in its slot as it is, and no retired record is
touched.
-/

set_option autoImplicit false

namespace LetShell.Registry

section
variable {g : Registry} {r x : Record} {name : Text} {serial : Nat} {f : Record → Record}

theorem find?_of_mem (h : g.Sound) (hr : r ∈ g.records) (hk : g.key r.name = g.key name) :
    g.find? name = some r := by
  cases hf : g.find? name with
  | none => exact absurd hk (find?_eq_none_iff.mp hf r hr)
  | some x =>
    obtain ⟨hx, hkx⟩ := find?_mem hf
    rw [eq_of_key h hx hr (hkx.trans hk.symm)]

theorem find?_modify (g : Registry) (serial : Nat) (hf : Gentle f) (m : Text) :
    (g.modify serial f).find? m =
      (g.find? m).map fun r => if r.serial = serial then f r else r := by
  have hname : ∀ r : Record, (if r.serial = serial then f r else r).name = r.name := by
    intro r
    split
    · exact (hf r).2
    · rfl
  simp only [find?, key_modify, records_modify, List.find?_map, Function.comp_def, hname]

theorem find?_modify_own (hf : Gentle f) {m : Text} (hr : g.find? m = some r) :
    (g.modify r.serial f).find? m = some (f r) := by
  rw [find?_modify g r.serial hf, hr, Option.map_some, if_pos rfl]

theorem find?_modify_other (h : g.Sound) (hr : r ∈ g.records) (hf : Gentle f) {m : Text}
    (hm : g.key m ≠ g.key r.name) : (g.modify r.serial f).find? m = g.find? m := by
  rw [find?_modify g r.serial hf]
  cases hx : g.find? m with
  | none => rfl
  | some x =>
    obtain ⟨hmem, hkey⟩ := find?_mem hx
    have hne : x.serial ≠ r.serial := by
      intro he
      rw [eq_of_serial h hmem hr he] at hkey
      exact hm hkey.symm
    rw [Option.map_some, if_neg hne]

theorem find?_add (hn : g.find? name = none) (m : Text) :
    (g.add name).find? m =
      if g.key m = g.key name then some (.fresh g.next name) else g.find? m := by
  obtain ⟨front, back, hold, hnew⟩ := records_place (.fresh g.next name) g.slots
  have hg : g.records = front ++ back := hold
  have ha : (g.add name).records = front ++ Record.fresh g.next name :: back := hnew
  have hother : ∀ x ∈ front, g.key x.name ≠ g.key name := by
    intro x hx
    exact find?_eq_none_iff.mp hn x (hg ▸ List.mem_append_left back hx)
  rw [find?, key_add, ha, find?, hg, List.find?_append, List.find?_append]
  split
  · rename_i hm
    have hfront : front.find? (fun r => g.key r.name = g.key m) = none := by
      rw [List.find?_eq_none]
      intro x hx
      simpa [hm] using hother x hx
    rw [hfront, List.find?_cons_of_pos (by simp [hm, Record.fresh])]
    rfl
  · rename_i hm
    rw [List.find?_cons_of_neg (by simp [Record.fresh, Ne.symm hm])]

theorem slot_modify (hf : Gentle f) (hx : x.serial ≠ serial) (i : Nat) :
    (g.modify serial f).slots[i]? = some (some x) ↔ g.slots[i]? = some (some x) := by
  have hchange : ∀ y : Record, (if y.serial = serial then f y else y) = x ↔ y = x := by
    intro y
    split
    · rename_i hy
      constructor
      · rintro rfl
        exact absurd ((hf y).1.trans hy) hx
      · rintro rfl
        exact absurd hy hx
    · rfl
  simp only [modify, List.getElem?_map]
  cases g.slots[i]? with
  | none => simp
  | some s => cases s <;> simp [hchange]

theorem slot_place (hx : x ≠ r) (slots : List (Option Record)) (i : Nat) :
    (place r slots)[i]? = some (some x) ↔ slots[i]? = some (some x) := by
  induction slots generalizing i with
  | nil => cases i <;> simp [place, Ne.symm hx]
  | cons s slots ih =>
    cases s with
    | none => cases i <;> simp [place, Ne.symm hx]
    | some y => cases i <;> simp [place, ih]

theorem retired_modify (h : g.Sound) (hr : r ∈ g.records) (f : Record → Record) :
    (g.modify r.serial f).retired = g.retired := by
  have hserials := h.serials
  rw [List.map_append, List.nodup_append'] at hserials
  apply (List.map_congr_left ?_).trans (List.map_id _)
  intro x hx
  apply if_neg
  intro he
  exact hserials.2.2 (List.mem_map_of_mem hr) (he ▸ List.mem_map_of_mem hx)

end

end LetShell.Registry
