import LetShell.Proofs.Registry.Identity

/-!
# Who sits where

The seat of a slot is the serial number of the record in it. Records come in
one by one, each to the lowest free slot, and a slot is added only when none is
free; records that go leave their slots behind. So among steps of one kind the
number of slots keeps up with the number of records and never runs ahead of it.
-/

set_option autoImplicit false

namespace LetShell.Registry

/-- The serial number of the record in a slot, none if the slot is free or
does not exist. -/
def seat? (g : Registry) (i : Nat) : Option Nat := (g.slots[i]?.join).map (·.serial)

def firstFree (g : Registry) : Nat := g.slots.idxOf none

/-- Records only came in. A record that came is newer than all there were, and
every lower slot that was free has one that came before it. -/
structure Grows (g g' : Registry) : Prop where
  next : g.next ≤ g'.next
  stay : ∀ i n, g.seat? i = some n → g'.seat? i = some n
  come : ∀ i n, g.seat? i = none → g'.seat? i = some n → g.next ≤ n ∧ n < g'.next ∧
    ∀ j < i, g.seat? j = none → ∃ m, g'.seat? j = some m ∧ m < n
  size : g.size ≤ g'.size
  slots : g'.slots.length = max g.slots.length g'.size

structure Shrinks (g g' : Registry) : Prop where
  stay : ∀ i n, g'.seat? i = some n → g.seat? i = some n
  size : g'.size ≤ g.size
  slots : g'.slots.length = g.slots.length

section
variable {g g' g'' : Registry}

theorem size_le_slots (g : Registry) : g.size ≤ g.slots.length :=
  List.length_filterMap_le id g.slots

theorem getElem?_place_eq (r : Record) (slots : List (Option Record)) (i : Nat) :
    (place r slots)[i]? = if i = slots.idxOf none then some (some r) else slots[i]? := by
  induction slots generalizing i with
  | nil => cases i <;> simp [place]
  | cons s slots ih =>
    cases s with
    | none => cases i <;> simp [place]
    | some x => cases i <;> simp [place, ih]

theorem seat?_add (g : Registry) (name : Text) (i : Nat) :
    (g.add name).seat? i = if i = g.firstFree then some g.next else g.seat? i := by
  have hslot : (g.add name).slots[i]? =
    if i = g.firstFree then some (some (.fresh g.next name)) else g.slots[i]? :=
      getElem?_place_eq _ g.slots i
  rw [seat?, hslot]
  by_cases h : i = g.firstFree
  · rw [if_pos h, if_pos h]
    rfl
  · rw [if_neg h, if_neg h, seat?]

theorem seat?_firstFree (g : Registry) : g.seat? g.firstFree = none := by
  unfold seat? firstFree
  by_cases h : none ∈ g.slots
  · rw [List.getElem?_idxOf h]
    rfl
  · rw [List.idxOf_eq_length_iff.mpr h, List.getElem?_eq_none (Nat.le_refl _)]
    rfl

theorem seat?_of_lt {i : Nat} (h : i < g.firstFree) : ∃ n, g.seat? i = some n := by
  have hlength : i < g.slots.length := Nat.lt_of_lt_of_le h List.idxOf_le_length
  have htaken : (g.slots[i] == none) = false := List.not_of_lt_findIdx h
  rw [seat?, List.getElem?_eq_getElem hlength]
  cases hs : g.slots[i] with
  | none =>
    rw [hs] at htaken
    cases htaken
  | some r => exact ⟨r.serial, rfl⟩

theorem seat?_modify (g : Registry) (serial : Nat) {f : Record → Record} (hf : Gentle f) (i : Nat) :
    (g.modify serial f).seat? i = g.seat? i := by
  have hserial : ∀ r : Record, (if r.serial = serial then f r else r).serial = r.serial := by
    intro r
    split
    · exact (hf r).1
    · rfl
  simp only [seat?, modify, List.getElem?_map]
  rcases g.slots[i]? with _ | _ | r
  · rfl
  · rfl
  · exact congrArg some (hserial r)

theorem seat?_erase (g : Registry) (serial : Nat) (i : Nat) :
    (g.erase serial).seat? i = (g.seat? i).filter (· ≠ serial) := by
  simp only [seat?, erase, List.getElem?_map]
  rcases g.slots[i]? with _ | _ | r
  · rfl
  · rfl
  · by_cases h : r.serial = serial <;> simp [Option.filter, h]

theorem grows_refl (g : Registry) : Grows g g := by
  refine ⟨Nat.le_refl _, fun _ _ h => h, ?_, Nat.le_refl _, (Nat.max_eq_left g.size_le_slots).symm⟩
  intro i n hfree hn
  rw [hfree] at hn
  cases hn

theorem grows_trans (h : Grows g g') (h' : Grows g' g'') : Grows g g'' := by
  have hnext := h.next
  have hnext' := h'.next
  refine ⟨Nat.le_trans hnext hnext', fun i n hn => h'.stay i n (h.stay i n hn), ?_,
    Nat.le_trans h.size h'.size, ?_⟩
  · intro i n hfree hn
    cases hmid : g'.seat? i with
    | some k =>
      obtain rfl : k = n := Option.some.inj ((h'.stay i k hmid).symm.trans hn)
      obtain ⟨hnew, hold, hlower⟩ := h.come i k hfree hmid
      refine ⟨hnew, Nat.lt_of_lt_of_le hold hnext', ?_⟩
      intro j hj hfreej
      obtain ⟨m, hm, hlt⟩ := hlower j hj hfreej
      exact ⟨m, h'.stay j m hm, hlt⟩
    | none =>
      obtain ⟨hnew, hold, hlower⟩ := h'.come i n hmid hn
      refine ⟨Nat.le_trans hnext hnew, hold, ?_⟩
      intro j hj hfreej
      cases hmidj : g'.seat? j with
      | some k =>
        obtain ⟨-, hk, -⟩ := h.come j k hfreej hmidj
        exact ⟨k, h'.stay j k hmidj, Nat.lt_of_lt_of_le hk hnew⟩
      | none => exact hlower j hj hmidj
  · have hsize := h'.size
    rw [h'.slots, h.slots]
    omega

theorem size_add (g : Registry) (name : Text) : (g.add name).size = g.size + 1 :=
  (records_add_perm g name).length_eq

theorem length_slots_add (g : Registry) (name : Text) :
    (g.add name).slots.length = max g.slots.length (g.add name).size := by
  have hle := g.size_le_slots
  have hlength : (g.add name).slots.length =
    if none ∈ g.slots then g.slots.length else g.slots.length + 1 := length_place _ _
  rw [hlength, size_add]
  by_cases h : none ∈ g.slots
  · have hlt : g.size < g.slots.length :=
      List.length_filterMap_lt_length_iff_exists.mpr ⟨none, h, rfl⟩
    rw [if_pos h]
    omega
  · have hfull : g.size = g.slots.length := by
      apply List.filterMap_length_eq_length.mpr
      intro s hs
      cases s with
      | none => exact absurd hs h
      | some r => rfl
    rw [if_neg h]
    omega

theorem grows_add (g : Registry) (name : Text) : Grows g (g.add name) := by
  refine ⟨Nat.le_succ g.next, ?_, ?_, ?_, length_slots_add g name⟩
  · intro i n hn
    rw [seat?_add, if_neg]
    · exact hn
    · rintro rfl
      rw [seat?_firstFree] at hn
      cases hn
  · intro i n hfree hn
    rw [seat?_add] at hn
    split at hn
    · rename_i hi
      cases hn
      refine ⟨Nat.le_refl _, Nat.lt_succ_self _, ?_⟩
      intro j hj hfreej
      obtain ⟨m, hm⟩ := seat?_of_lt (hi ▸ hj)
      rw [hfreej] at hm
      cases hm
    · rw [hfree] at hn
      cases hn
  · rw [size_add]
    exact Nat.le_succ _

theorem size_modify (g : Registry) (serial : Nat) (f : Record → Record) :
    (g.modify serial f).size = g.size := by
  rw [size, records_modify, List.length_map, size]

theorem length_slots_modify (g : Registry) (serial : Nat) (f : Record → Record) :
    (g.modify serial f).slots.length = g.slots.length :=
  List.length_map ..

theorem grows_modify (g : Registry) (serial : Nat) {f : Record → Record} (hf : Gentle f) :
    Grows g (g.modify serial f) := by
  have h := grows_refl g
  have hnext : (g.modify serial f).next = g.next := rfl
  refine ⟨h.next, ?_, ?_, Nat.le_of_eq (size_modify g serial f).symm, ?_⟩
  · simpa only [seat?_modify g serial hf] using h.stay
  · simpa only [seat?_modify g serial hf, hnext] using h.come
  · rw [length_slots_modify, size_modify]
    exact h.slots

theorem shrinks_refl (g : Registry) : Shrinks g g := ⟨fun _ _ h => h, Nat.le_refl _, rfl⟩

theorem shrinks_trans (h : Shrinks g g') (h' : Shrinks g' g'') : Shrinks g g'' :=
  ⟨fun i n hn => h.stay i n (h'.stay i n hn), Nat.le_trans h'.size h.size, h'.slots.trans h.slots⟩

theorem shrinks_modify (g : Registry) (serial : Nat) {f : Record → Record} (hf : Gentle f) :
    Shrinks g (g.modify serial f) := by
  refine ⟨?_, Nat.le_of_eq (size_modify g serial f), length_slots_modify g serial f⟩
  intro i n hn
  rwa [seat?_modify g serial hf] at hn

theorem shrinks_erase (g : Registry) (serial : Nat) : Shrinks g (g.erase serial) := by
  refine ⟨?_, ?_, length_erase_slots g serial⟩
  · intro i n hn
    rw [seat?_erase] at hn
    exact (Option.filter_eq_some_iff.mp hn).1
  · rw [size, records_erase]
    exact List.length_filter_le _ _

end

end LetShell.Registry
