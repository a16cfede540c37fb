import LetShell.Proofs.Registry.Identity

/-!
# Records over time

A record keeps its serial number and its name for good, also after it has left
its slot. Once it is inherited it stays so and stays in its slot until all
slots are given up, and only loading an entry of the environment gives it
another first value. A removed record among the live ones is an inherited one.
-/

set_option autoImplicit false

namespace LetShell

/-- The record `s` is what `r` has become. If `exact`, its first value, once
inherited, is the same. -/
structure Record.Follows (exact : Prop) (r s : Record) : Prop where
  serial : s.serial = r.serial
  name : s.name = r.name
  inherited : r.inherited = true → s.inherited = true
  initial : exact → r.inherited = true → s.initial = r.initial

namespace Registry

/-- All records that ever were: the live ones and the retired. -/
def issued (g : Registry) : List Record := g.records ++ g.retired

structure Lawful (g : Registry) : Prop where
  sound : g.Sound
  tombs : ∀ r ∈ g.records, r.removed = true → r.inherited = true

/-- The registry `g'` comes after `g`. If `seated`, no slots were given up in
between. -/
structure Continues (exact seated : Prop) (g g' : Registry) : Prop where
  caseSensitive : g'.caseSensitive = g.caseSensitive
  issued : ∀ r ∈ g.issued, ∃ s ∈ g'.issued, r.Follows exact s
  seats : seated → ∀ (i : Nat) (r : Record), g.slots[i]? = some (some r) → r.inherited = true →
    ∃ s, g'.slots[i]? = some (some s) ∧ r.Follows exact s

/-- A step that is right to take from a lawful registry. -/
def Advances (exact seated : Prop) (g g' : Registry) : Prop :=
  g.Lawful → g'.Lawful ∧ Continues exact seated g g'

section
variable {exact seated exact' seated' : Prop} {g g' g'' : Registry} {r s : Record}

theorem follows_refl (exact : Prop) (r : Record) : r.Follows exact r :=
  ⟨rfl, rfl, fun h => h, fun _ _ => rfl⟩

theorem follows_trans {r s t : Record} (h : r.Follows exact s) (h' : s.Follows exact' t) :
    r.Follows (exact ∧ exact') t := by
  refine ⟨h'.serial.trans h.serial, h'.name.trans h.name, fun hi => h'.inherited (h.inherited hi), ?_⟩
  rintro ⟨hx, hx'⟩ hi
  rw [h'.initial hx' (h.inherited hi), h.initial hx hi]

theorem follows_mono (hx : exact' → exact) (h : r.Follows exact s) : r.Follows exact' s :=
  ⟨h.serial, h.name, h.inherited, fun hx' => h.initial (hx hx')⟩

theorem advances_refl (exact seated : Prop) (g : Registry) : Advances exact seated g g := by
  intro h
  refine ⟨h, rfl, ?_, ?_⟩
  · intro r hr
    exact ⟨r, hr, follows_refl exact r⟩
  · intro _ i r hr _
    exact ⟨r, hr, follows_refl exact r⟩

theorem advances_trans (h : Advances exact seated g g') (h' : Advances exact' seated' g' g'') :
    Advances (exact ∧ exact') (seated ∧ seated') g g'' := by
  intro hg
  obtain ⟨hg', hc⟩ := h hg
  obtain ⟨hg'', hc'⟩ := h' hg'
  refine ⟨hg'', hc'.caseSensitive.trans hc.caseSensitive, ?_, ?_⟩
  · intro r hr
    obtain ⟨s, hs, hrs⟩ := hc.issued r hr
    obtain ⟨t, ht, hst⟩ := hc'.issued s hs
    exact ⟨t, ht, follows_trans hrs hst⟩
  · rintro ⟨hseat, hseat'⟩ i r hr hi
    obtain ⟨s, hs, hrs⟩ := hc.seats hseat i r hr hi
    obtain ⟨t, ht, hst⟩ := hc'.seats hseat' i s hs (hrs.inherited hi)
    exact ⟨t, ht, follows_trans hrs hst⟩

theorem advances_mono (hx : exact' → exact) (hs : seated' → seated)
    (h : Advances exact seated g g') : Advances exact' seated' g g' := by
  intro hg
  obtain ⟨hg', hc⟩ := h hg
  refine ⟨hg', hc.caseSensitive, ?_, ?_⟩
  · intro r hr
    obtain ⟨s, hm, hrs⟩ := hc.issued r hr
    exact ⟨s, hm, follows_mono hx hrs⟩
  · intro hseat i r hr hi
    obtain ⟨s, hm, hrs⟩ := hc.seats (hs hseat) i r hr hi
    exact ⟨s, hm, follows_mono hx hrs⟩

theorem lawful_empty (caseSensitive : Bool) (refused : List Text) :
    (empty caseSensitive refused).Lawful :=
  ⟨sound_empty caseSensitive refused, by simp [empty, records]⟩

theorem advances_refusing (exact seated : Prop) (g : Registry) (names : List Text) :
    Advances exact seated g { g with refused := names } := by
  intro h
  obtain ⟨-, hc⟩ := advances_refl exact seated g h
  exact ⟨⟨⟨h.sound.serials, h.sound.bound, h.sound.keys⟩, h.tombs⟩, rfl, hc.issued, hc.seats⟩

theorem getElem?_place (s : Record) {slots : List (Option Record)} {i : Nat}
    (h : slots[i]? = some (some r)) : (place s slots)[i]? = some (some r) := by
  induction slots generalizing i with
  | nil => cases h
  | cons x slots ih =>
    cases x with
    | none => cases i with
      | zero => cases h
      | succ i => exact h
    | some x => cases i with
      | zero => exact h
      | succ i => exact ih h

theorem advances_add (exact seated : Prop) {name : Text} (hn : g.find? name = none) :
    Advances exact seated g (g.add name) := by
  intro h
  refine ⟨⟨sound_add h.sound hn, ?_⟩, rfl, ?_, ?_⟩
  · intro r hr hrem
    rcases mem_records_add.mp hr with rfl | hr
    · cases hrem
    · exact h.tombs r hr hrem
  · intro r hr
    refine ⟨r, ?_, follows_refl exact r⟩
    rcases List.mem_append.mp hr with hr | hr
    · exact List.mem_append_left _ (mem_records_add.mpr (.inr hr))
    · exact List.mem_append_right _ hr
  · intro _ i r hr _
    exact ⟨r, getElem?_place _ hr, follows_refl exact r⟩

/-- A change of one record. If it reaches a live one, it must not leave it
removed without being inherited. -/
theorem advances_modify (seated : Prop) (serial : Nat) {f : Record → Record}
    (hf : ∀ r : Record, r.Follows exact (f r))
    (ht : ∀ r ∈ g.records, r.serial = serial → (r.removed = true → r.inherited = true) →
      (f r).removed = true → (f r).inherited = true) :
    Advances exact seated g (g.modify serial f) := by
  intro h
  have hchange : ∀ r : Record, r.Follows exact (if r.serial = serial then f r else r) := by
    intro r
    split
    · exact hf r
    · exact follows_refl exact r
  have hgentle : Gentle f := fun r => ⟨(hf r).serial, (hf r).name⟩
  have hissued : (g.modify serial f).issued =
      g.issued.map fun r => if r.serial = serial then f r else r := by
    rw [issued, records_modify, issued, List.map_append]
    rfl
  refine ⟨⟨sound_modify h.sound serial hgentle, ?_⟩, rfl, ?_, ?_⟩
  · intro s hs hrem
    rw [records_modify] at hs
    obtain ⟨r, hr, rfl⟩ := List.mem_map.mp hs
    by_cases hserial : r.serial = serial
    · simp only [hserial, if_true] at hrem ⊢
      exact ht r hr hserial (h.tombs r hr) hrem
    · simp only [hserial, if_false] at hrem ⊢
      exact h.tombs r hr hrem
  · intro r hr
    rw [hissued]
    exact ⟨_, List.mem_map.mpr ⟨r, hr, rfl⟩, hchange r⟩
  · intro _ i r hr _
    refine ⟨_, ?_, hchange r⟩
    simp only [modify, List.getElem?_map, hr, Option.map_some]

theorem advances_erase (exact seated : Prop) {serial : Nat}
    (hs : ∀ r ∈ g.records, r.serial = serial → r.inherited = false) :
    Advances exact seated g (g.erase serial) := by
  intro h
  refine ⟨⟨sound_erase h.sound serial, ?_⟩, rfl, ?_, ?_⟩
  · intro r hr hrem
    rw [records_erase] at hr
    exact h.tombs r (List.mem_filter.mp hr).1 hrem
  · intro r hr
    refine ⟨r, ?_, follows_refl exact r⟩
    have hretired : (g.erase serial).retired =
      g.retired ++ g.records.filter fun r => r.serial = serial := rfl
    rw [issued, records_erase, hretired]
    by_cases hr' : r.serial = serial <;> rcases List.mem_append.mp hr with hr | hr <;>
      simp [hr, hr']
  · intro _ i r hr hi
    refine ⟨r, ?_, follows_refl exact r⟩
    have hrec : r ∈ g.records := List.mem_filterMap.mpr ⟨_, List.mem_of_getElem? hr, rfl⟩
    have hne : r.serial ≠ serial := by
      intro he
      rw [hs r hrec he] at hi
      cases hi
    simp [erase, hr, hne, Option.filter]

theorem advances_clear (exact : Prop) (g : Registry) : Advances exact False g g.clear := by
  intro h
  refine ⟨⟨sound_clear h.sound, ?_⟩, rfl, ?_, fun hseat => hseat.elim⟩
  · intro r hr
    cases hr
  · intro r hr
    have hretired : g.clear.issued = g.retired ++ g.records := rfl
    refine ⟨r, ?_, follows_refl exact r⟩
    rw [hretired, List.mem_append]
    exact (List.mem_append.mp hr).symm

end

end Registry

end LetShell
