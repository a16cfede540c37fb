import Mathlib.Data.List.Forall2
import LetShell.Proofs.Text.Caseless
import LetShell.Registry

/-!
# Registries with respelled names

Where names are compared by their folded form, two registries whose records
differ slot by slot in the case of their names at most cannot be told apart:
a name finds records that go together, and every operation keeps the slots in
step.
-/

set_option autoImplicit false

namespace LetShell
open Text

structure Record.Like (r s : Record) : Prop where
  serial : s.serial = r.serial
  name : Caseless r.name s.name
  value : s.value = r.value
  initial : s.initial = r.initial
  inherited : s.inherited = r.inherited
  removed : s.removed = r.removed

theorem Record.like_refl (r : Record) : r.Like r := ⟨rfl, rfl, rfl, rfl, rfl, rfl⟩

namespace Registry

/-- Registries that do not look at case and refuse no name, with like records in
every slot. -/
structure Like (g h : Registry) : Prop where
  blind : g.caseSensitive = false ∧ h.caseSensitive = false
  willing : g.refused = [] ∧ h.refused = []
  slots : List.Forall₂ (Option.Rel Record.Like) g.slots h.slots
  retired : List.Forall₂ Record.Like g.retired h.retired
  next : h.next = g.next

section
variable {α β : Type} {R : α → β → Prop} {xs : List α} {ys : List β}

theorem forall₂_find? {p : α → Bool} {q : β → Bool} (hpq : ∀ x y, R x y → p x = q y)
    (h : List.Forall₂ R xs ys) : Option.Rel R (xs.find? p) (ys.find? q) := by
  induction h with
  | nil => exact .none
  | @cons x y xs ys hxy _ ih =>
    have hp := hpq x y hxy
    cases hx : p x with
    | true =>
      rw [List.find?_cons_of_pos hx, List.find?_cons_of_pos (hp ▸ hx)]
      exact .some hxy
    | false =>
      rw [List.find?_cons_of_neg (by simp [hx]), List.find?_cons_of_neg (by simp [← hp, hx])]
      exact ih

theorem forall₂_any {p : α → Bool} {q : β → Bool} (hpq : ∀ x y, R x y → p x = q y)
    (h : List.Forall₂ R xs ys) : xs.any p = ys.any q := by
  induction h with
  | nil => rfl
  | cons hxy _ ih => rw [List.any_cons, List.any_cons, hpq _ _ hxy, ih]

end

section
variable {g h : Registry} {n m : Text}

theorem like_refl {g : Registry} (hb : g.caseSensitive = false) (hr : g.refused = []) :
    g.Like g := by
  refine ⟨⟨hb, hb⟩, ⟨hr, hr⟩, ?_, ?_, rfl⟩
  · apply List.forall₂_same.mpr
    intro x _
    cases x with
    | none => exact .none
    | some r => exact .some r.like_refl
  · exact List.forall₂_same.mpr fun r _ => r.like_refl

theorem key_eq_fold (hb : g.caseSensitive = false) (n : Text) : g.key n = n.fold := by
  simp [key, hb]

theorem like_records (hl : g.Like h) : List.Forall₂ Record.Like g.records h.records :=
  List.rel_filterMap (fun _ _ hxy => hxy) hl.slots

theorem like_find? (hl : g.Like h) (hn : Caseless n m) :
    Option.Rel Record.Like (g.find? n) (h.find? m) := by
  apply forall₂_find? _ (like_records hl)
  intro r s hrs
  simp only [key_eq_fold hl.blind.1, key_eq_fold hl.blind.2, fold_of_caseless hn,
    fold_of_caseless hrs.name]

theorem like_read (hl : g.Like h) (hn : Caseless n m) : g.read n = h.read m := by
  have hfind := like_find? hl hn
  unfold read
  generalize g.find? n = x at hfind
  generalize h.find? m = y at hfind
  cases hfind with
  | none => rfl
  | some hrs => simp only [hrs.removed, hrs.value]

theorem like_place {r s : Record} (hrs : r.Like s) {xs ys : List (Option Record)}
    (h : List.Forall₂ (Option.Rel Record.Like) xs ys) :
    List.Forall₂ (Option.Rel Record.Like) (place r xs) (place s ys) := by
  induction h with
  | nil => exact .cons (.some hrs) .nil
  | cons hxy hrest ih =>
    cases hxy with
    | none => exact .cons (.some hrs) hrest
    | some hxy => exact .cons (.some hxy) ih

theorem like_add (hl : g.Like h) (hn : Caseless n m) : (g.add n).Like (h.add m) := by
  have hfresh : (Record.fresh g.next n).Like (.fresh h.next m) :=
    ⟨hl.next, hn, rfl, rfl, rfl, rfl⟩
  exact ⟨hl.blind, hl.willing, like_place hfresh hl.slots, hl.retired,
    congrArg (· + 1) hl.next⟩

theorem like_modify (hl : g.Like h) (serial : Nat) {f : Record → Record}
    (hf : ∀ r s : Record, r.Like s → (f r).Like (f s)) :
    (g.modify serial f).Like (h.modify serial f) := by
  have hchange : ∀ r s : Record, r.Like s →
      (if r.serial = serial then f r else r).Like (if s.serial = serial then f s else s) := by
    intro r s hrs
    rw [hrs.serial]
    split
    · exact hf r s hrs
    · exact hrs
  refine ⟨hl.blind, hl.willing, ?_, ?_, hl.next⟩
  · apply List.rel_map _ hl.slots
    intro x y hxy
    cases hxy with
    | none => exact .none
    | some hrs => exact .some (hchange _ _ hrs)
  · exact List.rel_map hchange hl.retired

theorem like_record? (hl : g.Like h) (serial : Nat) :
    Option.Rel Record.Like (g.record? serial) (h.record? serial) := by
  apply forall₂_find? _ (List.rel_append (like_records hl) hl.retired)
  intro r s hrs
  rw [hrs.serial]

theorem like_isLive (hl : g.Like h) (serial : Nat) : g.isLive serial = h.isLive serial := by
  apply forall₂_any _ (like_records hl)
  intro r s hrs
  rw [hrs.serial]

theorem like_erase (hl : g.Like h) (serial : Nat) : (g.erase serial).Like (h.erase serial) := by
  refine ⟨hl.blind, hl.willing, ?_, ?_, hl.next⟩
  · apply List.rel_map _ hl.slots
    intro x y hxy
    cases hxy with
    | none => exact .none
    | @some r s hrs =>
      simp only [Option.filter, hrs.serial]
      split
      · exact .some hrs
      · exact .none
  · apply List.rel_append hl.retired
    apply List.rel_filter _ (like_records hl)
    intro r s hrs
    simp only [hrs.serial]

end

end Registry

end LetShell
