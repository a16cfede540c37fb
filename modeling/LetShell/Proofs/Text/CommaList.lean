import Mathlib.Data.List.Nodup
import LetShell.Text.CommaList

/-!
# Lists written with commas

A list of distinct items, none of them empty and none with a comma, can be told
from its text: reading gives the items back in their order. Reading any text
gives such a list.
-/

set_option autoImplicit false

namespace LetShell.Text

/-- The items can be written as a comma list. -/
structure Listed (xs : List Text) : Prop where
  nodup : xs.Nodup
  nonempty : ∀ x ∈ xs, x ≠ []
  plain : ∀ x ∈ xs, ',' ∉ x

instance (xs : List Text) : Decidable (Listed xs) :=
  decidable_of_iff (xs.Nodup ∧ (∀ x ∈ xs, x ≠ []) ∧ ∀ x ∈ xs, ',' ∉ x)
    ⟨fun ⟨h1, h2, h3⟩ => ⟨h1, h2, h3⟩, fun ⟨h1, h2, h3⟩ => ⟨h1, h2, h3⟩⟩

section
variable {c : Char} {t x y : Text} {xs ys : List Text}

theorem pieces_plain (h : c ∉ x) : pieces c x = [x] := by
  induction x with
  | nil => rfl
  | cons d x ih =>
    have hd : d ≠ c := fun he => h (by simp [he])
    have hx : c ∉ x := fun hm => h (List.mem_cons_of_mem d hm)
    simp [pieces, hd, ih hx]

theorem pieces_append (h : c ∉ x) (t : Text) : pieces c (x ++ c :: t) = x :: pieces c t := by
  induction x with
  | nil => simp [pieces]
  | cons d x ih =>
    have hd : d ≠ c := fun he => h (by simp [he])
    have hx : c ∉ x := fun hm => h (List.mem_cons_of_mem d hm)
    simp [pieces, hd, ih hx]

theorem not_mem_of_mem_pieces (h : x ∈ pieces c t) : c ∉ x := by
  induction t generalizing x with
  | nil =>
    rw [List.mem_singleton.mp h]
    exact List.not_mem_nil
  | cons d t ih =>
    by_cases hd : d = c
    · simp only [pieces, hd, if_true] at h
      rcases List.mem_cons.mp h with rfl | h
      · exact List.not_mem_nil
      · exact ih h
    · simp only [pieces, hd, if_false] at h
      cases hp : pieces c t with
      | nil => exact absurd hp (pieces_ne_nil c t)
      | cons p ps =>
        rw [hp, List.modifyHead_cons] at h
        rcases List.mem_cons.mp h with rfl | h
        · simp [Ne.symm hd, ih (hp ▸ List.mem_cons_self ..)]
        · exact ih (hp ▸ List.mem_cons_of_mem p h)

theorem ofItems_cons (x y : Text) (xs : List Text) :
    ofItems (x :: y :: xs) = x ++ ',' :: ofItems (y :: xs) := by
  simp [ofItems, joined, List.intercalate_cons_cons]

theorem pieces_ofItems (h : ∀ x ∈ xs, ',' ∉ x) (hne : xs ≠ []) : pieces ',' (ofItems xs) = xs := by
  induction xs with
  | nil => exact absurd rfl hne
  | cons x xs ih =>
    obtain ⟨hx, hxs⟩ := List.forall_mem_cons.mp h
    cases xs with
    | nil =>
      have hone : ofItems [x] = x := by rw [ofItems, joined, List.intercalate_singleton]
      rw [hone, pieces_plain hx]
    | cons y xs => rw [ofItems_cons, pieces_append hx, ih hxs (List.cons_ne_nil y xs)]

theorem distinct_of_nodup (h : xs.Nodup) : distinct xs = xs := by
  induction xs with
  | nil => rfl
  | cons x xs ih =>
    obtain ⟨hx, hxs⟩ := List.nodup_cons.mp h
    rw [distinct, ih hxs]
    congr 1
    apply List.filter_eq_self.mpr
    intro y hy
    have hne : y ≠ x := fun he => hx (he ▸ hy)
    simpa using hne

theorem items_ofItems (h : Listed xs) : items (ofItems xs) = xs := by
  cases xs with
  | nil => rfl
  | cons x xs =>
    rw [items, pieces_ofItems h.plain (List.cons_ne_nil x xs)]
    have hkeep : (x :: xs).filter (· ≠ []) = x :: xs := by
      apply List.filter_eq_self.mpr
      intro y hy
      simpa using h.nonempty y hy
    rw [hkeep, distinct_of_nodup h.nodup]

theorem listed_items (t : Text) : Listed (items t) := by
  refine ⟨items_nodup t, fun x => ne_nil_of_mem_items, ?_⟩
  intro x hx
  exact not_mem_of_mem_pieces (List.mem_filter.mp (mem_distinct.mp hx)).1

theorem listed_sublist (h : Listed xs) (hs : ys.Sublist xs) : Listed ys :=
  ⟨hs.nodup h.nodup, fun y hy => h.nonempty y (hs.mem hy), fun y hy => h.plain y (hs.mem hy)⟩

theorem listed_append (hx : Listed xs) (hy : Listed ys) :
    Listed (xs ++ ys.filter (· ∉ xs)) := by
  have hnew : ∀ y ∈ ys.filter (· ∉ xs), y ∈ ys ∧ y ∉ xs := by
    intro y hm
    obtain ⟨hys, hxs⟩ := List.mem_filter.mp hm
    exact ⟨hys, by simpa using hxs⟩
  constructor
  · rw [List.nodup_append]
    refine ⟨hx.nodup, hy.nodup.filter _, ?_⟩
    rintro x hxs y hys rfl
    exact (hnew x hys).2 hxs
  · intro z hz
    rcases List.mem_append.mp hz with hz | hz
    · exact hx.nonempty z hz
    · exact hy.nonempty z (hnew z hz).1
  · intro z hz
    rcases List.mem_append.mp hz with hz | hz
    · exact hx.plain z hz
    · exact hy.plain z (hnew z hz).1

end

end LetShell.Text
