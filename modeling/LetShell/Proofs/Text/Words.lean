import LetShell.Text.Blank

/-!
# First words and single lines

The first word of a text is what stands before the first blank once the outer
blanks are gone. A text has one unless it is all blank. A text without a line
feed was put together from one line only.
-/

set_option autoImplicit false

namespace LetShell.Text

def isSolid (c : Char) : Bool := !isBlank c

theorem not_blank_of_all {t : Text} (h : t.all isSolid = true) : ∀ c ∈ t, isBlank c = false := by
  intro c hc
  simpa [isSolid] using List.all_eq_true.mp h c hc

theorem words_trimStart (t : Text) : words (trimStart t) = words t := by
  induction t with
  | nil => rfl
  | cons c t ih =>
    cases hc : isBlank c with
    | false => rw [trimStart_of_not_blank hc]
    | true =>
      rw [trimStart_of_blank hc, ih]
      cases t with
      | nil => simp [words, hc]
      | cons d t => simp [words, hc]

theorem words_of_not_blank {c : Char} {t : Text} (h : isBlank c = false) :
    words (c :: t) = (c :: t).takeWhile isSolid :: words ((c :: t).dropWhile isSolid) := by
  induction t generalizing c with
  | nil => simp [words, isSolid, h]
  | cons d t ih =>
    cases hd : isBlank d with
    | true => simp [words, isSolid, h, hd]
    | false =>
      have hc : isSolid c = true := by simp [isSolid, h]
      rw [words, if_neg (by simp [h]), if_neg (by simp [hd]), ih hd, List.modifyHead_cons,
        List.takeWhile_cons_of_pos hc, List.dropWhile_cons_of_pos hc]

theorem head?_words_of_not_blank {c : Char} {t : Text} (h : isBlank c = false) :
    (words (c :: t)).head? = some ((c :: t).takeWhile isSolid) := by
  rw [words_of_not_blank h, List.head?_cons]

theorem trimEnd_append_eq (t : Text) :
    ∃ w : Text, (∀ c ∈ w, isBlank c = true) ∧ t = trimEnd t ++ w := by
  obtain ⟨w, hw, ht⟩ := trimStart_append_eq t.reverse
  refine ⟨w.reverse, fun c hc => hw c (List.mem_reverse.mp hc), ?_⟩
  rw [trimEnd, ← List.reverse_append, ← trimStart, ← ht, List.reverse_reverse]

theorem takeWhile_trimEnd (t : Text) : (trimEnd t).takeWhile isSolid = t.takeWhile isSolid := by
  obtain ⟨w, hw, ht⟩ := trimEnd_append_eq t
  have hend : w.takeWhile isSolid = [] := by
    cases w with
    | nil => rfl
    | cons c s =>
      have hc : isBlank c = true := hw c (List.mem_cons_self ..)
      exact List.takeWhile_cons_of_neg (by simp [isSolid, hc])
  conv => rhs; rw [ht, List.takeWhile_append, hend]
  split
  · rename_i hall
    rw [List.append_nil]
    exact (List.takeWhile_prefix _).eq_of_length hall
  · rfl

theorem head?_words (t : Text) :
    (words t).head? = if trim t = [] then none else some (token (trim t)).1 := by
  have htoken : (token (trim t)).1 = (trimStart t).takeWhile isSolid := takeWhile_trimEnd _
  rw [htoken, ← words_trimStart]
  cases hs : trimStart t with
  | nil =>
    have hnone : trim t = [] := by rw [trim, hs]; rfl
    rw [if_pos hnone]
    rfl
  | cons c s =>
    have hc := head_trimStart hs
    have hsome : trim t ≠ [] := by
      intro hnone
      have hempty := takeWhile_trimEnd (trimStart t)
      rw [← trim, hnone, hs, List.takeWhile_cons_of_pos (by simp [isSolid, hc])] at hempty
      cases hempty
    rw [if_neg hsome, head?_words_of_not_blank hc]

theorem unlines_eq_iff {t : Text} (hne : t ≠ []) (ht : '\n' ∉ t) (ts : List Text) :
    unlines ts = t ↔ ts = [t] := by
  cases ts with
  | nil => simp [unlines, joined, Ne.symm hne]
  | cons x xs =>
    cases xs with
    | nil => simp [unlines, joined]
    | cons y ys =>
      constructor
      · intro h
        rw [unlines, joined, List.intercalate_cons_cons] at h
        exact absurd (h ▸ by simp) ht
      · intro h
        cases h

end LetShell.Text
