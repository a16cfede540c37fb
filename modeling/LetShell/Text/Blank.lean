import LetShell.Text.Basic

/-!
# Blanks, words and lines

The blanks are the ASCII ones (with the four information separators), the next
line and no-break space, and the Unicode spaces and line separators. A text is
cut into words at runs of blanks, and into lines at any of ten line ends.
-/

set_option autoImplicit false

namespace LetShell.Text

def isBlank (c : Char) : Bool :=
  let n := c.toNat
  (0x09 ≤ n && n ≤ 0x0d) || (0x1c ≤ n && n ≤ 0x20) || n == 0x85 || n == 0xa0 || n == 0x1680 ||
    (0x2000 ≤ n && n ≤ 0x200a) || n == 0x2028 || n == 0x2029 || n == 0x202f || n == 0x205f ||
    n == 0x3000

def trimStart (t : Text) : Text := t.dropWhile isBlank

def trimEnd (t : Text) : Text := (t.reverse.dropWhile isBlank).reverse

def trim (t : Text) : Text := t.trimStart.trimEnd

def words : Text → List Text
  | [] => []
  | [c] => if isBlank c then [] else [[c]]
  | c :: d :: s =>
    if isBlank c then words (d :: s)
    else if isBlank d then [c] :: words (d :: s)
    else (words (d :: s)).modifyHead (c :: ·)

def token (t : Text) : Text × Text :=
  (t.takeWhile (fun c => !isBlank c), t.dropWhile (fun c => !isBlank c))

def isLineEnd (c : Char) : Bool :=
  let n := c.toNat
  (0x0a ≤ n && n ≤ 0x0d) || (0x1c ≤ n && n ≤ 0x1e) || n == 0x85 || n == 0x2028 || n == 0x2029

/-- The lines of a text without their ends. A carriage return and the line
feed after it end one line; a last line end opens no further line. -/
def lines : Text → List Text
  | [] => []
  | '\r' :: '\n' :: s => [] :: lines s
  | c :: s =>
    if isLineEnd c then [] :: lines s
    else match lines s with
      | [] => [[c]]
      | l :: ls => (c :: l) :: ls

theorem trimStart_of_blank {c : Char} {t : Text} (h : isBlank c = true) :
    trimStart (c :: t) = trimStart t := by
  simp [trimStart, h]

theorem trimStart_of_not_blank {c : Char} {t : Text} (h : isBlank c = false) :
    trimStart (c :: t) = c :: t := by
  simp [trimStart, h]

theorem head_trimStart {t s : Text} {c : Char} (h : trimStart t = c :: s) : isBlank c = false := by
  induction t with
  | nil => simp [trimStart] at h
  | cons d t ih =>
    cases hd : isBlank d with
    | true => exact ih (by rwa [trimStart_of_blank hd] at h)
    | false =>
      rw [trimStart_of_not_blank hd] at h
      cases h
      exact hd

theorem trimStart_append_eq (t : Text) :
    ∃ w : Text, (∀ c ∈ w, isBlank c = true) ∧ t = w ++ trimStart t :=
  ⟨t.takeWhile isBlank, List.all_eq_true.mp List.all_takeWhile, by simp [trimStart]⟩

theorem length_trimStart_le (t : Text) : (trimStart t).length ≤ t.length :=
  (List.dropWhile_sublist isBlank).length_le

theorem trimStart_trimStart (t : Text) : trimStart (trimStart t) = trimStart t := by
  cases h : trimStart t with
  | nil => rfl
  | cons c s => rw [trimStart_of_not_blank (head_trimStart h)]

theorem token_append (t : Text) : (token t).1 ++ (token t).2 = t := by simp [token]

theorem words_eq_nil_iff (t : Text) : words t = [] ↔ trimStart t = [] := by
  induction t using words.induct with
  | case1 => simp [words, trimStart]
  | case2 c h => simp [words, h, trimStart]
  | case3 c h => simp [words, h, trimStart]
  | case4 c d s h ih => rw [words, if_pos h, ih, trimStart_of_blank h]
  | case5 c d s h hd ih => simp [words, h, hd, trimStart]
  | case6 c d s h hd ih =>
    have hne : words (d :: s) ≠ [] := by
      intro hw
      simp [ih, trimStart, hd] at hw
    cases hw : words (d :: s) with
    | nil => exact absurd hw hne
    | cons w ws => simp [words, h, hd, hw, trimStart]

end LetShell.Text
