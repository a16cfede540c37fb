/-!
# Text

A text is a list of code points. This module holds the operations that look at
no character class: joining, splitting at one character, cutting to a length,
and the order by code points. Cutting a text at a character loses nothing but
that character.
-/

set_option autoImplicit false

namespace LetShell

abbrev Text := List Char

namespace Text

def ofNat (n : Nat) : Text := Nat.toDigits 10 n

def ofInt : Int → Text
  | .ofNat n => ofNat n
  | .negSucc n => '-' :: ofNat (n + 1)

def joined (separator : Text) (parts : List Text) : Text := separator.intercalate parts

def unlines (parts : List Text) : Text := joined ['\n'] parts

def pieces (c : Char) : Text → List Text
  | [] => [[]]
  | d :: s => if d = c then [] :: pieces c s else (pieces c s).modifyHead (d :: ·)

def cutAt (c : Char) : Text → Option (Text × Text)
  | [] => none
  | d :: s => if d = c then some ([], s) else (cutAt c s).map fun p => (d :: p.1, p.2)

/-- At most `limit` characters from the front. A negative limit counts from
the end: it drops that many of the last characters. -/
def upTo (limit : Int) (t : Text) : Text :=
  match limit with
  | .ofNat n => t.take n
  | .negSucc n => t.take (t.length - (n + 1))

def atMost : Text → Text → Bool
  | [], _ => true
  | _ :: _, [] => false
  | c :: s, d :: t => c.toNat < d.toNat || (c.toNat == d.toNat && atMost s t)

def sorted (ts : List Text) : List Text := ts.mergeSort atMost

def distinct : List Text → List Text
  | [] => []
  | t :: ts => t :: (distinct ts).filter (· ≠ t)

def hasPart (part : Text) : Text → Bool
  | [] => part.isEmpty
  | c :: s => part.isPrefixOf (c :: s) || hasPart part s

theorem pieces_ne_nil (c : Char) (t : Text) : pieces c t ≠ [] := by
  induction t with
  | nil => simp [pieces]
  | cons d s ih =>
    by_cases h : d = c
    · simp [pieces, h]
    · cases hp : pieces c s with
      | nil => exact absurd hp ih
      | cons p ps => simp [pieces, h, hp]

theorem cutAt_eq_some {c : Char} {t before after : Text} (h : cutAt c t = some (before, after)) :
    t = before ++ c :: after ∧ c ∉ before := by
  induction t generalizing before with
  | nil => simp [cutAt] at h
  | cons d s ih =>
    by_cases hd : d = c
    · simp [cutAt, hd] at h
      obtain ⟨rfl, rfl⟩ := h
      simp [hd]
    · simp only [cutAt, hd, if_false, Option.map_eq_some_iff] at h
      obtain ⟨⟨b, a⟩, hp, he⟩ := h
      cases he
      obtain ⟨hs, hb⟩ := ih hp
      exact ⟨by simp [hs], by simp [hb, Ne.symm hd]⟩

theorem cutAt_append {c : Char} {before : Text} (h : c ∉ before) (after : Text) :
    cutAt c (before ++ c :: after) = some (before, after) := by
  induction before with
  | nil => simp [cutAt]
  | cons d s ih =>
    have hd : d ≠ c := fun he => h (by simp [he])
    have hs : c ∉ s := fun hm => h (by simp [hm])
    simp [cutAt, hd, ih hs]

theorem mem_distinct {t : Text} {ts : List Text} : t ∈ distinct ts ↔ t ∈ ts := by
  induction ts with
  | nil => rfl
  | cons u us ih =>
    by_cases h : t = u
    · simp [distinct, h]
    · simp [distinct, h, ih]

theorem distinct_nodup (ts : List Text) : (distinct ts).Nodup := by
  induction ts with
  | nil => exact List.nodup_nil
  | cons u us ih =>
    simp only [distinct, List.nodup_cons]
    exact ⟨by simp, ih.filter _⟩

theorem upTo_of_length_le {limit : Int} {t : Text} (h : (t.length : Int) ≤ limit) :
    upTo limit t = t := by
  cases limit with
  | ofNat n => exact List.take_of_length_le (Int.ofNat_le.mp h)
  | negSucc n => omega

end Text

end LetShell
