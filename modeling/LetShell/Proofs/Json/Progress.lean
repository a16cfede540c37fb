import LetShell.Json.Reader

/-!
# Progress of the JSON reader

Whatever the reader reads leaves a shorter text. So a value is read alike with
every depth over the length of its text, and the depth is no more than a measure
of the recursion: a value may be read as if there were none.
-/

set_option autoImplicit false

namespace LetShell.Json

def Shrinks (f : Text → Outcome (Json × Text)) : Prop :=
  ∀ t v rest, f t = .ok (v, rest) → rest.length < t.length

section
variable {t rest : Text}

theorem length_skip_le (t : Text) : (skip t).length ≤ t.length :=
  (List.dropWhile_suffix isBlank).length_le

theorem length_after_skip {c : Char} (h : skip t = c :: rest) : rest.length < t.length := by
  have hskip := length_skip_le t
  rw [h, List.length_cons] at hskip
  omega

theorem length_units {us : List Nat} (h : units t = some (us, rest)) : rest.length < t.length := by
  have hmap : ∀ {n : Nat} {s : Text} {us : List Nat},
      (∀ {us}, units s = some (us, rest) → rest.length < s.length) →
      (units s).map (fun p => (n :: p.1, p.2)) = some (us, rest) → rest.length < s.length := by
    intro n s us ih h
    obtain ⟨⟨us', rest'⟩, hs, heq⟩ := Option.map_eq_some_iff.mp h
    cases heq
    exact ih hs
  fun_induction units t generalizing us with
  | case1 | case4 | case6 | case7 => cases h
  | case2 s =>
    cases h
    exact Nat.lt_succ_self _
  | case3 a b c d s n _ =>
    rename_i ih
    have hs := hmap ih h
    simp only [List.length_cons]
    omega
  | case5 c s _ n _ =>
    rename_i ih
    have hs := hmap ih h
    simp only [List.length_cons]
    omega
  | case8 c s _ _ _ _ =>
    rename_i ih
    exact Nat.lt_succ_of_lt (hmap ih h)

theorem length_readString {key : Key} (h : readString t = .ok (key, rest)) :
    rest.length < t.length := by
  unfold readString at h
  split at h
  · rename_i us rest' hu
    cases h
    exact length_units hu
  · cases h

theorem length_dropWhile_le (p : Char → Bool) (t : Text) : (t.dropWhile p).length ≤ t.length :=
  (List.dropWhile_suffix p).length_le

theorem length_whole {digits : Text} (h : whole? t = some (digits, rest)) :
    rest.length < t.length := by
  unfold whole? at h
  split at h
  · cases h
    exact Nat.lt_succ_self _
  · split at h
    · cases h
      exact Nat.lt_succ_of_le (length_dropWhile_le _ _)
    · cases h
  · cases h

theorem length_fraction_le (t : Text) : (fraction t).2.length ≤ t.length := by
  unfold fraction
  split
  · rename_i c s
    split
    · have hs := length_dropWhile_le Char.isDigit s
      simp only [List.length_cons]
      omega
    · exact Nat.le_refl _
  · exact Nat.le_refl _

theorem length_power_le {negative : Bool} {n : Int} (h : power? negative t = some (n, rest)) :
    rest.length ≤ t.length := by
  unfold power? at h
  simp only at h
  split at h
  · cases h
  · cases h
    exact length_dropWhile_le _ _

theorem length_exponent_le {n : Int} (h : exponent? t = some (n, rest)) :
    rest.length ≤ t.length := by
  unfold exponent? at h
  split at h
  · split at h
    · split at h <;> have hs := length_power_le h <;> simp only [List.length_cons] at hs ⊢ <;> omega
    · cases h
  · cases h

end

/-- A sign or none, and digits that stand for a number before `left`. -/
def Signed (t digits left : Text) : Prop :=
  ∃ body, (t = body ∨ t = '-' :: body) ∧ whole? body = some (digits, left)

inductive Numbered (t : Text) : Outcome (Json × Text) → Prop
  | malformed : Numbered t (.error .malformed)
  | overlong {digits left : Text} (h : Signed t digits left) (hp : (fraction left).1 = [])
      (he : exponent? (fraction left).2 = none) (hl : digitLimit < digits.length) :
      Numbered t (.error (.tooLong digits.length))
  | value (v : Json) {rest : Text} (h : rest.length < t.length) : Numbered t (.ok (v, rest))

theorem numbered_readNumber (t : Text) : Numbered t (readNumber t) := by
  unfold readNumber
  split
  rename_i negative body hsign
  have hbody : t = body ∨ t = '-' :: body := by
    split at hsign <;> cases hsign
    · exact .inr rfl
    · exact .inl rfl
  have hlength : body.length ≤ t.length := by
    rcases hbody with rfl | rfl
    · exact Nat.le_refl _
    · exact Nat.le_succ _
  split
  · exact .malformed
  · rename_i digits left hw
    have hleft := length_whole hw
    have hfraction := length_fraction_le left
    simp only
    split
    · rename_i hp he
      split
      · rename_i hl
        exact .overlong ⟨body, hbody, hw⟩ hp he hl
      · exact .value _ (by omega)
    · rename_i places power hno
      cases hpower : exponent? (fraction left).2 with
      | none => exact .value _ (by simp only [Option.getD_none]; omega)
      | some p =>
        have hexponent := length_exponent_le hpower
        exact .value _ (by simp only [Option.getD_some]; omega)

theorem shrinks_readNumber : Shrinks readNumber := by
  intro t v rest h
  have hcases := numbered_readNumber t
  rw [h] at hcases
  cases hcases with
  | value _ hlength => exact hlength

section
variable {f g : Text → Outcome (Json × Text)} {fuel d : Nat} {t rest : Text}

theorem length_elements (hf : Shrinks f) {read vs : List Json}
    (h : elements f fuel read t = .ok (vs, rest)) : rest.length < t.length := by
  induction fuel generalizing read t with
  | zero => cases h
  | succ fuel ih =>
    rw [elements] at h
    split at h
    · cases h
    · rename_i v left hv
      have hvalue := hf t v left hv
      split at h
      · rename_i more hcomma
        have hafter := length_after_skip hcomma
        have hskip := length_skip_le more
        have hrest := ih h
        omega
      · rename_i more hclose
        cases h
        have hafter := length_after_skip hclose
        omega
      · cases h

theorem length_members (hf : Shrinks f) {read ms : List (Key × Json)}
    (h : members f fuel read t = .ok (ms, rest)) : rest.length < t.length := by
  induction fuel generalizing read t with
  | zero => cases h
  | succ fuel ih =>
    rw [members.eq_def] at h
    simp only at h
    split at h
    · rename_i s
      split at h
      · cases h
      · rename_i key left hk
        have hkey := length_readString hk
        split at h
        · rename_i start hcolon
          have hafter := length_after_skip hcolon
          have hskip := length_skip_le start
          split at h
          · cases h
          · rename_i v tail hv
            have hvalue := hf _ v tail hv
            simp only [List.length_cons]
            split at h
            · rename_i more hcomma
              have hafter' := length_after_skip hcomma
              have hskip' := length_skip_le more
              have hrest := ih h
              omega
            · rename_i more hclose
              cases h
              have hafter' := length_after_skip hclose
              omega
            · cases h
        · cases h
    · cases h

theorem shrinks_value (d : Nat) : Shrinks (value d) := by
  induction d with
  | zero =>
    intro t v rest h
    cases h
  | succ d ih =>
    intro t v rest h
    rw [value.eq_def] at h
    simp only at h
    split at h
    · rename_i s
      cases hs : readString s with
      | error e =>
        rw [hs] at h
        cases h
      | ok p =>
        rw [hs] at h
        cases h
        exact Nat.lt_succ_of_lt (length_readString hs)
    · rename_i s
      have hskip := length_skip_le s
      split at h
      · rename_i left hclose
        cases h
        exact Nat.lt_succ_of_lt (length_after_skip hclose)
      · cases hms : members (value d) ((skip s).length + 1) [] (skip s) with
        | error e =>
          rw [hms] at h
          cases h
        | ok p =>
          rw [hms] at h
          cases h
          exact Nat.lt_succ_of_le (Nat.le_trans (Nat.le_of_lt (length_members ih hms)) hskip)
    · rename_i s
      have hskip := length_skip_le s
      split at h
      · rename_i left hclose
        cases h
        exact Nat.lt_succ_of_lt (length_after_skip hclose)
      · cases hvs : elements (value d) ((skip s).length + 1) [] (skip s) with
        | error e =>
          rw [hvs] at h
          cases h
        | ok p =>
          rw [hvs] at h
          cases h
          exact Nat.lt_succ_of_le (Nat.le_trans (Nat.le_of_lt (length_elements ih hvs)) hskip)
    iterate 6
      · cases h
        simp only [List.length_cons]
        omega
    · exact shrinks_readNumber _ v rest h

theorem elements_congr (hf : Shrinks f) {read : List Json}
    (h : ∀ u, u.length ≤ t.length → f u = g u) :
    elements f fuel read t = elements g fuel read t := by
  induction fuel generalizing read t with
  | zero => rfl
  | succ fuel ih =>
    rw [elements, elements, ← h t (Nat.le_refl _)]
    cases hv : f t with
    | error e => rfl
    | ok p =>
      obtain ⟨v, left⟩ := p
      have hvalue := hf t v left hv
      simp only
      split
      · rename_i more hcomma
        have hafter := length_after_skip hcomma
        have hskip := length_skip_le more
        exact ih fun u hu => h u (by omega)
      · rfl
      · rfl

theorem members_congr (hf : Shrinks f) {read : List (Key × Json)}
    (h : ∀ u, u.length ≤ t.length → f u = g u) :
    members f fuel read t = members g fuel read t := by
  induction fuel generalizing read t with
  | zero => rfl
  | succ fuel ih =>
    rw [members.eq_def, members.eq_def]
    simp only
    split
    · rename_i s
      cases hk : readString s with
      | error e => rfl
      | ok p =>
        obtain ⟨key, left⟩ := p
        have hkey := length_readString hk
        simp only [List.length_cons] at h ⊢
        split
        · rename_i start hcolon
          have hafter := length_after_skip hcolon
          have hskip := length_skip_le start
          rw [← h (skip start) (by omega)]
          cases hv : f (skip start) with
          | error e => rfl
          | ok q =>
            obtain ⟨v, tail⟩ := q
            have hvalue := hf _ v tail hv
            simp only
            split
            · rename_i more hcomma
              have hafter' := length_after_skip hcomma
              have hskip' := length_skip_le more
              exact ih fun u hu => h u (by omega)
            · rfl
            · rfl
        · rfl
    · rfl

/-- Over the length of the text the depth does not matter. -/
theorem value_congr {d d' : Nat} (h : t.length < d) (h' : t.length < d') :
    value d t = value d' t := by
  induction d generalizing d' t with
  | zero => cases h
  | succ d ih =>
    cases d' with
    | zero => cases h'
    | succ d' =>
      rw [value.eq_def, value.eq_def]
      simp only
      split
      · rfl
      · rename_i s
        rw [List.length_cons] at h h'
        have hskip := length_skip_le s
        split
        · rfl
        · rw [members_congr (g := value d') (shrinks_value d) fun u hu => ih (by omega) (by omega)]
      · rename_i s
        rw [List.length_cons] at h h'
        have hskip := length_skip_le s
        split
        · rfl
        · rw [elements_congr (g := value d') (shrinks_value d) fun u hu => ih (by omega) (by omega)]
      iterate 7 rfl

end

def start (t : Text) : Outcome (Json × Text) := value (t.length + 1) t

theorem value_eq_start {d : Nat} {t : Text} (h : t.length < d) : value d t = start t :=
  value_congr h (Nat.lt_succ_self _)

theorem shrinks_start : Shrinks start := fun t => shrinks_value _ t

section
variable {s rest : Text}

theorem start_array_closed (h : skip s = ']' :: rest) :
    start ('[' :: s) = .ok (.array [], rest) := by
  rw [start, value]
  simp only [h]

theorem start_array (h : ∀ rest, skip s ≠ ']' :: rest) :
    start ('[' :: s) =
      (elements start ((skip s).length + 1) [] (skip s)).map fun p => (.array p.1, p.2) := by
  have hskip := length_skip_le s
  rw [start, List.length_cons, value]
  split
  · rename_i rest hclose
    exact absurd hclose (h rest)
  · rw [elements_congr (g := start) (shrinks_value _) fun u hu => value_eq_start (by omega)]

theorem start_object_closed (h : skip s = '\x7d' :: rest) :
    start ('\x7b' :: s) = .ok (.object [], rest) := by
  rw [start, value]
  simp only [h]

theorem start_object (h : ∀ rest, skip s ≠ '\x7d' :: rest) :
    start ('\x7b' :: s) =
      (members start ((skip s).length + 1) [] (skip s)).map fun p => (ofMembers p.1, p.2) := by
  have hskip := length_skip_le s
  rw [start, List.length_cons, value]
  split
  · rename_i rest hclose
    exact absurd hclose (h rest)
  · rw [members_congr (g := start) (shrinks_value _) fun u hu => value_eq_start (by omega)]

end

end LetShell.Json
