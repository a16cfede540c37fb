import LetShell.Name
import LetShell.Text.Fold

/-!
# Texts equal up to case

Two texts that differ only in the case of ASCII letters have the same length
and one folded form, and a class of characters that takes a letter in both
cases or in neither cuts them at the same places.
-/

set_option autoImplicit false

namespace LetShell.Text

def capitalCodes : List Nat := List.range' 65 26

theorem toLower_of_not_capital {c : Char} (h : c.toNat ∉ capitalCodes) : c.toLower = c := by
  have hc : ¬ (c.val ≥ 'A'.val ∧ c.val ≤ 'Z'.val) := by
    rintro ⟨hlow, hhigh⟩
    apply h
    rw [capitalCodes, List.mem_range'_1]
    exact ⟨UInt32.le_iff_toNat_le.mp hlow, Nat.lt_succ_of_le (UInt32.le_iff_toNat_le.mp hhigh)⟩
  exact dif_neg hc

theorem forall_capital {P : Char → Prop} (h : ∀ n ∈ capitalCodes, P (Char.ofNat n)) {c : Char}
    (hc : c.toNat ∈ capitalCodes) : P c := by
  have hn := h c.toNat hc
  rwa [Char.ofNat_toNat] at hn

/-- What is said of a character without a look at its case. -/
def CaseBlind {α : Type} (f : Char → α) : Prop := ∀ c : Char, f c.toLower = f c

theorem caseBlind_of_capitals {α : Type} {f : Char → α}
    (h : ∀ n ∈ capitalCodes, f (Char.ofNat n).toLower = f (Char.ofNat n)) : CaseBlind f := by
  intro c
  by_cases hc : c.toNat ∈ capitalCodes
  · exact forall_capital (P := fun c => f c.toLower = f c) h hc
  · rw [toLower_of_not_capital hc]

theorem eq_of_caseBlind {α : Type} {f : Char → α} (hf : CaseBlind f) {c d : Char}
    (h : c.toLower = d.toLower) : f c = f d := by
  rw [← hf c, h, hf d]

theorem caseBlind_blank : CaseBlind isBlank := caseBlind_of_capitals (by decide +kernel)

theorem caseBlind_first : CaseBlind Alphabet.environment.first :=
  caseBlind_of_capitals (by decide +kernel)

theorem caseBlind_other : CaseBlind Alphabet.environment.other :=
  caseBlind_of_capitals (by decide +kernel)

theorem caseBlind_not {p : Char → Bool} (h : CaseBlind p) : CaseBlind fun c => !p c :=
  fun c => congrArg (!·) (h c)

theorem caseBlind_foldChar : CaseBlind foldChar := caseBlind_of_capitals (by decide +kernel)

theorem eq_of_toLower_eq {c d : Char} (h : c.toLower = d.toLower)
    (hc : Alphabet.environment.other c = false) : d = c := by
  have hd : Alphabet.environment.other d = false := by
    rw [← eq_of_caseBlind caseBlind_other h, hc]
  have hkeep : ∀ x : Char, Alphabet.environment.other x = false → x.toLower = x := by
    intro x hx
    apply toLower_of_not_capital
    intro hm
    have hletter : Alphabet.environment.other x = true :=
      forall_capital (P := fun c => Alphabet.environment.other c = true) (by decide +kernel) hm
    rw [hletter] at hx
    cases hx
  rw [← hkeep c hc, ← hkeep d hd, h]

/-- Equal up to the case of ASCII letters. -/
def Caseless (s t : Text) : Prop := s.map Char.toLower = t.map Char.toLower

instance (s t : Text) : Decidable (Caseless s t) :=
  inferInstanceAs (Decidable (s.map Char.toLower = t.map Char.toLower))

section
variable {c d : Char} {s t : Text} {p : Char → Bool}

theorem caseless_refl (t : Text) : Caseless t t := rfl

theorem caseless_cons_iff :
    Caseless (c :: s) (d :: t) ↔ c.toLower = d.toLower ∧ Caseless s t := by
  simp [Caseless]

theorem caseless_nil_iff : Caseless [] t ↔ t = [] := by
  simp [Caseless, eq_comm]

theorem caseless_cons_left (h : Caseless (c :: s) t) :
    ∃ d t', t = d :: t' ∧ c.toLower = d.toLower ∧ Caseless s t' := by
  cases t with
  | nil => exact absurd h (by simp [Caseless])
  | cons d t => exact ⟨d, t, rfl, caseless_cons_iff.mp h⟩

theorem caseless_length (h : Caseless s t) : s.length = t.length := by
  simpa using congrArg List.length h

theorem mem_iff_of_caseless (hc : Alphabet.environment.other c = false)
    (h : Caseless s t) : c ∈ s ↔ c ∈ t := by
  induction s generalizing t with
  | nil => rw [caseless_nil_iff.mp h]
  | cons x s ih =>
    obtain ⟨y, t, rfl, hxy, hst⟩ := caseless_cons_left h
    have hhead : c = x ↔ c = y := by
      constructor
      · rintro rfl
        exact (eq_of_toLower_eq hxy hc).symm
      · rintro rfl
        exact (eq_of_toLower_eq hxy.symm hc).symm
    rw [List.mem_cons, List.mem_cons, hhead, ih hst]

theorem caseless_takeWhile (hp : CaseBlind p) (h : Caseless s t) :
    Caseless (s.takeWhile p) (t.takeWhile p) := by
  induction s generalizing t with
  | nil => rw [caseless_nil_iff.mp h]; rfl
  | cons c s ih =>
    obtain ⟨d, t, rfl, hcd, hst⟩ := caseless_cons_left h
    have hpd := eq_of_caseBlind hp hcd
    cases hc : p c with
    | false =>
      rw [List.takeWhile_cons_of_neg (by simp [hc]),
        List.takeWhile_cons_of_neg (by simp [← hpd, hc])]
      rfl
    | true =>
      rw [List.takeWhile_cons_of_pos hc, List.takeWhile_cons_of_pos (hpd ▸ hc)]
      exact caseless_cons_iff.mpr ⟨hcd, ih hst⟩

theorem caseless_dropWhile (hp : CaseBlind p) (h : Caseless s t) :
    Caseless (s.dropWhile p) (t.dropWhile p) := by
  induction s generalizing t with
  | nil => rw [caseless_nil_iff.mp h]; rfl
  | cons c s ih =>
    obtain ⟨d, t, rfl, hcd, hst⟩ := caseless_cons_left h
    have hpd := eq_of_caseBlind hp hcd
    cases hc : p c with
    | false =>
      rw [List.dropWhile_cons_of_neg (by simp [hc]),
        List.dropWhile_cons_of_neg (by simp [← hpd, hc])]
      exact h
    | true =>
      rw [List.dropWhile_cons_of_pos hc, List.dropWhile_cons_of_pos (hpd ▸ hc)]
      exact ih hst

theorem caseless_take (h : Caseless s t) (n : Nat) : Caseless (s.take n) (t.take n) := by
  simp only [Caseless, List.map_take] at h ⊢
  rw [h]

theorem caseless_drop (h : Caseless s t) (n : Nat) : Caseless (s.drop n) (t.drop n) := by
  simp only [Caseless, List.map_drop] at h ⊢
  rw [h]

theorem fold_map_toLower (t : Text) : fold (t.map Char.toLower) = fold t := by
  rw [fold, List.flatMap_map, fold]
  exact congrArg (t.flatMap ·) (funext caseBlind_foldChar)

theorem fold_of_caseless (h : Caseless s t) : fold s = fold t := by
  rw [← fold_map_toLower s, h, fold_map_toLower]

end

end LetShell.Text
