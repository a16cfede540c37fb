import LetShell.Proofs.Expression.Tokens
import LetShell.Proofs.Text.Caseless

/-!
# Respelled texts

A text is respelled by changing the case of letters in the names that follow a
`$`. Quoted texts are left alone, so where a quoted text begins and ends has to
be known: the scan of a text tells for each character whether it stands in a
name, in a quoted text, or in neither. Respelled texts are scanned alike.
-/

set_option autoImplicit false

namespace LetShell

/-- Where the next character of a text stands. -/
inductive Scan where
  | plain
  | name
  | single
  | double
  | escape
  deriving DecidableEq, Repr

namespace Scan
open Text Expression

def opened (c : Char) : Scan :=
  if c = '$' then .name else if c = '\'' then .single else if c = '"' then .double else .plain

def next : Scan → Char → Scan
  | .plain, c => opened c
  | .name, c => if Alphabet.environment.other c then .name else opened c
  | .single, c => if c = '\'' then .plain else .single
  | .double, c => if c = '"' then .plain else if c = '\\' then .escape else .double
  | .escape, _ => .double

/-- The character without its case, if it stands in a name. -/
def shade : Scan → Char → Char
  | .name, c => c.toLower
  | _, c => c

def faded : Scan → Text → Text
  | _, [] => []
  | m, c :: s => m.shade c :: faded (m.next c) s

/-- Equal but for the case of letters in the names after `$`, read on from `m`. -/
def Alike (m : Scan) (s t : Text) : Prop := m.faded s = m.faded t

instance (m : Scan) (s t : Text) : Decidable (Alike m s t) :=
  inferInstanceAs (Decidable (m.faded s = m.faded t))

section
variable {m : Scan} {c d : Char} {s t : Text} {p : Char → Bool}

theorem alike_symm (h : Alike m s t) : Alike m t s := h.symm

theorem eq_of_shade_eq (hm : m ≠ .name) (h : m.shade c = m.shade d) : d = c := by
  cases m with
  | name => exact absurd rfl hm
  | plain => exact h.symm
  | single => exact h.symm
  | double => exact h.symm
  | escape => exact h.symm

theorem next_eq_of_shade_eq (h : m.shade c = m.shade d) : m.next c = m.next d := by
  by_cases hm : m = .name
  · subst hm
    cases ho : Alphabet.environment.other c with
    | true =>
      have hd := eq_of_caseBlind caseBlind_other h
      simp only [next, ho, ← hd, if_true]
    | false => rw [eq_of_toLower_eq h ho]
  · rw [eq_of_shade_eq hm h]

theorem alike_nil (h : Alike m [] t) : t = [] := by
  cases t with
  | nil => rfl
  | cons d t => cases h

theorem alike_cons (h : Alike m (c :: s) t) :
    ∃ d t', t = d :: t' ∧ m.shade c = m.shade d ∧ Alike (m.next c) s t' := by
  cases t with
  | nil => cases h
  | cons d t =>
    obtain ⟨hcd, hst⟩ := List.cons.inj h
    refine ⟨d, t, rfl, hcd, ?_⟩
    rw [← next_eq_of_shade_eq hcd] at hst
    exact hst

theorem alike_cons_same (hm : m ≠ .name) (h : Alike m (c :: s) t) :
    ∃ t', t = c :: t' ∧ Alike (m.next c) s t' := by
  obtain ⟨d, t, rfl, hcd, hst⟩ := alike_cons h
  exact ⟨t, by rw [eq_of_shade_eq hm hcd], hst⟩

theorem alike_length (h : Alike m s t) : s.length = t.length := by
  induction s generalizing m t with
  | nil => rw [alike_nil h]
  | cons c s ih =>
    obtain ⟨d, t, rfl, -, hst⟩ := alike_cons h
    rw [List.length_cons, List.length_cons, ih hst]

theorem toLower_eq_of_shade_eq (h : m.shade c = m.shade d) : c.toLower = d.toLower := by
  by_cases hm : m = .name
  · subst hm
    exact h
  · rw [eq_of_shade_eq hm h]

theorem caseless_of_alike (h : Alike m s t) : Caseless s t := by
  induction s generalizing m t with
  | nil => rw [alike_nil h]; rfl
  | cons c s ih =>
    obtain ⟨d, t, rfl, hcd, hst⟩ := alike_cons h
    exact caseless_cons_iff.mpr ⟨toLower_eq_of_shade_eq hcd, ih hst⟩

theorem alike_take (h : Alike m s t) (n : Nat) : Alike m (s.take n) (t.take n) := by
  induction n generalizing m s t with
  | zero => rfl
  | succ n ih =>
    cases s with
    | nil => rw [alike_nil h]; rfl
    | cons c s =>
      obtain ⟨d, t, rfl, hcd, hst⟩ := alike_cons h
      have hrest := ih hst
      rw [next_eq_of_shade_eq hcd] at hrest
      simp only [List.take_succ_cons, Alike, faded, hcd, next_eq_of_shade_eq hcd]
      exact congrArg (m.shade d :: ·) hrest

theorem alike_drop {n : Nat} (hn : ∀ c ∈ s.take n, m.next c = m) (h : Alike m s t) :
    Alike m (s.drop n) (t.drop n) := by
  induction n generalizing s t with
  | zero => exact h
  | succ n ih =>
    cases s with
    | nil => rw [alike_nil h]; rfl
    | cons c s =>
      obtain ⟨d, t, rfl, -, hst⟩ := alike_cons h
      obtain ⟨hc, hs⟩ := List.forall_mem_cons.mp hn
      rw [hc] at hst
      exact ih hs hst

theorem alike_run (hp : ∀ c, p c = true → Scan.plain.next c = .plain) (h : Alike .plain s t) :
    s.takeWhile p = t.takeWhile p ∧ Alike .plain (s.dropWhile p) (t.dropWhile p) := by
  induction s generalizing t with
  | nil => rw [alike_nil h]; exact ⟨rfl, rfl⟩
  | cons c s ih =>
    obtain ⟨t, rfl, hst⟩ := alike_cons_same (by decide) h
    cases hc : p c with
    | true =>
      rw [hp c hc] at hst
      obtain ⟨htake, hdrop⟩ := ih hst
      simpa only [List.takeWhile_cons_of_pos hc, List.dropWhile_cons_of_pos hc, List.cons.injEq,
        true_and] using ⟨htake, hdrop⟩
    | false =>
      have hno : ¬ p c = true := by simp [hc]
      rw [List.takeWhile_cons_of_neg hno, List.takeWhile_cons_of_neg hno,
        List.dropWhile_cons_of_neg hno, List.dropWhile_cons_of_neg hno]
      exact ⟨rfl, h⟩

theorem opened_plain (h : c ≠ '$' ∧ c ≠ '\'' ∧ c ≠ '"') : opened c = .plain := by
  simp [opened, h.1, h.2.1, h.2.2]

theorem next_of_continues_nothing {c : Char} (h : p c = true)
    (hp : p '$' = false ∧ p '\'' = false ∧ p '"' = false) : Scan.plain.next c = .plain := by
  have hne : ∀ x, p x = false → c ≠ x := by
    rintro x hx rfl
    rw [hx] at h
    cases h
  exact opened_plain ⟨hne _ hp.1, hne _ hp.2.1, hne _ hp.2.2⟩

theorem next_option (h : Alphabet.option.other c = true) : Scan.plain.next c = .plain :=
  next_of_continues_nothing h (by decide +kernel)

theorem next_in_name (h : Alphabet.environment.other c = true) : Scan.name.next c = .name :=
  if_pos h

theorem next_after_name (h : Alphabet.environment.other c = false) :
    Scan.name.next c = Scan.plain.next c := by
  simp [next, h]

theorem alike_trimStart (h : Alike .plain s t) : Alike .plain s.trimStart t.trimStart :=
  (alike_run (fun _ hc => next_of_continues_nothing hc (by decide +kernel)) h).2

theorem alike_name_of_plain (h : Alike .plain s t) : Alike .name s t := by
  induction s generalizing t with
  | nil => rw [alike_nil h]; rfl
  | cons c s ih =>
    obtain ⟨t, rfl, hst⟩ := alike_cons_same (by decide) h
    cases hc : Alphabet.environment.other c with
    | true =>
      have hplain : Scan.plain.next c = .plain := next_of_continues_nothing hc (by decide +kernel)
      rw [hplain] at hst
      exact congrArg (c.toLower :: ·) (by rw [next_in_name hc]; exact ih hst)
    | false => exact congrArg (c.toLower :: ·) (by rw [next_after_name hc]; exact hst)

theorem alike_plain_of_name (hs : Free Alphabet.environment.other s) (h : Alike .name s t) :
    Alike .plain s t := by
  cases s with
  | nil => rw [alike_nil h]; rfl
  | cons c s =>
    obtain ⟨d, t, rfl, hcd, hst⟩ := alike_cons h
    have hc := hs c rfl
    rw [eq_of_toLower_eq hcd hc]
    rw [next_after_name hc] at hst
    exact congrArg (c :: ·) hst

theorem alike_name_run (h : Alike .name s t) :
    Caseless (s.takeWhile Alphabet.environment.other) (t.takeWhile Alphabet.environment.other) ∧
      Alike .plain (s.dropWhile Alphabet.environment.other)
        (t.dropWhile Alphabet.environment.other) := by
  induction s generalizing t with
  | nil => rw [alike_nil h]; exact ⟨rfl, rfl⟩
  | cons c s ih =>
    have hall := h
    obtain ⟨d, t, rfl, hcd, hst⟩ := alike_cons h
    have hd := eq_of_caseBlind caseBlind_other hcd
    cases hc : Alphabet.environment.other c with
    | true =>
      rw [next_in_name hc] at hst
      rw [hc] at hd
      obtain ⟨htake, hdrop⟩ := ih hst
      rw [List.takeWhile_cons_of_pos hc, List.takeWhile_cons_of_pos hd.symm,
        List.dropWhile_cons_of_pos hc, List.dropWhile_cons_of_pos hd.symm]
      exact ⟨caseless_cons_iff.mpr ⟨hcd, htake⟩, hdrop⟩
    | false =>
      have hno : ¬ Alphabet.environment.other c = true := by simp [hc]
      have hno' : ¬ Alphabet.environment.other d = true := by simp [← hd, hc]
      rw [List.takeWhile_cons_of_neg hno, List.takeWhile_cons_of_neg hno',
        List.dropWhile_cons_of_neg hno, List.dropWhile_cons_of_neg hno']
      exact ⟨rfl, alike_plain_of_name (free_cons hc s) hall⟩

end

end Scan

/-- Two results of one kind: values that go together, or errors that do. -/
inductive Paired {ε δ α β : Type} (E : ε → δ → Prop) (V : α → β → Prop) :
    Except ε α → Except δ β → Prop
  | ok {a : α} {b : β} (h : V a b) : Paired E V (.ok a) (.ok b)
  | error {e : ε} {d : δ} (h : E e d) : Paired E V (.error e) (.error d)

end LetShell
