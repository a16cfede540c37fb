import LetShell.Proofs.Expression.Tokens
import LetShell.Statement

/-!
# The written form of an assignment

An assignment is a target, an operator and what stands after it, with blanks
before the first two. Neither a blank nor an operator continues a name, and no
option name holds a colon, so a text has one such form at most. The reader of a
target stops at the longest name without a word, but what it leaves of a longer
one is no operator: the two readers together take whole names only.
-/

set_option autoImplicit false

namespace LetShell
open Expression

namespace Kind

def sigil : Kind → Text
  | .environment => ['$']
  | .anyOption => ['&']
  | .globalOption => ['&', 'g', ':']
  | .localOption => ['&', 'l', ':']

def alphabet : Kind → Alphabet
  | .environment => .environment
  | .anyOption | .globalOption | .localOption => .option

end Kind

def Target.spelling (target : Target) : Text := target.kind.sigil ++ target.name

/-- The text assigns `x` to a target, whose name may have any length. -/
def Assigns (t : Text) (target : Target) (op : Operator) (x : Text) : Prop :=
  target.kind.alphabet.Accepts target.name ∧
    ∃ before between : Text, Blank before ∧ Blank between ∧
      t = before ++ target.spelling ++ between ++ op.spelling ++ x

section
variable {p : Char → Bool} {a : Alphabet} {limit : Int} {t name rest : Text}

theorem free_take (h : Free p t) (n : Nat) : Free p (t.take n) := by
  intro c hc
  cases n with
  | zero => cases hc
  | succ n => cases t with
    | nil => cases hc
    | cons d t => exact h c hc

theorem Name.run_complete {s : Text} (hs : ∀ c ∈ s, p c = true) (hl : (s.length : Int) ≤ limit)
    (hf : Free p rest) : Name.run p limit (s ++ rest) = (s, rest) := by
  have htake : (s ++ rest).take limit.toNat = s ++ rest.take (limit.toNat - s.length) := by
    rw [List.take_append, List.take_of_length_le (by omega)]
  simp only [Name.run, htake, takeWhile_run hs (free_take hf _), List.drop_left]

theorem Name.read_complete (ha : a.Accepts name) (hl : (name.length : Int) ≤ limit)
    (hf : Free a.other rest) : Name.read a limit (name ++ rest) = .ok (name, rest) := by
  cases name with
  | nil => exact ha.elim
  | cons c s =>
    have hlength : (s.length : Int) + 1 ≤ limit := by simpa using hl
    have hgo : ¬(limit ≤ 0 ∨ a.first c = false) := by
      rintro (hle | hc)
      · omega
      · rw [ha.1] at hc
        cases hc
    rw [List.cons_append, Name.read, if_neg hgo, Name.run_complete ha.2 (by omega) hf]

theorem Name.read_sound (h : Name.read a limit t = .ok (name, rest)) :
    t = name ++ rest ∧ a.Accepts name ∧ (name.length : Int) ≤ limit := by
  cases t with
  | nil => cases h
  | cons c s =>
    rw [Name.read] at h
    split at h
    · cases h
    · rename_i hgo
      cases h
      have hc : a.first c = true := by
        rw [← Bool.not_eq_false]
        exact fun hc => hgo (.inr hc)
      refine ⟨?_, ⟨hc, Name.run_all _ _ _⟩, ?_⟩
      · exact (congrArg (c :: ·) (Name.run_append a.other (limit - 1) s)).symm
      · have hrun : (Name.run a.other (limit - 1) s).1.length ≤ (limit - 1).toNat :=
          Nat.le_trans (List.takeWhile_prefix _).length_le (List.length_take_le _ _)
        simp only [Name.run] at hrun
        simp only [List.length_cons]
        omega

end

/-- What would change the reading of a target before it. -/
def Kind.continues (kind : Kind) (c : Char) : Bool := kind.alphabet.other c || c == ':'

theorem Kind.free_operator (kind : Kind) {between : Text} (hb : Blank between) (op : Operator)
    (x : Text) : Free kind.continues (between ++ op.spelling ++ x) := by
  cases between with
  | nil =>
    cases op with
    | assign => exact free_cons (by cases kind <;> decide) x
    | append => exact free_cons (by cases kind <;> decide) ('=' :: x)
    | add => exact free_cons (by cases kind <;> decide) ('=' :: x)
    | subtract => exact free_cons (by cases kind <;> decide) ('=' :: x)
  | cons b between =>
    have hblank := hb b (List.mem_cons_self ..)
    obtain ⟨-, -, henv, hopt⟩ := blank_continues_nothing hblank
    have hcolon : (b == ':') = false := by
      rw [beq_eq_false_iff_ne]
      rintro rfl
      revert hblank
      decide
    refine free_cons ?_ _
    cases kind <;> simp only [continues, alphabet, henv, hopt, hcolon] <;> rfl

section
variable {kind : Kind} {rest : Text}

theorem Kind.free_other (h : Free kind.continues rest) : Free kind.alphabet.other rest := by
  intro c hc
  exact (Bool.or_eq_false_iff.mp (h c hc)).1

theorem Kind.not_colon (h : Free kind.continues rest) (s : Text) : rest ≠ ':' :: s := by
  rintro rfl
  have hc := (Bool.or_eq_false_iff.mp (h ':' rfl)).2
  cases hc

end

namespace Target

section
variable {limit : Int} {t s name rest : Text} {kind : Kind} {target : Target}

theorem scopeOf_sound (h : scopeOf t = (kind, s)) :
    '&' :: t = kind.sigil ++ s ∧ kind.alphabet = .option := by
  unfold scopeOf at h
  split at h <;> cases h <;> exact ⟨rfl, rfl⟩

theorem scopeOf_name (ha : Alphabet.option.Accepts name) (hf : Free Kind.anyOption.continues rest) :
    scopeOf (name ++ rest) = (.anyOption, name ++ rest) := by
  have hscope : ∀ (c : Char) (r : Text), name ++ rest ≠ c :: ':' :: r := by
    intro c r he
    cases name with
    | nil => exact ha.elim
    | cons d s =>
      have htail := (List.cons.inj he).2
      cases s with
      | nil => exact Kind.not_colon hf r htail
      | cons x s =>
        have hx := ha.2 x (List.mem_cons_self ..)
        rw [(List.cons.inj htail).1] at hx
        revert hx
        decide
  unfold scopeOf
  split
  · rename_i he
    exact absurd he (hscope 'g' _)
  · rename_i he
    exact absurd he (hscope 'l' _)
  · rfl

theorem read_environment (h : Name.read .environment limit s = .ok (name, rest)) :
    read limit ('$' :: s) = .ok (⟨.environment, name⟩, rest) := by
  simp only [read, h]

theorem read_option (hs : scopeOf t = (kind, s)) (h : Name.read .option limit s = .ok (name, rest)) :
    read limit ('&' :: t) = .ok (⟨kind, name⟩, rest) := by
  simp only [read, hs, h]

theorem read_sound (h : read limit t = .ok (target, rest)) :
    t = target.spelling ++ rest ∧ target.kind.alphabet.Accepts target.name ∧
      (target.name.length : Int) ≤ limit := by
  unfold read at h
  split at h
  · split at h
    · rename_i hn
      cases h
      obtain ⟨rfl, ha, hl⟩ := Name.read_sound hn
      exact ⟨rfl, ha, hl⟩
    · cases h
  · rename_i s
    have hscope : scopeOf s = ((scopeOf s).1, (scopeOf s).2) := rfl
    obtain ⟨hs, hkind⟩ := scopeOf_sound hscope
    simp only at h
    split at h
    · rename_i name _ hn
      cases h
      obtain ⟨ht, ha, hl⟩ := Name.read_sound hn
      refine ⟨?_, ?_, hl⟩
      · rw [hs, ht, spelling, List.append_assoc]
      · simpa only [hkind] using ha
    · cases h
  · cases h

theorem kind_of_read (h : read limit ('&' :: t) = .ok (target, rest)) :
    target.kind = (scopeOf t).1 := by
  simp only [read] at h
  split at h
  · cases h
    rfl
  · cases h

theorem read_complete (ha : target.kind.alphabet.Accepts target.name)
    (hl : (target.name.length : Int) ≤ limit) (hf : Free target.kind.continues rest) :
    read limit (target.spelling ++ rest) = .ok (target, rest) := by
  obtain ⟨kind, name⟩ := target
  have hread := Name.read_complete ha hl (Kind.free_other hf)
  cases kind with
  | environment => exact read_environment hread
  | anyOption => exact read_option (scopeOf_name ha hf) hread
  | globalOption => exact read_option rfl hread
  | localOption => exact read_option rfl hread

end

end Target

section
variable {t x x' : Text} {target target' : Target} {op op' : Operator} {limit : Int}

theorem reads_of_assigns (h : Assigns t target op x) (hl : (target.name.length : Int) ≤ limit) :
    ∃ rest, Target.read limit t.trimStart = .ok (target, rest) ∧
      Operator.read (Text.trimStart rest) = .ok (op, x) := by
  obtain ⟨ha, before, between, hb, hw, rfl⟩ := h
  have hsigil : ∃ c s, target.kind.sigil = c :: s ∧ Text.isBlank c = false := by
    cases target.kind <;> exact ⟨_, _, rfl, by decide⟩
  have hop : Text.trimStart (op.spelling ++ x) = op.spelling ++ x := by
    cases op <;> exact Text.trimStart_of_not_blank (by decide)
  refine ⟨between ++ op.spelling ++ x, ?_, ?_⟩
  · obtain ⟨c, s, hc, hblank⟩ := hsigil
    have hread := Target.read_complete ha hl (target.kind.free_operator hw op x)
    have hstart : Text.trimStart (target.spelling ++ (between ++ op.spelling ++ x)) =
        target.spelling ++ (between ++ op.spelling ++ x) := by
      rw [Target.spelling, hc]
      exact Text.trimStart_of_not_blank hblank
    rw [List.append_assoc, List.append_assoc, List.append_assoc, trimStart_blank hb,
      ← List.append_assoc between, hstart]
    exact hread
  · rw [List.append_assoc, trimStart_blank hw, hop]
    exact Operator.read_eq_ok_iff.mpr rfl

theorem assigns_of_reads {rest : Text} (ht : Target.read limit t.trimStart = .ok (target, rest))
    (ho : Operator.read (Text.trimStart rest) = .ok (op, x)) :
    Assigns t target op x ∧ (target.name.length : Int) ≤ limit := by
  obtain ⟨htext, ha, hl⟩ := Target.read_sound ht
  obtain ⟨before, hb, hbefore⟩ := Text.trimStart_append_eq t
  obtain ⟨between, hw, hbetween⟩ := Text.trimStart_append_eq rest
  refine ⟨⟨ha, before, between, hb, hw, ?_⟩, hl⟩
  have hrest := Operator.read_eq_ok_iff.mp ho
  calc t = before ++ t.trimStart := hbefore
    _ = before ++ (target.spelling ++ rest) := by rw [htext]
    _ = before ++ (target.spelling ++ (between ++ (op.spelling ++ x))) := by rw [← hrest, ← hbetween]
    _ = before ++ target.spelling ++ between ++ op.spelling ++ x := by simp only [List.append_assoc]

/-- A text has one form: with a limit that lets both names pass, the readers
would give both. -/
theorem assigns_unique (h : Assigns t target op x) (h' : Assigns t target' op' x') :
    target' = target ∧ op' = op ∧ x' = x := by
  let limit : Int := max target.name.length target'.name.length
  have hle : (target.name.length : Int) ≤ limit := Int.le_max_left _ _
  have hle' : (target'.name.length : Int) ≤ limit := Int.le_max_right _ _
  obtain ⟨rest, ht, ho⟩ := reads_of_assigns h hle
  obtain ⟨rest', ht', ho'⟩ := reads_of_assigns h' hle'
  rw [ht] at ht'
  cases ht'
  rw [ho] at ho'
  cases ho'
  exact ⟨rfl, rfl, rfl⟩

end

end LetShell
