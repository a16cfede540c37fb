import Mathlib.Data.List.Forall2
import LetShell.Proofs.Text.Respelling
import LetShell.Statement
import LetShell.Statement.Removal

/-!
# Respelled statements

The target and the operator of an assignment are read from respelled texts
alike, and so are the tokens of a removal: the same errors come up, and what is
read differs in the case of variable names at most.
-/

set_option autoImplicit false

namespace LetShell
open Scan Text Expression

def SameKind (e e' : ParseError) : Prop := e.kind = e'.kind

/-- Targets of one kind whose names differ in case at most, and not at all if
they are options. -/
structure Target.Like (a b : Target) : Prop where
  kind : b.kind = a.kind
  name : Caseless a.name b.name
  option : a.kind ≠ .environment → b.name = a.name

section
variable {s t : Text} (limit : Int)

namespace Name

theorem mem_run_of_mem_take {limit : Int} {p : Char → Bool} {c : Char}
    (h : c ∈ t.take (run p limit t).1.length) : p c = true := by
  have hprefix : (run p limit t).1 <+: t := ⟨_, run_append p limit t⟩
  rw [← List.prefix_iff_eq_take.mp hprefix] at h
  exact run_all p limit t c h

theorem caseless_run {p : Char → Bool} (hp : CaseBlind p) (h : Caseless s t) :
    Caseless (run p limit s).1 (run p limit t).1 ∧ Caseless (run p limit s).2 (run p limit t).2 := by
  have htaken : Caseless (run p limit s).1 (run p limit t).1 :=
    caseless_takeWhile hp (caseless_take h _)
  have hlength := caseless_length htaken
  refine ⟨htaken, ?_⟩
  simp only [run] at hlength ⊢
  rw [← hlength]
  exact caseless_drop h _

theorem run_environment_alike (h : Alike .name s t) :
    Caseless (run Alphabet.environment.other limit s).1
        (run Alphabet.environment.other limit t).1 ∧
      Alike .name (run Alphabet.environment.other limit s).2
        (run Alphabet.environment.other limit t).2 := by
  have htaken := (caseless_run limit caseBlind_other (caseless_of_alike h)).1
  have hlength := caseless_length htaken
  refine ⟨htaken, ?_⟩
  have hdrop := alike_drop (n := (run Alphabet.environment.other limit s).1.length)
    (fun c hc => next_in_name (mem_run_of_mem_take hc)) h
  simp only [run] at hlength hdrop ⊢
  rwa [← hlength]

theorem run_option_alike (h : Alike .plain s t) :
    (run Alphabet.option.other limit s).1 = (run Alphabet.option.other limit t).1 ∧
      Alike .plain (run Alphabet.option.other limit s).2
        (run Alphabet.option.other limit t).2 := by
  have htaken : (run Alphabet.option.other limit s).1 = (run Alphabet.option.other limit t).1 :=
    (alike_run (fun _ => next_option) (alike_take h _)).1
  have hlength := congrArg List.length htaken
  refine ⟨htaken, ?_⟩
  have hdrop := alike_drop (n := (run Alphabet.option.other limit s).1.length)
    (fun c hc => next_option (mem_run_of_mem_take hc)) h
  simp only [run] at hlength hdrop ⊢
  rwa [← hlength]

theorem read_environment_alike (h : Alike .name s t) :
    Paired SameKind (fun p q => Caseless p.1 q.1 ∧ Alike .name p.2 q.2)
      (read .environment limit s) (read .environment limit t) := by
  cases s with
  | nil =>
    rw [alike_nil h]
    exact .error rfl
  | cons c s =>
    obtain ⟨d, t₁, rfl, hcd, h₁⟩ := alike_cons h
    have hd := eq_of_caseBlind caseBlind_first hcd
    rw [read, read, ← hd]
    split
    · exact .error rfl
    · rename_i hgo
      have hfirst : Alphabet.environment.first c = true := by
        rw [← Bool.not_eq_false]
        exact fun hc => hgo (.inr hc)
      rw [next_in_name (environment_other_of_first hfirst)] at h₁
      obtain ⟨htail, hrest⟩ := run_environment_alike (limit - 1) h₁
      exact .ok ⟨caseless_cons_iff.mpr ⟨hcd, htail⟩, hrest⟩

theorem read_option_alike (h : Alike .plain s t) :
    Paired SameKind (fun p q => p.1 = q.1 ∧ Alike .plain p.2 q.2)
      (read .option limit s) (read .option limit t) := by
  cases s with
  | nil =>
    rw [alike_nil h]
    exact .error rfl
  | cons c s =>
    obtain ⟨t₁, rfl, h₁⟩ := alike_cons_same (by decide) h
    rw [read, read]
    split
    · exact .error rfl
    · rename_i hgo
      have hfirst : Alphabet.option.first c = true := by
        rw [← Bool.not_eq_false]
        exact fun hc => hgo (.inr hc)
      have hnext : Scan.plain.next c = .plain :=
        next_of_continues_nothing hfirst (by decide +kernel)
      obtain ⟨htail, hrest⟩ := run_option_alike (limit - 1) (hnext ▸ h₁)
      exact .ok ⟨congrArg (c :: ·) htail, hrest⟩

end Name

namespace Operator

theorem lead_other {c : Char} (h : c ∉ ['.', '+', '-']) (s : Text) :
    lead (c :: s) = (.assign, c :: s) := by
  rw [lead]
  all_goals
    rintro u ⟨⟩
    exact h (by decide)

theorem lead_alike (h : Alike .plain s t) :
    (lead s).1 = (lead t).1 ∧ Alike .plain (lead s).2 (lead t).2 := by
  cases s with
  | nil =>
    rw [alike_nil h]
    exact ⟨rfl, rfl⟩
  | cons c s =>
    obtain ⟨t₁, rfl, h₁⟩ := alike_cons_same (by decide) h
    by_cases hc : c ∉ ['.', '+', '-']
    · rw [lead_other hc, lead_other hc]
      exact ⟨rfl, h⟩
    · simp only [List.mem_cons, List.not_mem_nil, or_false, Decidable.not_not] at hc
      rcases hc with rfl | rfl | rfl
      · exact ⟨rfl, h₁⟩
      · exact ⟨rfl, h₁⟩
      · exact ⟨rfl, h₁⟩

theorem read_alike (h : Alike .plain s t) :
    Paired SameKind (fun p q => p.1 = q.1 ∧ Alike .plain p.2 q.2) (read s) (read t) := by
  obtain ⟨hop, hrest⟩ := lead_alike h
  unfold read
  generalize lead s = p at hop hrest
  generalize lead t = q at hop hrest
  obtain ⟨op, r⟩ := p
  obtain ⟨op', r'⟩ := q
  cases hop
  split
  · rename_i op₁ u heq
    cases heq
    obtain ⟨w, rfl, hw⟩ := alike_cons_same (by decide) hrest
    exact .ok ⟨rfl, hw⟩
  · rename_i op₁ u hne heq
    cases heq
    split
    · rename_i op₂ w heq
      cases heq
      obtain ⟨w', rfl, -⟩ := alike_cons_same (by decide) (alike_symm hrest)
      exact (hne w' rfl).elim
    · exact .error rfl

theorem read_name_char {c : Char} (hc : Alphabet.environment.other c = true) (s : Text) :
    read (Text.trimStart (c :: s)) = .error (.missingEquals (c :: s)) := by
  have hne : ∀ x, Alphabet.environment.other x = false → c ≠ x := by
    rintro x hx rfl
    rw [hx] at hc
    cases hc
  have hblank : Text.isBlank c = false := by
    rw [← Bool.not_eq_true]
    intro hb
    exact hne c (blank_continues_nothing hb).2.2.1 rfl
  have hlead : c ∉ ['.', '+', '-'] := by
    simp only [List.mem_cons, List.not_mem_nil, or_false, not_or]
    exact ⟨hne _ (by decide), hne _ (by decide), hne _ (by decide)⟩
  rw [Text.trimStart_of_not_blank hblank, read, lead_other hlead]
  split
  · rename_i heq
    cases heq
    exact absurd rfl (hne '=' (by decide))
  · rename_i heq
    cases heq
    rfl

theorem read_after_name_alike (h : Alike .name s t) :
    Paired SameKind (fun p q => p.1 = q.1 ∧ Alike .plain p.2 q.2)
      (read s.trimStart) (read t.trimStart) := by
  by_cases hs : Free Alphabet.environment.other s
  · exact read_alike (alike_trimStart (alike_plain_of_name hs h))
  · cases s with
    | nil => exact absurd (free_nil _) hs
    | cons c s =>
      obtain ⟨d, t₁, rfl, hcd, -⟩ := alike_cons h
      have hc : Alphabet.environment.other c = true := by
        rw [← Bool.not_eq_false]
        exact fun hc => hs (free_cons hc s)
      have hd := eq_of_caseBlind caseBlind_other hcd
      rw [read_name_char hc, read_name_char (hd ▸ hc)]
      exact .error rfl

end Operator

namespace Target

theorem scopeOf_alike (h : Alike .plain s t) :
    (scopeOf s).1 = (scopeOf t).1 ∧ Alike .plain (scopeOf s).2 (scopeOf t).2 := by
  have hscope : ∀ {c : Char} {u v : Text}, Scan.plain.next c = .plain →
      Alike .plain (c :: ':' :: u) v → ∃ w, v = c :: ':' :: w ∧ Alike .plain u w := by
    intro c u v hc huv
    obtain ⟨w₁, rfl, h₁⟩ := alike_cons_same (by decide) huv
    obtain ⟨w₂, rfl, h₂⟩ := alike_cons_same (by decide) (hc ▸ h₁)
    exact ⟨w₂, rfl, h₂⟩
  unfold scopeOf
  split
  · obtain ⟨w, rfl, hw⟩ := hscope (by decide) h
    exact ⟨rfl, hw⟩
  · obtain ⟨w, rfl, hw⟩ := hscope (by decide) h
    exact ⟨rfl, hw⟩
  · rename_i hg hl
    split
    · obtain ⟨w, rfl, -⟩ := hscope (by decide) (alike_symm h)
      exact (hg w rfl).elim
    · obtain ⟨w, rfl, -⟩ := hscope (by decide) (alike_symm h)
      exact (hl w rfl).elim
    · exact ⟨rfl, h⟩

theorem read_unsigned {c : Char} (h : c ≠ '$' ∧ c ≠ '&') (s : Text) :
    read limit (c :: s) = .error .noSigil := by
  rw [read]
  · rintro u ⟨⟩
    exact h.1 rfl
  · rintro u ⟨⟩
    exact h.2 rfl

theorem read_alike (h : Alike .plain s t) :
    Paired SameKind (fun p q => p.1.Like q.1 ∧ Alike .name p.2 q.2)
      (read limit s) (read limit t) := by
  cases s with
  | nil =>
    rw [alike_nil h]
    exact .error rfl
  | cons c s =>
    obtain ⟨t₁, rfl, h₁⟩ := alike_cons_same (by decide) h
    by_cases hvar : c = '$'
    · subst hvar
      have hname := Name.read_environment_alike limit h₁
      simp only [read]
      generalize Name.read .environment limit s = x at hname
      generalize Name.read .environment limit t₁ = y at hname
      cases hname with
      | error he => exact .error he
      | ok hpq => exact .ok ⟨⟨rfl, hpq.1, fun hk => absurd rfl hk⟩, hpq.2⟩
    · by_cases hopt : c = '&'
      · subst hopt
        obtain ⟨hkind, hrest⟩ := scopeOf_alike h₁
        have hname := Name.read_option_alike limit hrest
        simp only [read]
        rw [← hkind]
        generalize Name.read .option limit (scopeOf s).2 = x at hname
        generalize Name.read .option limit (scopeOf t₁).2 = y at hname
        cases hname with
        | error he => exact .error he
        | @ok p q hpq =>
          obtain ⟨hn, hr⟩ := hpq
          exact .ok ⟨⟨rfl, by rw [hn]; rfl, fun _ => hn.symm⟩, alike_name_of_plain hr⟩
      · rw [read_unsigned limit ⟨hvar, hopt⟩, read_unsigned limit ⟨hvar, hopt⟩]
        exact .error rfl

end Target

namespace Removal

abbrev SameToken : Except ParseError Text → Except ParseError Text → Prop :=
  Paired SameKind Caseless

theorem startsBlank_congr (h : Caseless s t) : startsBlank s = startsBlank t := by
  cases s with
  | nil => rw [caseless_nil_iff.mp h]
  | cons c s =>
    obtain ⟨d, t₁, rfl, hcd, -⟩ := caseless_cons_left h
    exact eq_of_caseBlind caseBlind_blank hcd

theorem ofName_same (h : Caseless s t) : SameToken (ofName s) (ofName t) := by
  cases s with
  | nil =>
    rw [caseless_nil_iff.mp h]
    exact .error rfl
  | cons c s =>
    obtain ⟨d, t₁, rfl, -, -⟩ := caseless_cons_left h
    exact .ok h

theorem read_caseless (h : Caseless s t) :
    List.Forall₂ SameToken (read limit s).tokens (read limit t).tokens ∧
      (read limit s).fatal = (read limit t).fatal := by
  -- On the length, since a removal goes on from what a whole token leaves.
  induction hn : s.length using Nat.strongRecOn generalizing s t with
  | ind n ih =>
    subst hn
    have hle := Text.length_trimStart_le s
    have htrim : Caseless s.trimStart t.trimStart := caseless_dropWhile caseBlind_blank h
    cases hs : s.trimStart with
    | nil =>
      rw [hs] at htrim
      rw [read_blank hs, read_blank (caseless_nil_iff.mp htrim)]
      exact ⟨.nil, rfl⟩
    | cons c r =>
      rw [hs] at htrim
      obtain ⟨d, u, ht, hcd, hru⟩ := caseless_cons_left htrim
      rw [hs, List.length_cons] at hle
      by_cases hc : c = '$'
      · have hd : d = '$' := by
          subst hc
          exact eq_of_toLower_eq hcd (by decide)
        subst hc hd
        obtain ⟨hname, hrest⟩ := Name.caseless_run limit caseBlind_other hru
        have hshort := Name.length_run_le Alphabet.environment.other limit r
        obtain ⟨htokens, hfatal⟩ := ih _ (by omega) hrest rfl
        rw [read_name hs, read_name ht, ← startsBlank_congr hrest]
        split
        · exact ⟨.cons (ofName_same hname) htokens, hfatal⟩
        · exact ⟨.nil, rfl⟩
      · have hd : d ≠ '$' := by
          rintro rfl
          exact hc (eq_of_toLower_eq hcd.symm (by decide))
        have hrest : Caseless (Text.token r).2 (Text.token u).2 :=
          caseless_dropWhile (caseBlind_not caseBlind_blank) hru
        have hshort := congrArg List.length (Text.token_append r)
        rw [List.length_append] at hshort
        obtain ⟨htokens, hfatal⟩ := ih _ (by omega) hrest rfl
        rw [read_other hs hc, read_other ht hd]
        exact ⟨.cons (.error rfl) htokens, hfatal⟩

end Removal

end

end LetShell
