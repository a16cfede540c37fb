import LetShell.Proofs.Expression.Completeness
import LetShell.Proofs.Text.Respelling

/-!
# Respelled expressions

Expressions that differ only in the case of variable names have one value, or
fail in one way, wherever two variables of names equal up to case have one
value. The rests they leave differ in this way again.
-/

set_option autoImplicit false

namespace LetShell.Expression
open Scan Text

/-- Contexts with the same options, where names equal up to case have one value. -/
structure Context.Blind (ctx ctx' : Context) : Prop where
  env : ∀ n n', Caseless n n' → ctx.env n = ctx'.env n'
  option : ctx'.option = ctx.option

def SameFailure (f f' : Failure ExpressionError) : Prop := f.map (·.kind) = f'.map (·.kind)

abbrev Follows (r r' : Outcome (Value × Text)) : Prop :=
  Paired SameFailure (fun p q => p.1 = q.1 ∧ Alike .plain p.2 q.2) r r'

/-- Readers that follow each other on respelled texts. -/
def Mirrors (f f' : Text → Outcome (Value × Text)) : Prop :=
  ∀ t t', Alike .plain t t' → Follows (f t) (f' t')

section
variable {ctx ctx' : Context} {s t v rest : Text}

theorem follows_fail {k : ExpressionErrorKind} (s t : Text) : Follows (fail k s) (fail k t) :=
  .error rfl

abbrev SameRead (x y : Option (Text × Text)) : Prop :=
  Option.Rel (fun p q => p.1 = q.1 ∧ Alike .plain p.2 q.2) x y

theorem sameRead_map {x y : Option (Text × Text)} (f : Text → Text) (h : SameRead x y) :
    SameRead (x.map fun p => (f p.1, p.2)) (y.map fun p => (f p.1, p.2)) := by
  cases h with
  | none => exact .none
  | some h => exact .some ⟨congrArg f h.1, h.2⟩

theorem singleQuoted_alike (h : Alike .single s t) :
    SameRead (singleQuoted s) (singleQuoted t) := by
  induction s using singleQuoted.induct generalizing t with
  | case1 =>
    rw [alike_nil h]
    exact .none
  | case2 s ih =>
    obtain ⟨t₁, rfl, h₁⟩ := alike_cons_same (by decide) h
    obtain ⟨t₂, rfl, h₂⟩ := alike_cons_same (by decide) h₁
    exact sameRead_map ('\'' :: ·) (ih h₂)
  | case3 s hs =>
    obtain ⟨t₁, rfl, h₁⟩ := alike_cons_same (by decide) h
    have ht : ∀ u, t₁ = '\'' :: u → False := by
      rintro u rfl
      obtain ⟨s', hs', -⟩ := alike_cons_same (by decide) (alike_symm h₁)
      exact hs s' hs'
    rw [singleQuoted, singleQuoted]
    · exact .some ⟨rfl, h₁⟩
    · exact ht
    · exact hs
  | case4 c s h1 h2 ih =>
    obtain ⟨t₁, rfl, h₁⟩ := alike_cons_same (by decide) h
    have hnext : Scan.single.next c = .single := if_neg h2
    have hread : ∀ u, singleQuoted (c :: u) = (singleQuoted u).map fun p => (c :: p.1, p.2) := by
      intro u
      rw [singleQuoted]
      · intro x hc
        exact absurd hc h2
      · exact h2
    rw [hread, hread]
    exact sameRead_map (c :: ·) (ih (hnext ▸ h₁))

theorem doubleQuoted_alike (h : Alike .double s t) :
    SameRead (doubleQuoted s) (doubleQuoted t) := by
  induction s using doubleQuoted.induct generalizing t with
  | case1 =>
    rw [alike_nil h]
    exact .none
  | case2 s =>
    obtain ⟨t₁, rfl, h₁⟩ := alike_cons_same (by decide) h
    rw [doubleQuoted, doubleQuoted]
    exact .some ⟨rfl, h₁⟩
  | case3 c s ih =>
    obtain ⟨t₁, rfl, h₁⟩ := alike_cons_same (by decide) h
    obtain ⟨t₂, rfl, h₂⟩ := alike_cons_same (by decide) h₁
    exact sameRead_map (unescape c :: ·) (ih h₂)
  | case4 c s h1 h2 ih =>
    obtain ⟨t₁, rfl, h₁⟩ := alike_cons_same (by decide) h
    by_cases hb : c = '\\'
    · -- a backslash at the very end
      cases s with
      | nil =>
        rw [alike_nil h₁, hb]
        exact .none
      | cons d s => exact (h2 d s hb rfl).elim
    · have hnext : Scan.double.next c = .double := (if_neg h1).trans (if_neg hb)
      have hread : ∀ u, doubleQuoted (c :: u) =
          (doubleQuoted u).map fun p => (c :: p.1, p.2) := by
        intro u
        rw [doubleQuoted]
        · exact h1
        · intro x y hc
          exact absurd hc hb
      rw [hread, hread]
      exact sameRead_map (c :: ·) (ih (hnext ▸ h₁))

theorem next_digit {c : Char} (h : Text.isDigit c = true) : Scan.plain.next c = .plain :=
  next_of_continues_nothing h (by decide +kernel)

theorem digits_alike (c : Char) (h : Alike .plain s t) :
    SameRead (some (c :: s.takeWhile Text.isDigit, s.dropWhile Text.isDigit))
      (some (c :: t.takeWhile Text.isDigit, t.dropWhile Text.isDigit)) := by
  obtain ⟨htake, hdrop⟩ := alike_run (fun _ => next_digit) h
  exact .some ⟨congrArg (c :: ·) htake, hdrop⟩

theorem numeral?_digit {c : Char} (hc : Text.isDigit c = true) (s : Text) :
    numeral? (c :: s) = some (c :: s.takeWhile Text.isDigit, s.dropWhile Text.isDigit) := by
  rw [numeral?, if_pos hc]
  rintro d r rfl
  rw [not_digit_minus] at hc
  cases hc

theorem numeral?_minus (c : Char) (s : Text) :
    numeral? ('-' :: c :: s) = if Text.isDigit c then
      some ('-' :: c :: s.takeWhile Text.isDigit, s.dropWhile Text.isDigit) else none := rfl

theorem numeral?_alike (h : Alike .plain s t) : SameRead (numeral? s) (numeral? t) := by
  cases s with
  | nil =>
    rw [alike_nil h]
    exact .none
  | cons c s =>
    obtain ⟨t₁, rfl, h₁⟩ := alike_cons_same (by decide) h
    by_cases hm : c = '-'
    · subst hm
      cases s with
      | nil =>
        rw [alike_nil h₁]
        exact .none
      | cons d s =>
        obtain ⟨t₂, rfl, h₂⟩ := alike_cons_same (by decide) h₁
        rw [numeral?_minus, numeral?_minus]
        cases hd : Text.isDigit d with
        | false => exact .none
        | true => exact sameRead_map ('-' :: ·) (digits_alike d (next_digit hd ▸ h₂))
    · cases hc : Text.isDigit c with
      | false =>
        rw [numeral?_other hc hm, numeral?_other hc hm]
        exact .none
      | true =>
        rw [numeral?_digit hc, numeral?_digit hc]
        exact digits_alike c (next_digit hc ▸ h₁)

theorem name?_option_alike (h : Alike .plain s t) :
    SameRead (Alphabet.option.name? s) (Alphabet.option.name? t) := by
  cases s with
  | nil =>
    rw [alike_nil h]
    exact .none
  | cons c s =>
    obtain ⟨t₁, rfl, h₁⟩ := alike_cons_same (by decide) h
    cases hc : Alphabet.option.first c with
    | false =>
      simp only [Alphabet.name?, hc, Bool.false_eq_true, if_false]
      exact .none
    | true =>
      have hnext : Scan.plain.next c = .plain := next_of_continues_nothing hc (by decide +kernel)
      obtain ⟨htake, hdrop⟩ := alike_run (fun _ => next_option) (hnext ▸ h₁)
      simp only [Alphabet.name?, hc, if_true]
      exact .some ⟨congrArg (c :: ·) htake, hdrop⟩

theorem name?_environment_alike (h : Alike .name s t) :
    Option.Rel (fun p q => Caseless p.1 q.1 ∧ Alike .plain p.2 q.2)
      (Alphabet.environment.name? s) (Alphabet.environment.name? t) := by
  cases s with
  | nil =>
    rw [alike_nil h]
    exact .none
  | cons c s =>
    obtain ⟨d, t₁, rfl, hcd, h₁⟩ := alike_cons h
    have hd := eq_of_caseBlind caseBlind_first hcd
    cases hc : Alphabet.environment.first c with
    | false =>
      rw [hc] at hd
      simp only [Alphabet.name?, hc, ← hd, Bool.false_eq_true, if_false]
      exact .none
    | true =>
      rw [hc] at hd
      rw [next_in_name (environment_other_of_first hc)] at h₁
      obtain ⟨htake, hdrop⟩ := alike_name_run h₁
      simp only [Alphabet.name?, hc, ← hd, if_true]
      exact .some ⟨caseless_cons_iff.mpr ⟨hcd, htake⟩, hdrop⟩

theorem term_unsigned {inner : Text → Outcome (Value × Text)} {c : Char}
    (h : c ∉ ['\'', '"', '$', '&', '(']) (hn : numeral? (c :: s) = none) :
    term ctx inner (c :: s) = fail .invalidExpression (c :: s) := by
  simp only [List.mem_cons, List.not_mem_nil, or_false, not_or] at h
  obtain ⟨h1, h2, h3, h4, h5⟩ := h
  rw [term, hn]
  all_goals
    rintro u ⟨⟩
    contradiction

theorem sameFailure_cases {f f' : Failure ExpressionError} (h : SameFailure f f') :
    (∃ x x', f = .error x ∧ f' = .error x' ∧ x.kind = x'.kind) ∨
      ∃ y, f = .fault y ∧ f' = .fault y := by
  cases f with
  | error x =>
    cases f' with
    | error x' => exact .inl ⟨x, x', rfl, rfl, Failure.error.inj h⟩
    | fault y' => cases h
  | fault y =>
    cases f' with
    | error x' => cases h
    | fault y' => exact .inr ⟨y, rfl, congrArg Failure.fault (Failure.fault.inj h).symm⟩

section
variable {inner inner' : Text → Outcome (Value × Text)}

theorem unsigned_mirrors {c : Char} (hc : c ∉ ['\'', '"', '$', '&', '('])
    (h : Alike .plain (c :: s) (c :: t)) :
    Follows (term ctx inner (c :: s)) (term ctx' inner' (c :: t)) := by
  have hread := numeral?_alike h
  generalize hx : numeral? (c :: s) = x at hread
  generalize hy : numeral? (c :: t) = y at hread
  cases hread with
  | none =>
    rw [term_unsigned hc hx, term_unsigned hc hy]
    exact follows_fail _ _
  | @some p q hpq =>
    obtain ⟨htoken, hrest⟩ := hpq
    rw [term_of_numeral hx, term_of_numeral hy, ← htoken]
    cases Numeral.readOrFault p.1 with
    | error f => exact .error rfl
    | ok n => exact .ok ⟨rfl, hrest⟩

theorem option_mirrors (hctx : ctx.Blind ctx') (h : Alike .plain s t) :
    Follows (term ctx inner ('&' :: s)) (term ctx' inner' ('&' :: t)) := by
  have hread := name?_option_alike h
  simp only [term]
  generalize Alphabet.option.name? s = x at hread
  generalize Alphabet.option.name? t = y at hread
  cases hread with
  | none => exact follows_fail _ _
  | @some p q hpq =>
    obtain ⟨hname, hrest⟩ := hpq
    simp only [hctx.option, ← hname]
    cases ctx.option p.1 with
    | none => exact follows_fail _ _
    | some v => exact .ok ⟨rfl, hrest⟩

def CloseAlike (V : Text → Text → Prop) : Prop :=
  ∀ r r', V r r' →
    (∃ u u', trimStart r = ')' :: u ∧ trimStart r' = ')' :: u' ∧ V u u') ∨
      (∀ u, trimStart r ≠ ')' :: u) ∧ ∀ u, trimStart r' ≠ ')' :: u

/-- Two groups go together if what stands in them does. -/
theorem parentheses_paired {V : Text → Text → Prop} (hV : CloseAlike V)
    (h : Paired SameFailure (fun p q => p.1 = q.1 ∧ V p.2 q.2) (inner s) (inner' t)) :
    Paired SameFailure (fun p q => p.1 = q.1 ∧ V p.2 q.2) (term ctx inner ('(' :: s))
      (term ctx' inner' ('(' :: t)) := by
  simp only [term]
  generalize inner s = x at h
  generalize inner' t = y at h
  cases h with
  | @ok p q hpq =>
    obtain ⟨v, r⟩ := p
    obtain ⟨v', r'⟩ := q
    obtain ⟨rfl, hrest⟩ := hpq
    rcases hV r r' hrest with ⟨u, u', hu, hu', hV⟩ | ⟨hr, hr'⟩
    · simp only [hu, hu']
      exact .ok ⟨rfl, hV⟩
    · -- by `hr` and `hr'` neither group is closed
      simp only
      exact .error rfl
  | error he =>
    rcases sameFailure_cases he with ⟨x, x', rfl, rfl, hkind⟩ | ⟨y, rfl, rfl⟩
    · simp only [← hkind]
      split
      · exact .error he
      · exact .error rfl
    · exact .error rfl

theorem closeAlike_alike : CloseAlike (Alike .plain) := by
  intro r r' h
  have hend := alike_trimStart h
  by_cases hr : ∃ u, trimStart r = ')' :: u
  · obtain ⟨u, hu⟩ := hr
    rw [hu] at hend
    obtain ⟨u', hu', hV⟩ := alike_cons_same (by decide) hend
    exact .inl ⟨u, u', hu, hu', hV⟩
  · refine .inr ⟨fun u hu => hr ⟨u, hu⟩, fun u hu => ?_⟩
    rw [hu] at hend
    obtain ⟨x, hx, -⟩ := alike_cons_same (by decide) (alike_symm hend)
    exact hr ⟨x, hx⟩

theorem term_mirrors (hctx : ctx.Blind ctx') (hin : Mirrors inner inner') :
    Mirrors (term ctx inner) (term ctx' inner') := by
  intro t t' h
  cases t with
  | nil =>
    rw [alike_nil h]
    exact follows_fail [] []
  | cons c s =>
    obtain ⟨t₁, rfl, h₁⟩ := alike_cons_same (by decide) h
    by_cases hc : c ∉ ['\'', '"', '$', '&', '(']
    · exact unsigned_mirrors hc h
    · simp only [List.mem_cons, List.not_mem_nil, or_false, Decidable.not_not] at hc
      rcases hc with rfl | rfl | rfl | rfl | rfl
      · have hread := singleQuoted_alike h₁
        simp only [term]
        generalize singleQuoted s = x at hread
        generalize singleQuoted t₁ = y at hread
        cases hread with
        | none => exact follows_fail _ _
        | some hpq => exact .ok ⟨congrArg Value.text hpq.1, hpq.2⟩
      · have hread := doubleQuoted_alike h₁
        simp only [term]
        generalize doubleQuoted s = x at hread
        generalize doubleQuoted t₁ = y at hread
        cases hread with
        | none => exact follows_fail _ _
        | some hpq => exact .ok ⟨congrArg Value.text hpq.1, hpq.2⟩
      · have hread := name?_environment_alike h₁
        simp only [term]
        generalize Alphabet.environment.name? s = x at hread
        generalize Alphabet.environment.name? t₁ = y at hread
        cases hread with
        | none => exact follows_fail _ _
        | some hpq => exact .ok ⟨congrArg Value.text (hctx.env _ _ hpq.1), hpq.2⟩
      · exact option_mirrors hctx h₁
      · exact parentheses_paired closeAlike_alike (hin s t₁ h₁)

end

theorem undotted_of_alike (h : Alike .plain s t) (hs : Undotted s) : Undotted t := by
  rintro t₁ rfl
  obtain ⟨s₁, rfl, h₁⟩ := alike_cons_same (by decide) (alike_symm h)
  obtain ⟨r, rfl⟩ := hs s₁ rfl
  obtain ⟨t₂, rfl, -⟩ := alike_cons_same (by decide) (alike_symm h₁)
  exact ⟨t₂, rfl⟩

theorem chain_mirrors {f f' : Text → Outcome (Value × Text)} (hf : Mirrors f f') (fuel : Nat)
    (v : Value) : Mirrors (chain f fuel v) (chain f' fuel v) := by
  induction fuel generalizing v with
  | zero => exact fun t t' _ => follows_fail t t'
  | succ fuel ih =>
    intro t t' h
    have hstart := alike_trimStart h
    by_cases hu : Undotted t.trimStart
    · rw [chain_undotted v hu, chain_undotted v (undotted_of_alike hstart hu)]
      exact .ok ⟨rfl, hstart⟩
    · have hu' : ¬ Undotted t'.trimStart := fun hw => hu (undotted_of_alike (alike_symm hstart) hw)
      obtain ⟨s, hs, hne⟩ := dot_of_not_undotted hu
      obtain ⟨s', hs', hne'⟩ := dot_of_not_undotted hu'
      rw [hs, hs'] at hstart
      obtain ⟨s₁, heq, h₁⟩ := alike_cons_same (by decide) hstart
      cases heq
      have hterm := hf _ _ (alike_trimStart h₁)
      rw [chain_dotted v hs hne, chain_dotted v hs' hne']
      generalize f (Text.trimStart s) = x at hterm
      generalize f' (Text.trimStart s') = y at hterm
      cases v.toText with
      | error x => exact .error rfl
      | ok left =>
        cases hterm with
        | error he => exact .error he
        | @ok p q hpq =>
          obtain ⟨w, r⟩ := p
          obtain ⟨w', r'⟩ := q
          obtain ⟨rfl, hrest⟩ := hpq
          simp only
          cases w.toText with
          | error x => exact .error rfl
          | ok right => exact ih _ r r' hrest

theorem expression_mirrors (hctx : ctx.Blind ctx') (depth : Nat) :
    Mirrors (expression ctx depth) (expression ctx' depth) := by
  induction depth with
  | zero => exact fun t t' _ => follows_fail t t'
  | succ depth ih =>
    intro t t' h
    have hterm := term_mirrors hctx ih _ _ (alike_trimStart h)
    simp only [expression]
    generalize term ctx (expression ctx depth) (Text.trimStart t) = x at hterm
    generalize term ctx' (expression ctx' depth) (Text.trimStart t') = y at hterm
    cases hterm with
    | error he => exact .error he
    | @ok p q hpq =>
      obtain ⟨v, r⟩ := p
      obtain ⟨v', r'⟩ := q
      obtain ⟨rfl, hrest⟩ := hpq
      simp only [← alike_length hrest]
      exact chain_mirrors (term_mirrors hctx ih) (r.length + 1) v r r' hrest

theorem evaluate_mirrors (hctx : ctx.Blind ctx') : Mirrors (evaluate ctx) (evaluate ctx') := by
  intro t t' h
  rw [evaluate, evaluate, ← alike_length h]
  exact expression_mirrors hctx (t.length + 1) t t' h

end

end LetShell.Expression
