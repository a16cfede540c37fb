import LetShell.Proofs.Expression.Faults

/-!
# Where an error is reported

A group reports every error inside it at its own parenthesis, and the group
around it does the same. Only a missing quote keeps its place. So any other
error is reported outside all groups: at the start of a term, or after the sigil
of one, where the text before holds nothing but terms that were read and the
dots behind them.
-/

set_option autoImplicit false

namespace LetShell.Expression

/-- Terms that were read, each with a dot behind it, and blanks. Before
`position` the last dot is one that joins. -/
inductive Opening (ctx : Context) (position : Text) : Text → Prop
  | blank {w : Text} (hw : Blank w) : Opening ctx position w
  | term {w c after before : Text} {e : Tree} {v : Value} (hw : Blank w) (ha : Blank after)
      (hc : Spelling e c) (he : e.IsTerm) (hv : e.value ctx = some v)
      (hdot : ∀ s, before ++ position ≠ '=' :: s) (h : Opening ctx position before) :
      Opening ctx position (w ++ c ++ after ++ '.' :: before)

/-- A quote without its counterpart. Two single quotes in a row close nothing. -/
inductive Unterminated : Text → Prop
  | single {s : Text} (h : ∀ content rest, s = doubled content ++ '\'' :: rest →
      ¬ Free (· == '\'') rest) : Unterminated ('\'' :: s)
  | double {s : Text} (h : ∀ content written rest, Escaped content written →
      s ≠ written ++ '"' :: rest) : Unterminated ('"' :: s)

def sigils : List Text := [[], ['$'], ['&']]

/-- Whether an error of a kind may be reported at a position of a text. -/
def Located (ctx : Context) (t position : Text) : ExpressionErrorKind → Prop
  | .missingQuote => position <:+ t ∧ Unterminated position
  | .invalidSubexpression => ∃ before s, t = before ++ position ∧ position = '(' :: s ∧
      Opening ctx position before
  | .invalidExpression => ∃ before, ∃ sigil ∈ sigils, t = before ++ (sigil ++ position) ∧
      Opening ctx (sigil ++ position) before
  | .internal => False

section
variable {ctx : Context} {s t w position rest : Text} {kind : ExpressionErrorKind} {v : Value}

theorem unterminated_single (h : singleQuoted s = none) : Unterminated ('\'' :: s) := by
  refine .single ?_
  rintro content rest rfl hfree
  rw [singleQuoted_complete content hfree] at h
  cases h

theorem unterminated_double (h : doubleQuoted s = none) : Unterminated ('"' :: s) := by
  refine .double ?_
  rintro content written rest hw rfl
  rw [doubleQuoted_complete hw] at h
  cases h

theorem Opening.lead (hw : Blank w) {before : Text} (h : Opening ctx position before) :
    Opening ctx position (w ++ before) := by
  cases h with
  | blank hw' => exact .blank (blank_append hw hw')
  | term hw' ha hc he hv hdot h =>
    have hterm := Opening.term (blank_append hw hw') ha hc he hv hdot h
    simpa only [List.append_assoc] using hterm

theorem located_blank (hw : Blank w) (h : Located ctx t position kind) :
    Located ctx (w ++ t) position kind := by
  cases kind with
  | missingQuote => exact ⟨h.1.trans (List.suffix_append w t), h.2⟩
  | invalidSubexpression =>
    obtain ⟨before, s, rfl, hp, ho⟩ := h
    exact ⟨w ++ before, s, (List.append_assoc ..).symm, hp, ho.lead hw⟩
  | invalidExpression =>
    obtain ⟨before, sigil, hs, rfl, ho⟩ := h
    exact ⟨w ++ before, sigil, hs, (List.append_assoc ..).symm, ho.lead hw⟩
  | internal => exact h

theorem located_dot {c after : Text} {e : Tree} (ha : Blank after) (hc : Spelling e c)
    (he : e.IsTerm) (hv : e.value ctx = some v) (hdot : ∀ s, t ≠ '=' :: s)
    (h : Located ctx t position kind) :
    Located ctx (c ++ after ++ '.' :: t) position kind := by
  cases kind with
  | missingQuote =>
    exact ⟨(h.1.trans (List.suffix_cons '.' t)).trans (List.suffix_append _ _), h.2⟩
  | invalidSubexpression =>
    obtain ⟨before, s, rfl, hp, ho⟩ := h
    exact ⟨[] ++ c ++ after ++ '.' :: before, s, by simp, hp, .term blank_nil ha hc he hv hdot ho⟩
  | invalidExpression =>
    obtain ⟨before, sigil, hs, rfl, ho⟩ := h
    exact ⟨[] ++ c ++ after ++ '.' :: before, sigil, hs, by simp,
      .term blank_nil ha hc he hv hdot ho⟩
  | internal => exact h

/-- Of the errors inside a group only a missing quote comes out of it. -/
theorem term_located
    (hin : ∀ s p k, s.length < t.length → evaluate ctx s = .error (.error ⟨k, p⟩) →
      Located ctx s p k)
    (h : term ctx (evaluate ctx) t = .error (.error ⟨kind, position⟩)) :
    Located ctx t position kind := by
  have hnone : Opening ctx t [] := .blank blank_nil
  unfold term at h
  split at h
  · split at h
    · cases h
    · rename_i hq
      cases h
      exact ⟨List.suffix_rfl, unterminated_single hq⟩
  · split at h
    · cases h
    · rename_i hq
      cases h
      exact ⟨List.suffix_rfl, unterminated_double hq⟩
  · split at h
    · cases h
    · cases h
      exact ⟨[], ['$'], by decide, rfl, hnone⟩
  · split at h
    · split at h
      · cases h
      · cases h
        exact ⟨[], [], by decide, rfl, hnone⟩
    · cases h
      exact ⟨[], ['&'], by decide, rfl, hnone⟩
  · rename_i s
    split at h
    · split at h
      · cases h
      · cases h
        exact ⟨[], s, rfl, rfl, hnone⟩
    · rename_i x hx
      split at h
      · rename_i hk
        cases h
        have hinner := hin s _ _ (by simp) hx
        simp only at hk
        subst hk
        exact ⟨hinner.1.trans (List.suffix_cons '(' s), hinner.2⟩
      · cases h
        exact ⟨[], s, rfl, rfl, hnone⟩
    · cases h
  · split at h
    · split at h <;> cases h
    · cases h
      exact ⟨[], [], by decide, rfl, hnone⟩

theorem resume_error_cases {x : ExpressionError} (h : resume ctx v t = .error (.error x)) :
    ∃ w s, Blank w ∧ t = w ++ '.' :: s ∧ (∀ r, s ≠ '=' :: r) ∧
      (term ctx (evaluate ctx) (Text.trimStart s) = .error (.error x) ∨
        ∃ u r joined, term ctx (evaluate ctx) (Text.trimStart s) = .ok (u, r) ∧
          resume ctx joined r = .error (.error x)) := by
  by_cases hu : Undotted t.trimStart
  · rw [resume_undotted v hu] at h
    cases h
  · obtain ⟨s, hs, hne⟩ := dot_of_not_undotted hu
    obtain ⟨w, hw, ht⟩ := Text.trimStart_append_eq t
    rw [← resume_trimStart, hs, resume_dot v hne] at h
    refine ⟨w, s, hw, hs ▸ ht, hne, ?_⟩
    split at h
    · cases h
    · split at h
      · rename_i hterm
        cases h
        exact .inl hterm
      · rename_i u r hterm
        split at h
        · cases h
        · exact .inr ⟨u, r, _, hterm, h⟩

theorem resume_located
    (hin : ∀ s p k, s.length < t.length → evaluate ctx s = .error (.error ⟨k, p⟩) →
      Located ctx s p k)
    (h : resume ctx v t = .error (.error ⟨kind, position⟩)) :
    ∃ w s, Blank w ∧ t = w ++ '.' :: s ∧ (∀ r, s ≠ '=' :: r) ∧ Located ctx s position kind := by
  -- The induction is on the text that is left.
  induction hn : t.length using Nat.strongRecOn generalizing t v with
  | ind n ih =>
    subst hn
    obtain ⟨w, s, hw, rfl, hne, hcases⟩ := resume_error_cases h
    obtain ⟨blanks, hblanks, hs⟩ := Text.trimStart_append_eq s
    have hlt : (Text.trimStart s).length < (w ++ '.' :: s).length := by
      have := Text.length_trimStart_le s
      simp only [List.length_append, List.length_cons]
      omega
    refine ⟨w, s, hw, rfl, hne, ?_⟩
    rw [hs]
    apply located_blank hblanks
    rcases hcases with hterm | ⟨u, r, joined, hterm, hr⟩
    · exact term_located (fun x p k hx => hin x p k (by omega)) hterm
    · obtain ⟨c, e, hc, he, heterm, hv, -⟩ := term_sound (fun x _ => evaluate_sound ctx x) hterm
      have hshort : r.length ≤ (Text.trimStart s).length := by
        rw [hc, List.length_append]
        omega
      obtain ⟨after, s', hafter, rfl, hne', hlocated⟩ :=
        ih r.length (by omega) (fun x p k hx => hin x p k (by omega)) hr rfl
      rw [hc, ← List.append_assoc]
      exact located_dot hafter he heterm hv hne' hlocated

theorem evaluate_located (h : evaluate ctx t = .error (.error ⟨kind, position⟩)) :
    Located ctx t position kind := by
  induction hn : t.length using Nat.strongRecOn generalizing t kind position with
  | ind n ih =>
    subst hn
    obtain ⟨blanks, hblanks, ht⟩ := Text.trimStart_append_eq t
    have hle := Text.length_trimStart_le t
    have hin : ∀ s p k, s.length < t.trimStart.length →
        evaluate ctx s = .error (.error ⟨k, p⟩) → Located ctx s p k :=
      fun s p k hs hx => ih s.length (by omega) hx rfl
    rw [evaluate_eq] at h
    rw [ht]
    apply located_blank hblanks
    split at h
    · rename_i hterm
      cases h
      exact term_located hin hterm
    · rename_i u r hterm
      obtain ⟨c, e, hc, he, heterm, hv, -⟩ := term_sound (fun x _ => evaluate_sound ctx x) hterm
      have hshort : r.length ≤ t.trimStart.length := by
        rw [hc, List.length_append]
        omega
      obtain ⟨after, s, hafter, rfl, hne, hlocated⟩ :=
        resume_located (fun x p k hx => hin x p k (by omega)) h
      rw [hc, ← List.append_assoc]
      exact located_dot hafter he heterm hv hne hlocated

end

/-- Where each kind of error is reported. -/
theorem evaluate_error_position (env : Text → Text) (option : Text → Option OptionValue)
    {t position : Text} {kind : ExpressionErrorKind}
    (h : evaluate (.ofReaders env option) t = .error (.error ⟨kind, position⟩)) :
    position <:+ t ∧ kind ≠ .internal ∧
    (kind = .missingQuote → Unterminated position) ∧
    (kind = .invalidSubexpression → ∃ before s, t = before ++ position ∧ position = '(' :: s ∧
      Opening (.ofReaders env option) position before) ∧
    (kind = .invalidExpression → ∃ before, ∃ sigil ∈ sigils, t = before ++ (sigil ++ position) ∧
      Opening (.ofReaders env option) (sigil ++ position) before) := by
  have hlocated := evaluate_located h
  refine ⟨?_, ?_, ?_, ?_, ?_⟩
  · cases kind with
    | missingQuote => exact hlocated.1
    | invalidSubexpression =>
      obtain ⟨before, s, rfl, -⟩ := hlocated
      exact List.suffix_append before position
    | invalidExpression =>
      obtain ⟨before, sigil, -, rfl, -⟩ := hlocated
      exact (List.suffix_append sigil position).trans (List.suffix_append before _)
    | internal => exact hlocated.elim
  · rintro rfl
    exact hlocated
  · rintro rfl
    exact hlocated.2
  · rintro rfl
    exact hlocated
  · rintro rfl
    exact hlocated

theorem evaluate_error_position_sample :
    let env : Text → Text := fun _ => "x".toList
    let option : Text → Option OptionValue := fun _ => some (.bool true)
    evaluate (.ofReaders env option) "$A . ('b' . (1 . 'it''s))".toList =
      .error (.error ⟨.missingQuote, "'it''s))".toList⟩) ∧
    Unterminated "'it''s))".toList ∧
    evaluate (.ofReaders env option) " 'a' . &b.( 'c' . (&))".toList =
      .error (.error ⟨.invalidSubexpression, "( 'c' . (&))".toList⟩) ∧
    Opening (.ofReaders env option) "( 'c' . (&))".toList " 'a' . &b.".toList ∧
    evaluate (.ofReaders env option) "('a'.7) . $-".toList =
      .error (.error ⟨.invalidExpression, ['-']⟩) ∧
    ∃ before, ∃ sigil ∈ sigils, "('a'.7) . $-".toList = before ++ (sigil ++ ['-']) ∧
      Opening (.ofReaders env option) (sigil ++ ['-']) before := by
  intro env option
  have hquote : evaluate (.ofReaders env option) "$A . ('b' . (1 . 'it''s))".toList =
      .error (.error ⟨.missingQuote, "'it''s))".toList⟩) := rfl
  have hgroup : evaluate (.ofReaders env option) " 'a' . &b.( 'c' . (&))".toList =
      .error (.error ⟨.invalidSubexpression, "( 'c' . (&))".toList⟩) := rfl
  have hname : evaluate (.ofReaders env option) "('a'.7) . $-".toList =
      .error (.error ⟨.invalidExpression, ['-']⟩) := rfl
  obtain ⟨-, -, hopen, -⟩ := evaluate_error_position env option hquote
  obtain ⟨-, -, -, hbefore, -⟩ := evaluate_error_position env option hgroup
  obtain ⟨-, -, -, -, hsigil⟩ := evaluate_error_position env option hname
  obtain ⟨before, s, hsplit, -, hopening⟩ := hbefore rfl
  have heq : before = " 'a' . &b.".toList := (List.append_cancel_right hsplit).symm
  exact ⟨hquote, hopen rfl, hgroup, heq ▸ hopening, hname, hsigil rfl⟩

end LetShell.Expression
