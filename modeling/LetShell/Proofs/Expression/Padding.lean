import LetShell.Proofs.Expression.Readers
import LetShell.Proofs.Expression.Respelling

/-!
# Blanks after an expression

No token goes on with a blank, none ends with one, and no reader asks for the
end of the text but to report that something is missing. So blanks after an
expression change neither its value nor whether and how it fails; they come
back in the rest, if there is one.
-/

set_option autoImplicit false

namespace LetShell.Expression
open Text

/-- One value and a rest with blanks after it, or failures of one kind. -/
abbrev Padded (w : Text) (r r' : Outcome (Value × Text)) : Prop :=
  Paired SameFailure (fun p q => p.1 = q.1 ∧ trimStart q.2 = trimStart (p.2 ++ w)) r r'

section
variable {ctx : Context} {w t : Text} {v : Value}

theorem padded_fail {k : ExpressionErrorKind} (w s t : Text) : Padded w (fail k s) (fail k t) :=
  .error rfl

theorem not_sign_of_blank {b : Char} (hb : isBlank b = true) :
    b ∉ ['\'', '"', '$', '&', '('] ∧ numeral? (b :: t) = none := by
  have hne : ∀ c, isBlank c = false → b ≠ c := by
    rintro c hc rfl
    rw [hc] at hb
    cases hb
  have hdigit := (blank_continues_nothing hb).2.1
  refine ⟨?_, numeral?_other hdigit (hne '-' (by decide)) t⟩
  simp only [List.mem_cons, List.not_mem_nil, or_false, not_or]
  exact ⟨hne _ (by decide), hne _ (by decide), hne _ (by decide), hne _ (by decide),
    hne _ (by decide)⟩

theorem closeAlike_blank (hw : Blank w) :
    CloseAlike fun r r' => trimStart r' = trimStart (r ++ w) := by
  intro r r' h
  rw [trimStart_append] at h
  cases hr : trimStart r with
  | nil =>
    rw [if_pos hr, trimStart_eq_nil_iff.mpr hw] at h
    refine .inr ⟨nofun, fun u hu => ?_⟩
    rw [h] at hu
    cases hu
  | cons c s =>
    rw [hr, if_neg (List.cons_ne_nil c s), List.cons_append] at h
    by_cases hc : c = ')'
    · subst hc
      exact .inl ⟨s, s ++ w, rfl, h, rfl⟩
    · have hopen : ∀ x u : Text, c :: x ≠ ')' :: u := fun x u he => hc (List.cons.inj he).1
      exact .inr ⟨hopen s, fun u hu => hopen (s ++ w) u (h.symm.trans hu)⟩

theorem unsigned_padded (hw : Blank w) {inner : Text → Outcome (Value × Text)} {c : Char}
    (hc : c ∉ ['\'', '"', '$', '&', '(']) :
    Padded w (term ctx inner (c :: t)) (term ctx inner (c :: (t ++ w))) := by
  have hread := read_blank takes_numeral? hw (c :: t)
  rw [List.cons_append] at hread
  cases hn : numeral? (c :: t) with
  | none =>
    rw [hn] at hread
    rw [term_unsigned hc hn, term_unsigned hc hread]
    exact padded_fail _ _ _
  | some q =>
    rw [hn] at hread
    rw [term_of_numeral hn, term_of_numeral hread]
    cases Numeral.readOrFault q.1 with
    | ok n => exact .ok ⟨rfl, rfl⟩
    | error f => exact .error rfl

theorem term_padded (hw : Blank w)
    (hin : ∀ u : Text, u.length < t.length → Padded w (evaluate ctx u) (evaluate ctx (u ++ w))) :
    Padded w (term ctx (evaluate ctx) t) (term ctx (evaluate ctx) (t ++ w)) := by
  cases t with
  | nil =>
    cases w with
    | nil => exact padded_fail _ _ _
    | cons b w =>
      obtain ⟨hsign, hnumeral⟩ := not_sign_of_blank (t := w) (hw b (List.mem_cons_self ..))
      rw [List.nil_append, term_unsigned hsign hnumeral]
      exact padded_fail _ _ _
  | cons c s =>
    rw [List.cons_append]
    by_cases hc : c ∉ ['\'', '"', '$', '&', '(']
    · exact unsigned_padded hw hc
    · simp only [List.mem_cons, List.not_mem_nil, or_false, Decidable.not_not] at hc
      rcases hc with rfl | rfl | rfl | rfl | rfl
      · simp only [term, read_blank takes_singleQuoted hw]
        cases singleQuoted s with
        | none => exact padded_fail _ _ _
        | some q => exact .ok ⟨rfl, rfl⟩
      · simp only [term, read_blank takes_doubleQuoted hw]
        cases doubleQuoted s with
        | none => exact padded_fail _ _ _
        | some q => exact .ok ⟨rfl, rfl⟩
      · simp only [term, read_blank takes_environment hw]
        cases Alphabet.environment.name? s with
        | none => exact padded_fail _ _ _
        | some q => exact .ok ⟨rfl, rfl⟩
      · simp only [term, read_blank takes_option hw]
        cases Alphabet.option.name? s with
        | none => exact padded_fail _ _ _
        | some q =>
          simp only [Option.map_some]
          cases ctx.option q.1 with
          | none => exact padded_fail _ _ _
          | some v => exact .ok ⟨rfl, rfl⟩
      · exact parentheses_paired (closeAlike_blank hw) (hin s (by simp))

theorem term_start_padded (hw : Blank w)
    (hin : ∀ u : Text, u.length < t.length → Padded w (evaluate ctx u) (evaluate ctx (u ++ w))) :
    Padded w (term ctx (evaluate ctx) t.trimStart) (term ctx (evaluate ctx) (t ++ w).trimStart) := by
  have hle := length_trimStart_le t
  rw [trimStart_append]
  split
  · rename_i hnil
    rw [hnil, trimStart_eq_nil_iff.mpr hw]
    exact padded_fail _ _ _
  · exact term_padded hw fun u hu => hin u (by omega)

theorem undotted_blank (hw : Blank w) (h : Undotted t.trimStart) : Undotted (t ++ w).trimStart := by
  rw [trimStart_append]
  split
  · rw [trimStart_eq_nil_iff.mpr hw]
    intro s hs
    cases hs
  · rename_i hne
    intro s hs
    cases ht : trimStart t with
    | nil => exact absurd ht hne
    | cons c u =>
      rw [ht] at hs
      cases hs
      obtain ⟨r, rfl⟩ := h u ht
      exact ⟨r ++ w, rfl⟩

theorem resume_padded (hw : Blank w)
    (hin : ∀ u : Text, u.length < t.length → Padded w (evaluate ctx u) (evaluate ctx (u ++ w)))
    (v : Value) : Padded w (resume ctx v t) (resume ctx v (t ++ w)) := by
  -- The induction is on the text that is left.
  induction hn : t.length using Nat.strongRecOn generalizing t v with
  | ind n ih =>
    subst hn
    have hle := length_trimStart_le t
    by_cases hu : Undotted t.trimStart
    · rw [resume_undotted v hu, resume_undotted v (undotted_blank hw hu)]
      refine .ok ⟨rfl, ?_⟩
      rw [trimStart_trimStart, trimStart_append, trimStart_append, trimStart_trimStart]
    · obtain ⟨s, hs, hne⟩ := dot_of_not_undotted hu
      have hs' : (t ++ w).trimStart = '.' :: (s ++ w) := by
        rw [trimStart_append, hs, if_neg (List.cons_ne_nil _ _), List.cons_append]
      have hne' : ∀ r, s ++ w ≠ '=' :: r := by
        intro r hr
        cases s with
        | cons c s =>
          cases hr
          exact hne s rfl
        | nil =>
          have hblank := hw '=' (by rw [List.nil_append] at hr; simp [hr])
          revert hblank
          decide
      have hlt : s.length < t.length := by
        rw [hs, List.length_cons] at hle
        omega
      have hterm := term_start_padded hw fun u hu => hin u (Nat.lt_trans hu hlt)
      rw [← resume_trimStart, hs, ← resume_trimStart ctx v (t ++ w), hs', resume_dot v hne,
        resume_dot v hne']
      cases v.toText with
      | error f => exact .error rfl
      | ok left =>
        have hadvance := term_advances ctx (evaluate_advances ctx) (trimStart s)
        have hle' := length_trimStart_le s
        generalize term ctx (evaluate ctx) (trimStart s) = x at hterm hadvance
        generalize term ctx (evaluate ctx) (trimStart (s ++ w)) = y at hterm
        cases hterm with
        | error he => exact .error he
        | @ok p q hpq =>
          obtain ⟨u, r⟩ := p
          obtain ⟨u', r'⟩ := q
          obtain ⟨rfl, hrest⟩ := hpq
          have hr := hadvance u r rfl
          simp only
          cases u.toText with
          | error f => exact .error rfl
          | ok right =>
            simp only
            rw [← resume_trimStart ctx _ r', hrest, resume_trimStart]
            exact ih r.length (by omega) (fun x hx => hin x (by omega)) _ rfl

theorem evaluate_padded (ctx : Context) (hw : Blank w) (t : Text) :
    Padded w (evaluate ctx t) (evaluate ctx (t ++ w)) := by
  induction hn : t.length using Nat.strongRecOn generalizing t with
  | ind n ih =>
    subst hn
    have hin : ∀ u : Text, u.length < t.length →
        Padded w (evaluate ctx u) (evaluate ctx (u ++ w)) := fun u hu => ih u.length hu u rfl
    have hterm := term_start_padded hw hin
    have hadvance := term_advances ctx (evaluate_advances ctx) t.trimStart
    have hle := length_trimStart_le t
    rw [evaluate_eq ctx t, evaluate_eq ctx (t ++ w)]
    generalize term ctx (evaluate ctx) t.trimStart = x at hterm hadvance
    generalize term ctx (evaluate ctx) (trimStart (t ++ w)) = y at hterm
    cases hterm with
    | error he => exact .error he
    | @ok p q hpq =>
      obtain ⟨v, r⟩ := p
      obtain ⟨v', r'⟩ := q
      obtain ⟨rfl, hrest⟩ := hpq
      have hr := hadvance v r rfl
      simp only
      rw [← resume_trimStart ctx v r', hrest, resume_trimStart]
      exact resume_padded hw (fun u hu => hin u (by omega)) v

theorem evaluate_blank_after (ctx : Context) (hw : Blank w) (t : Text) :
    Paired SameFailure (fun p q => p.1 = q.1 ∧ (p.2 = [] ↔ q.2 = []))
      (evaluate ctx t) (evaluate ctx (t ++ w)) := by
  have hstart : ∀ t v rest, evaluate ctx t = .ok (v, rest) → rest.trimStart = rest := by
    intro t v rest h
    obtain ⟨-, -, -, -, -, -, -, -, -, hfree, -⟩ := evaluate_sound ctx t v rest h
    exact trimStart_eq_self_iff.mpr hfree
  have hpadded := evaluate_padded ctx hw t
  have hleft := hstart t
  have hright := hstart (t ++ w)
  generalize evaluate ctx t = x at hpadded hleft
  generalize evaluate ctx (t ++ w) = y at hpadded hright
  cases hpadded with
  | error he => exact .error he
  | @ok p q hpq =>
    obtain ⟨hvalue, hrest⟩ := hpq
    rw [hright q.1 q.2 rfl, trimStart_append, hleft p.1 p.2 rfl] at hrest
    refine .ok ⟨hvalue, ?_⟩
    rw [hrest]
    split
    · rename_i hnil
      exact iff_of_true hnil (trimStart_eq_nil_iff.mpr hw)
    · rename_i hne
      exact iff_of_false hne fun h => hne (List.append_eq_nil_iff.mp h).1

end

end LetShell.Expression
