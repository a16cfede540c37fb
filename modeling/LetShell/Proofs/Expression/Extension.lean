import LetShell.Proofs.Expression.Completeness
import LetShell.Proofs.Expression.Readers

/-!
# What follows an expression

A closing parenthesis continues no token and joins nothing. So an evaluation
that succeeds also succeeds with a parenthesis and any text after the input,
which it leaves alone. An expression can be put into a group where it stood alone.
-/

set_option autoImplicit false

namespace LetShell.Expression

section
variable {ctx : Context} {t v rest : Text}

theorem read_extend {read : Text → Option (Text × Text)} {spells : Text → Text → Prop}
    {p : Char → Bool} (h : Takes read spells p) (hp : p ')' = false)
    (hr : read t = some (v, rest)) (s : Text) :
    read (t ++ ')' :: s) = some (v, rest ++ ')' :: s) :=
  read_append h (free_cons hp s) hr

theorem trimStart_extend (t s : Text) :
    Text.trimStart (t ++ ')' :: s) = t.trimStart ++ ')' :: s := by
  rw [Text.trimStart_append]
  split
  · rename_i hnil
    rw [hnil, Text.trimStart_of_not_blank (by decide)]
    rfl
  · rfl

def Extends (read : Text → Outcome (Value × Text)) (t : Text) : Prop :=
  ∀ v rest s, read t = .ok (v, rest) → read (t ++ ')' :: s) = .ok (v, rest ++ ')' :: s)

theorem term_extends (hin : ∀ u : Text, u.length < t.length → Extends (evaluate ctx) u) :
    Extends (term ctx (evaluate ctx)) t := by
  intro v rest s h
  unfold term at h
  split at h
  · split at h
    · rename_i hq
      cases h
      simp only [List.cons_append, term, read_extend takes_singleQuoted rfl hq]
    · cases h
  · split at h
    · rename_i hq
      cases h
      simp only [List.cons_append, term, read_extend takes_doubleQuoted rfl hq]
    · cases h
  · split at h
    · rename_i hn
      cases h
      simp only [List.cons_append, term, read_extend takes_environment rfl hn]
    · cases h
  · split at h
    · rename_i hn
      split at h
      · rename_i ho
        cases h
        simp only [List.cons_append, term, read_extend takes_option rfl hn, ho]
      · cases h
    · cases h
  · rename_i u
    split at h
    · rename_i w r hu
      split at h
      · rename_i r' hr
        cases h
        have hinner := hin u (by simp) _ _ s hu
        simp only [List.cons_append, term, hinner, trimStart_extend, hr]
      · cases h
    · split at h <;> cases h
    · cases h
  · split at h
    · rename_i token r hn
      split at h
      · rename_i n hread
        cases h
        rw [term_of_numeral (read_extend takes_numeral? (by decide +kernel) hn s), hread]
      · cases h
    · cases h

theorem undotted_extend (h : Undotted rest) (s : Text) : Undotted (rest ++ ')' :: s) := by
  intro u hu
  cases rest with
  | nil => cases hu
  | cons c rest =>
    cases hu
    obtain ⟨r, rfl⟩ := h rest rfl
    exact ⟨r ++ ')' :: s, rfl⟩

theorem resume_extends (hin : ∀ u : Text, u.length < t.length → Extends (evaluate ctx) u)
    (v : Value) : Extends (resume ctx v) t := by
  -- The induction is on the text that is left.
  induction hn : t.length using Nat.strongRecOn generalizing t v with
  | ind n ih =>
    subst hn
    intro w rest s h
    have hle := Text.length_trimStart_le t
    rcases resume_cases h with
      ⟨rfl, rfl, hu⟩ | ⟨u, left, x, r, right, hu, hne, hleft, hterm, hright, hr⟩
    · have hundotted : Undotted (Text.trimStart (t ++ ')' :: s)) := by
        rw [trimStart_extend]
        exact undotted_extend hu s
      rw [resume_undotted w hundotted, trimStart_extend]
    · have hle' := Text.length_trimStart_le u
      have hlt : (Text.trimStart u).length < t.length := by
        rw [hu, List.length_cons] at hle
        omega
      have hadvance := term_advances ctx (evaluate_advances ctx) _ _ _ hterm
      have hterm' := term_extends (fun y hy => hin y (by omega)) _ _ s hterm
      have hrest := ih r.length (by omega) (fun y hy => hin y (by omega)) _ rfl _ _ s hr
      have hne' : ∀ y, u ++ ')' :: s ≠ '=' :: y := by
        intro y hy
        cases u with
        | nil => cases hy
        | cons c u =>
          cases hy
          exact hne u rfl
      rw [← resume_trimStart, trimStart_extend, hu, List.cons_append, resume_dot v hne', hleft]
      simp only [trimStart_extend, hterm', hright, hrest]

theorem evaluate_extends (ctx : Context) (t : Text) : Extends (evaluate ctx) t := by
  induction hn : t.length using Nat.strongRecOn generalizing t with
  | ind n ih =>
    subst hn
    intro w rest s h
    obtain ⟨v, r, hterm, hr⟩ := term_of_evaluate h
    have hle := Text.length_trimStart_le t
    have hadvance := term_advances ctx (evaluate_advances ctx) _ _ _ hterm
    have hterm' := term_extends (fun u hu => ih u.length (by omega) u rfl) _ _ s hterm
    have hr' := resume_extends (fun u hu => ih u.length (by omega) u rfl) v _ _ s hr
    rw [evaluate_eq, trimStart_extend, hterm']
    exact hr'

end

end LetShell.Expression
