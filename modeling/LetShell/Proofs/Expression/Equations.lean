import LetShell.Expression.Progress

/-!
# Evaluation without bounds

The bounds on parentheses and dots are never felt. So evaluation reads one term
and goes on with what follows it, and what stands in parentheses is evaluated
in the same way.
-/

set_option autoImplicit false

namespace LetShell.Expression

/-- The dots and terms after a value, as many as there are. -/
def resume (ctx : Context) (v : Value) (t : Text) : Outcome (Value × Text) :=
  chain (term ctx (evaluate ctx)) (t.length + 1) v t

/-- No dot in front, unless it belongs to an append operator. -/
def Undotted (t : Text) : Prop := ∀ s, t = '.' :: s → ∃ r, s = '=' :: r

section
variable {ctx : Context} {v w : Value} {t rest : Text}

theorem dot_of_not_undotted (h : ¬ Undotted t) : ∃ s, t = '.' :: s ∧ ∀ r, s ≠ '=' :: r := by
  simp only [Undotted, Classical.not_forall, not_exists] at h
  obtain ⟨s, hs, hne⟩ := h
  exact ⟨s, hs, hne⟩

theorem evaluate_advances (ctx : Context) : Advances (evaluate ctx) :=
  fun t => expression_advances ctx (t.length + 1) t

theorem term_expression {n : Nat} (h : t.length ≤ n) :
    term ctx (expression ctx n) t = term ctx (evaluate ctx) t := by
  apply term_congr
  intro u hu
  exact (evaluate_eq_expression ctx (by omega)).symm

theorem chain_eq_resume {n : Nat} (h : t.length < n) :
    chain (term ctx (evaluate ctx)) n v t = resume ctx v t := by
  apply chain_congr (term_advances ctx (evaluate_advances ctx)) h (by omega)
  intro u hu
  rfl

theorem evaluate_eq (ctx : Context) (t : Text) :
    evaluate ctx t =
      match term ctx (evaluate ctx) t.trimStart with
      | .error e => .error e
      | .ok (v, rest) => resume ctx v rest := by
  have hle := Text.length_trimStart_le t
  rw [evaluate, expression, term_expression hle]
  cases h : term ctx (evaluate ctx) t.trimStart with
  | error e => rfl
  | ok p =>
    have hlt := term_advances ctx (evaluate_advances ctx) _ _ _ h
    apply chain_congr (term_advances ctx (expression_advances ctx _)) (by omega) (by omega)
    intro u hu
    exact term_expression (by omega)

theorem evaluate_trimStart (ctx : Context) (t : Text) :
    evaluate ctx t.trimStart = evaluate ctx t := by
  rw [evaluate_eq ctx t, evaluate_eq ctx t.trimStart, Text.trimStart_trimStart]

theorem term_of_evaluate (h : evaluate ctx t = .ok (w, rest)) :
    ∃ v s, term ctx (evaluate ctx) t.trimStart = .ok (v, s) ∧ resume ctx v s = .ok (w, rest) := by
  rw [evaluate_eq] at h
  split at h
  · cases h
  · rename_i v s hv
    exact ⟨v, s, hv, h⟩

theorem resume_trimStart (ctx : Context) (v : Value) (t : Text) :
    resume ctx v t.trimStart = resume ctx v t := by
  have hle := Text.length_trimStart_le t
  have hsame : chain (term ctx (evaluate ctx)) (t.length + 1) v t.trimStart =
      chain (term ctx (evaluate ctx)) (t.length + 1) v t := by
    simp only [chain, Text.trimStart_trimStart]
  have hlong : t.trimStart.length < t.length + 1 := by omega
  rw [← chain_eq_resume hlong, hsame]
  rfl

theorem chain_undotted {f : Text → Outcome (Value × Text)} {n : Nat} (v : Value)
    (h : Undotted t.trimStart) : chain f (n + 1) v t = .ok (v, t.trimStart) := by
  rw [chain]
  split
  · rename_i s hs
    rw [hs]
  · rename_i s hne hs
    obtain ⟨r, rfl⟩ := h s hs
    exact absurd rfl (hne r)
  · rfl

theorem chain_dotted {f : Text → Outcome (Value × Text)} {n : Nat} {s : Text} (v : Value)
    (hs : t.trimStart = '.' :: s) (h : ∀ r, s ≠ '=' :: r) :
    chain f (n + 1) v t =
      match v.toText with
      | .error x => .error (.fault x)
      | .ok left =>
        match f s.trimStart with
        | .error e => .error e
        | .ok (w, rest) =>
          match w.toText with
          | .error x => .error (.fault x)
          | .ok right => chain f n (.text (left ++ right)) rest := by
  rw [chain, hs]
  split
  · rename_i r hr
    cases hr
    exact absurd rfl (h r)
  · rename_i r _ hr
    cases hr
    rfl
  · rename_i hne
    exact absurd rfl (hne s)

theorem resume_undotted (v : Value) (h : Undotted t.trimStart) :
    resume ctx v t = .ok (v, t.trimStart) :=
  chain_undotted v h

theorem resume_nil (ctx : Context) (v : Value) : resume ctx v [] = .ok (v, []) := by
  apply resume_undotted
  intro s hs
  cases hs

theorem evaluate_of_term (hlead : t.trimStart = t)
    (hterm : term ctx (evaluate ctx) t = .ok (v, [])) : evaluate ctx t = .ok (v, []) := by
  rw [evaluate_eq, hlead, hterm]
  exact resume_nil ctx v

theorem resume_dot (v : Value) (h : ∀ s, t ≠ '=' :: s) :
    resume ctx v ('.' :: t) =
      match v.toText with
      | .error f => .error (.fault f)
      | .ok left =>
        match term ctx (evaluate ctx) t.trimStart with
        | .error e => .error e
        | .ok (w, rest) =>
          match w.toText with
          | .error f => .error (.fault f)
          | .ok right => resume ctx (.text (left ++ right)) rest := by
  have hdot : Text.trimStart ('.' :: t) = '.' :: t := Text.trimStart_of_not_blank (by decide)
  have hle := Text.length_trimStart_le t
  rw [resume, chain_dotted v hdot h]
  cases v.toText with
  | error f => rfl
  | ok left =>
    cases hw : term ctx (evaluate ctx) t.trimStart with
    | error e => rfl
    | ok p =>
      have hlt := term_advances ctx (evaluate_advances ctx) _ _ _ hw
      simp only
      cases p.1.toText with
      | error f => rfl
      | ok right => exact chain_eq_resume (by simp only [List.length_cons]; omega)

theorem resume_cases (h : resume ctx v t = .ok (w, rest)) :
    (w = v ∧ rest = t.trimStart ∧ Undotted rest) ∨
      ∃ s left u r right, t.trimStart = '.' :: s ∧ (∀ x, s ≠ '=' :: x) ∧ v.toText = .ok left ∧
        term ctx (evaluate ctx) (Text.trimStart s) = .ok (u, r) ∧ u.toText = .ok right ∧
        resume ctx (.text (left ++ right)) r = .ok (w, rest) := by
  by_cases hu : Undotted t.trimStart
  · rw [resume_undotted v hu] at h
    cases h
    exact .inl ⟨rfl, rfl, hu⟩
  · obtain ⟨s, hs, hne⟩ := dot_of_not_undotted hu
    rw [← resume_trimStart, hs, resume_dot v hne] at h
    split at h
    · cases h
    · rename_i left hleft
      split at h
      · cases h
      · rename_i u r hur
        split at h
        · cases h
        · rename_i right hright
          exact .inr ⟨s, left, u, r, right, hs, hne, hleft, hur, hright, h⟩

end

end LetShell.Expression
