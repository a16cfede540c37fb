import LetShell.Expression

/-!
# Progress of the evaluator

Every reader leaves a rest that is shorter than its input, and the evaluator
looks at no text longer than its own. So the bounds on dots and parentheses are
never felt: past the length of the text the result does not depend on them.
-/

set_option autoImplicit false

namespace LetShell.Expression

theorem singleQuoted_length {t v rest : Text} (h : singleQuoted t = some (v, rest)) :
    rest.length < t.length := by
  induction t using singleQuoted.induct generalizing v with
  | case1 => cases h
  | case2 s ih =>
    simp only [singleQuoted, Option.map_eq_some_iff] at h
    obtain ⟨⟨w, r⟩, hw, he⟩ := h
    cases he
    have hlt : r.length < s.length := ih hw
    simp only [List.length_cons]
    omega
  | case3 s hs =>
    rw [singleQuoted] at h
    · cases h
      simp
    · exact hs
  | case4 c s h1 h2 ih =>
    rw [singleQuoted] at h
    · simp only [Option.map_eq_some_iff] at h
      obtain ⟨⟨w, r⟩, hw, he⟩ := h
      cases he
      have hlt : r.length < s.length := ih hw
      simp only [List.length_cons]
      omega
    · exact h1
    · exact h2

theorem doubleQuoted_length {t v rest : Text} (h : doubleQuoted t = some (v, rest)) :
    rest.length < t.length := by
  induction t using doubleQuoted.induct generalizing v with
  | case1 => cases h
  | case2 s =>
    simp only [doubleQuoted] at h
    cases h
    simp
  | case3 c s ih =>
    simp only [doubleQuoted, Option.map_eq_some_iff] at h
    obtain ⟨⟨w, r⟩, hw, he⟩ := h
    cases he
    have hlt : r.length < s.length := ih hw
    simp only [List.length_cons]
    omega
  | case4 c s h1 h2 ih =>
    rw [doubleQuoted] at h
    · simp only [Option.map_eq_some_iff] at h
      obtain ⟨⟨w, r⟩, hw, he⟩ := h
      cases he
      have hlt : r.length < s.length := ih hw
      simp only [List.length_cons]
      omega
    · exact h1
    · exact h2

theorem name?_length {a : Alphabet} {t name rest : Text} (h : a.name? t = some (name, rest)) :
    rest.length < t.length := by
  obtain ⟨ha, rfl⟩ := Alphabet.name?_eq_some h
  cases name with
  | nil => exact ha.elim
  | cons c s => simp only [List.cons_append, List.length_cons, List.length_append]; omega

theorem numeral?_append {t token rest : Text} (h : numeral? t = some (token, rest)) :
    token ≠ [] ∧ t = token ++ rest := by
  unfold numeral? at h
  split at h
  · split at h
    · cases h
      simp
    · cases h
  · split at h
    · cases h
      simp
    · cases h
  · cases h

theorem numeral?_length {t token rest : Text} (h : numeral? t = some (token, rest)) :
    rest.length < t.length := by
  obtain ⟨hne, rfl⟩ := numeral?_append h
  have := List.length_pos_iff.mpr hne
  rw [List.length_append]
  omega

def Advances (f : Text → Outcome (Value × Text)) : Prop :=
  ∀ t v rest, f t = .ok (v, rest) → rest.length < t.length

def AgreeBelow (n : Nat) (f g : Text → Outcome (Value × Text)) : Prop :=
  ∀ t, t.length < n → f t = g t

theorem term_advances (ctx : Context) {inner : Text → Outcome (Value × Text)}
    (hi : Advances inner) : Advances (term ctx inner) := by
  intro t v rest h
  unfold term at h
  split at h
  · split at h
    · rename_i hq
      cases h
      exact Nat.lt_succ_of_lt (singleQuoted_length hq)
    · cases h
  · split at h
    · rename_i hq
      cases h
      exact Nat.lt_succ_of_lt (doubleQuoted_length hq)
    · cases h
  · split at h
    · rename_i hn
      cases h
      exact Nat.lt_succ_of_lt (name?_length hn)
    · cases h
  · split at h
    · rename_i hn
      split at h
      · cases h
        exact Nat.lt_succ_of_lt (name?_length hn)
      · cases h
    · cases h
  · rename_i s
    split at h
    · rename_i w r hin
      have hlt := hi _ _ _ hin
      split at h
      · rename_i r' hr
        cases h
        have hle := Text.length_trimStart_le r
        rw [hr, List.length_cons] at hle
        simp only [List.length_cons]
        omega
      · cases h
    · split at h <;> cases h
    · cases h
  · split at h
    · rename_i hn
      split at h
      · cases h
        exact numeral?_length hn
      · cases h
    · cases h

theorem chain_advances {f : Text → Outcome (Value × Text)} (hf : Advances f) (fuel : Nat)
    {v w : Value} {t rest : Text} (h : chain f fuel v t = .ok (w, rest)) :
    rest.length ≤ t.length := by
  induction fuel generalizing v t with
  | zero => cases h
  | succ fuel ih =>
    have hle := Text.length_trimStart_le t
    simp only [chain] at h
    split at h
    · rename_i s hs
      cases h
      rw [← hs]
      exact hle
    · rename_i s hdot hs
      split at h
      · cases h
      · split at h
        · cases h
        · rename_i r hr
          have hlt := hf _ _ _ hr
          have hs2 := Text.length_trimStart_le s
          split at h
          · cases h
          · have := ih h
            rw [hs, List.length_cons] at hle
            omega
    · cases h
      exact hle

theorem expression_advances (ctx : Context) (depth : Nat) : Advances (expression ctx depth) := by
  induction depth with
  | zero => intro t v rest h; cases h
  | succ depth ih =>
    intro t v rest h
    have hf := term_advances ctx ih
    simp only [expression] at h
    split at h
    · cases h
    · rename_i w r hr
      have h1 := hf _ _ _ hr
      have h2 := chain_advances hf _ h
      have h3 := Text.length_trimStart_le t
      omega

theorem term_congr (ctx : Context) {inner other : Text → Outcome (Value × Text)} {t : Text}
    (h : AgreeBelow t.length inner other) : term ctx inner t = term ctx other t := by
  unfold term
  split
  · rfl
  · rfl
  · rfl
  · rfl
  · rw [h _ (by simp)]
  · rfl

/-- Past the length of the text the bound on dots is not felt, nor what the
reader of terms does on longer texts. -/
theorem chain_congr {f g : Text → Outcome (Value × Text)} (hf : Advances f) {n m : Nat} {v : Value}
    {t : Text} (hn : t.length < n) (hm : t.length < m) (h : AgreeBelow t.length f g) :
    chain f n v t = chain g m v t := by
  induction n generalizing m v t with
  | zero => omega
  | succ n ih =>
    cases m with
    | zero => omega
    | succ m =>
      have hle := Text.length_trimStart_le t
      simp only [chain]
      split
      · rfl
      · rename_i s hdot hs
        rw [hs, List.length_cons] at hle
        have hs2 := Text.length_trimStart_le s
        rw [h _ (show (Text.trimStart s).length < t.length by omega)]
        split
        · rfl
        · split
          · rfl
          · rename_i r hr
            rw [← h _ (show (Text.trimStart s).length < t.length by omega)] at hr
            have hlt := hf _ _ _ hr
            split
            · rfl
            · exact ih (by omega) (by omega) fun u hu => h u (by omega)
      · rfl

theorem expression_congr (ctx : Context) {n m : Nat} {t : Text} (hn : t.length < n)
    (hm : t.length < m) : expression ctx n t = expression ctx m t := by
  induction n generalizing m t with
  | zero => omega
  | succ n ih =>
    cases m with
    | zero => omega
    | succ m =>
      have hle := Text.length_trimStart_le t
      have hin : AgreeBelow t.length (expression ctx n) (expression ctx m) := fun u hu =>
        ih (by omega) (by omega)
      have hterm : ∀ u : Text, u.length ≤ t.length →
          term ctx (expression ctx n) u = term ctx (expression ctx m) u := fun u hu =>
        term_congr ctx fun w hw => hin w (by omega)
      simp only [expression]
      rw [hterm _ hle]
      split
      · rfl
      · rename_i w r hr
        have hlt := term_advances ctx (expression_advances ctx m) _ _ _ hr
        exact chain_congr (term_advances ctx (expression_advances ctx n)) (by omega) (by omega)
          fun u hu => hterm u (by omega)

/-- The evaluator's own bound may be replaced by any that is large enough. -/
theorem evaluate_eq_expression (ctx : Context) {n : Nat} {t : Text} (h : t.length < n) :
    evaluate ctx t = expression ctx n t :=
  expression_congr ctx (by omega) h

end LetShell.Expression
