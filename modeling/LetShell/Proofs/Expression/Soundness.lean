import LetShell.Proofs.Expression.Equations
import LetShell.Proofs.Expression.Tokens

/-!
# What the evaluator accepts

Whatever the evaluator reads is a spelling of a tree, and the value it gives is
the value of the tree. A chain of terms is read as a concatenation that grows to
the right, and what stands in parentheses is shorter than the whole text.
-/

set_option autoImplicit false

namespace LetShell.Expression

/-- The text begins with an expression of that value, and goes on with that rest. -/
def Begins (ctx : Context) (t : Text) (v : Value) (rest : Text) : Prop :=
  ∃ (before c after : Text) (e : Tree), Blank before ∧ Blank after ∧
    t = before ++ c ++ after ++ rest ∧ Spelling e c ∧ e.value ctx = some v ∧
    Free Text.isBlank rest ∧ Undotted rest ∧ (after = [] → e.Ends rest)

def Sound (ctx : Context) (t : Text) : Prop :=
  ∀ v rest, evaluate ctx t = .ok (v, rest) → Begins ctx t v rest

section
variable {ctx : Context} {t rest : Text} {v w : Value}

theorem term_sound (hin : ∀ s : Text, s.length < t.length → Sound ctx s)
    (h : term ctx (evaluate ctx) t = .ok (v, rest)) :
    ∃ (c : Text) (e : Tree), t = c ++ rest ∧ Spelling e c ∧ e.IsTerm ∧ e.value ctx = some v ∧
      e.Ends rest := by
  unfold term at h
  split at h
  · split at h
    · rename_i s content r hq
      cases h
      obtain ⟨hs, hfree⟩ := singleQuoted_sound hq
      exact ⟨_, .single content, by simp [hs], .single content, trivial, rfl, hfree⟩
    · cases h
  · split at h
    · rename_i s content r hq
      cases h
      obtain ⟨written, hw, hs⟩ := doubleQuoted_sound hq
      exact ⟨_, .double content, by simp [hs], .double hw, trivial, rfl, trivial⟩
    · cases h
  · split at h
    · rename_i s name r hn
      cases h
      obtain ⟨ha, hs⟩ := Alphabet.name?_eq_some hn
      exact ⟨_, .env name, by simp [hs], .env ha, trivial, rfl, name?_free hn⟩
    · cases h
  · split at h
    · rename_i s name r hn
      split at h
      · rename_i u hu
        cases h
        obtain ⟨ha, hs⟩ := Alphabet.name?_eq_some hn
        exact ⟨_, .option name, by simp [hs], .option ha, trivial, hu, name?_free hn⟩
      · cases h
    · cases h
  · rename_i s
    split at h
    · rename_i u r hu
      split at h
      · rename_i r' hr
        cases h
        obtain ⟨before, c, after, e, hb, ha, hs, he, hv, hfree, -, -⟩ :=
          hin s (by simp) _ _ hu
        have hclose : r = ')' :: rest := by
          rw [← trimStart_eq_self_iff.mpr hfree]
          exact hr
        exact ⟨_, .group e, by simp [hs, hclose], .group hb ha he, trivial, hv, trivial⟩
      · cases h
    · split at h <;> cases h
    · cases h
  · split at h
    · rename_i token r hn
      split at h
      · rename_i n hread
        cases h
        obtain ⟨negative, digits, rfl, hne, hd, ht, hfree⟩ := numeral?_sound hn
        obtain ⟨hdecimal, hl⟩ := decimal_of_readOrFault hne hd hread
        rw [readOrFault_signed hne hdecimal hl] at hread
        cases hread
        exact ⟨_, .number negative digits, ht, .number negative hne hdecimal hl, trivial, rfl, hfree⟩
      · cases h
    · cases h

theorem resume_sound (hin : ∀ s : Text, s.length < t.length → Sound ctx s) {c : Text} {e : Tree}
    (hc : Spelling e c) (hv : e.value ctx = some v) (he : e.Ends t)
    (h : resume ctx v t = .ok (w, rest)) :
    ∃ (d after : Text) (f : Tree), Blank after ∧ t = d ++ after ++ rest ∧ Spelling f (c ++ d) ∧
      f.value ctx = some w ∧ Free Text.isBlank rest ∧ Undotted rest ∧
      (after = [] → f.Ends rest) := by
  -- The induction is on the text that is left; the tree so far is what each further term is
  -- joined to.
  induction hn : t.length using Nat.strongRecOn generalizing t c e v with
  | ind n ih =>
    subst hn
    obtain ⟨blanks, hblanks, ht⟩ := Text.trimStart_append_eq t
    have hle := Text.length_trimStart_le t
    rcases resume_cases h with
      ⟨rfl, rfl, hu⟩ | ⟨s, left, u, r, right, hs, -, hleft, hterm, hright, hr⟩
    · refine ⟨[], blanks, e, hblanks, ht, by simpa using hc, hv, ?_, hu, ?_⟩
      · rw [← trimStart_eq_self_iff, Text.trimStart_trimStart]
      · intro hnil
        rw [hnil, List.nil_append] at ht
        rw [← ht]
        exact he
    · obtain ⟨blanks', hblanks', hs'⟩ := Text.trimStart_append_eq s
      have hle' := Text.length_trimStart_le s
      have hlt : s.length < t.length := by
        rw [hs, List.length_cons] at hle
        omega
      have hshort : ∀ x : Text, x.length < (Text.trimStart s).length → Sound ctx x := by
        intro x hx
        apply hin
        omega
      obtain ⟨d, g, hd, hg, -, hvg, hends⟩ := term_sound hshort hterm
      have hjoined : (Tree.concat e g).value ctx = some (.text (left ++ right)) := by
        rw [Value.form_of_toText hleft, Value.form_of_toText hright]
        simp [Tree.value, hv, hvg]
      have hrlt : r.length < t.length := by
        rw [hd, List.length_append] at hle'
        omega
      obtain ⟨d', after, f, hafter, hr', hf, hvf, hfree, hu, hfe⟩ :=
        ih r.length hrlt (fun x hx => hin x (by omega))
          (Spelling.concat hblanks hblanks' hc hg) hjoined hends hr rfl
      refine ⟨blanks ++ '.' :: (blanks' ++ d) ++ d', after, f, hafter, ?_, ?_, hvf, hfree, hu, hfe⟩
      · rw [ht, hs, hs', hd, hr']
        simp
      · simpa using hf

theorem evaluate_sound (ctx : Context) (t : Text) : Sound ctx t := by
  induction hn : t.length using Nat.strongRecOn generalizing t with
  | ind n ih =>
    subst hn
    intro w rest h
    obtain ⟨v, s, hterm, hs⟩ := term_of_evaluate h
    obtain ⟨before, hbefore, ht⟩ := Text.trimStart_append_eq t
    have hle := Text.length_trimStart_le t
    have hshort : ∀ x : Text, x.length < t.length → Sound ctx x := fun x hx => ih _ hx x rfl
    obtain ⟨c, e, hc, he, -, hv, hends⟩ := term_sound (fun x hx => hshort x (by omega)) hterm
    have hlt : s.length ≤ t.length := by
      rw [hc, List.length_append] at hle
      omega
    obtain ⟨d, after, f, hafter, hs', hf, hvf, hfree, hu, hfe⟩ :=
      resume_sound (fun x hx => hshort x (by omega)) he hv hends hs
    refine ⟨before, c ++ d, after, f, hbefore, hafter, ?_, hf, hvf, hfree, hu, hfe⟩
    rw [ht, hc, hs']
    simp

end

end LetShell.Expression
