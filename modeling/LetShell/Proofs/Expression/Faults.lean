import Mathlib.Algebra.Group.Nat.Defs
import Mathlib.Data.List.Induction
import LetShell.Proofs.Expression.Completeness

/-!
# Faults of the evaluator

An evaluation faults for two reasons only. The text holds a run of digits
without a value, since one of them has no place value or there are too many;
or an option that is referred to holds an integer too long to be written. An
integer that was read is never too long, and texts always can be written.
-/

set_option autoImplicit false

namespace LetShell

namespace Numeral

theorem long_iff {n : Int} : Long n ↔ 10 ^ digitLimit ≤ n.natAbs := by
  have hlength : (Text.ofNat n.natAbs).length ≤ digitLimit ↔ n.natAbs < 10 ^ digitLimit :=
    Nat.length_toDigits_le_iff (by decide) (by decide)
  unfold Long
  omega

theorem positional_lt {ds : List Nat} (h : ∀ d ∈ ds, d < 10) : positional ds < 10 ^ ds.length := by
  induction ds using List.reverseRecOn with
  | nil => exact Nat.one_pos
  | append_singleton ds d ih =>
    have hds := ih fun x hx => h x (List.mem_append_left _ hx)
    have hd := h d (List.mem_append_right _ (List.mem_singleton.mpr rfl))
    rw [positional_append, List.length_append, List.length_singleton, Nat.pow_succ]
    omega

theorem places_lt {t : Text} {d : Nat} (h : d ∈ places t) : d < 10 := by
  obtain ⟨c, -, hc⟩ := List.mem_filterMap.mp h
  exact Text.digitValue?_lt hc

end Numeral

namespace Expression

/-- Digits, with a sign or without one, that have no value. -/
def Unreadable (token : Text) : Prop :=
  ∃ negative digits, token = signed negative digits ∧ digits ≠ [] ∧
    (∀ c ∈ digits, Text.isDigit c = true) ∧
    ((∃ c ∈ digits, Text.isDecimal c = false) ∨ digitLimit < digits.length)

section
variable {negative : Bool} {digits token : Text} {n : Int} {f : Fault}

theorem unreadable_of_fault (hne : digits ≠ []) (hd : ∀ c ∈ digits, Text.isDigit c = true)
    (h : Numeral.readOrFault (signed negative digits) = .error f) :
    Unreadable (signed negative digits) := by
  refine ⟨negative, digits, rfl, hne, hd, ?_⟩
  by_contra hno
  rw [not_or, not_exists] at hno
  have hdecimal : ∀ c ∈ digits, Text.isDecimal c = true := by
    intro c hc
    simpa [hc] using hno.1 c
  rw [readOrFault_signed hne hdecimal (by omega)] at h
  cases h

theorem ne_nil_of_unreadable (h : Unreadable token) : token ≠ [] := by
  obtain ⟨negative, digits, rfl, hne, -⟩ := h
  cases negative with
  | true => exact List.cons_ne_nil _ _
  | false => exact hne

theorem fault_of_unreadable (h : Unreadable token) :
    ∃ f, Numeral.readOrFault token = .error f := by
  obtain ⟨negative, digits, rfl, hne, hd, hbad⟩ := h
  cases hr : Numeral.readOrFault (signed negative digits) with
  | error f => exact ⟨f, rfl⟩
  | ok n =>
    obtain ⟨hdecimal, hl⟩ := decimal_of_readOrFault hne hd hr
    rcases hbad with ⟨c, hc, hno⟩ | hlong
    · rw [hdecimal c hc] at hno
      cases hno
    · omega

theorem not_long_of_readOrFault (hne : digits ≠ []) (hd : ∀ c ∈ digits, Text.isDigit c = true)
    (h : Numeral.readOrFault (signed negative digits) = .ok n) : ¬ Numeral.Long n := by
  obtain ⟨hdecimal, hl⟩ := decimal_of_readOrFault hne hd h
  rw [readOrFault_signed hne hdecimal hl] at h
  have habs : n.natAbs = Numeral.positional (Numeral.places digits) := by
    rw [← Except.ok.inj h, signedValue]
    cases negative <;> simp
  have hlt := Numeral.positional_lt fun d => Numeral.places_lt (t := digits) (d := d)
  have hle : 10 ^ (Numeral.places digits).length ≤ 10 ^ digitLimit :=
    Nat.pow_le_pow_right (by decide) (by rw [length_places hdecimal]; exact hl)
  rw [Numeral.long_iff, habs]
  omega

end

/-- Why an evaluation faults. -/
inductive Cause (ctx : Context) (t : Text) : Fault → Prop
  | numeral {token : Text} {f : Fault} (hu : Unreadable token) (hi : token <:+: t)
      (hf : Numeral.readOrFault token = .error f) : Cause ctx t f
  | option {name : Text} {n : Int} (ho : ctx.option name = some (.int n))
      (hl : Numeral.Long n) : Cause ctx t .integerTooLong

theorem Cause.mono {ctx : Context} {s t : Text} {f : Fault} (h : Cause ctx s f) (hs : s <:+: t) :
    Cause ctx t f := by
  cases h with
  | numeral hu hi hf => exact .numeral hu (hi.trans hs) hf
  | option ho hl => exact .option ho hl

/-- A value that can be written, or else one that an option has. -/
def Grounded (ctx : Context) (v : Value) : Prop :=
  (∃ t, v.toText = .ok t) ∨ ∃ name, ctx.option name = some v

/-- What reading a text comes to: a grounded value and a rest of the text, an
error, or a fault with a cause. -/
inductive Settled (ctx : Context) (t : Text) : Outcome (Value × Text) → Prop
  | value {v : Value} {rest : Text} (hv : Grounded ctx v) (hr : rest <:+ t) :
      Settled ctx t (.ok (v, rest))
  | error (e : ExpressionError) : Settled ctx t (.error (.error e))
  | fault {f : Fault} (hc : Cause ctx t f) : Settled ctx t (.error (.fault f))

def Orderly (ctx : Context) (read : Text → Outcome (Value × Text)) : Prop :=
  ∀ t, Settled ctx t (read t)

section
variable {ctx : Context} {s t rest token : Text} {v : Value} {f : Fault}
variable {read inner : Text → Outcome (Value × Text)}

theorem Settled.mono {r : Outcome (Value × Text)} (h : Settled ctx s r) (hs : s <:+ t) :
    Settled ctx t r := by
  cases h with
  | value hv hr => exact .value hv (hr.trans hs)
  | error e => exact .error e
  | fault hc => exact .fault (hc.mono hs.isInfix)

theorem Orderly.value (h : Orderly ctx read) (hr : read t = .ok (v, rest)) :
    Grounded ctx v ∧ rest <:+ t := by
  have hsettled := h t
  rw [hr] at hsettled
  cases hsettled with
  | value hv hrest => exact ⟨hv, hrest⟩

theorem Orderly.fault (h : Orderly ctx read) (hr : read t = .error (.fault f)) :
    Cause ctx t f := by
  have hsettled := h t
  rw [hr] at hsettled
  cases hsettled with
  | fault hc => exact hc

theorem grounded_text (ctx : Context) (t : Text) : Grounded ctx (.text t) := .inl ⟨t, rfl⟩

theorem cause_of_toText (hv : Grounded ctx v) (h : v.toText = .error f) (t : Text) :
    Cause ctx t f := by
  obtain ⟨rfl, n, rfl, hl⟩ := Value.toText_eq_error_iff.mp h
  rcases hv with ⟨s, hs⟩ | ⟨name, ho⟩
  · rw [hs] at h
    cases h
  · exact .option ho hl

theorem trimStart_suffix (t : Text) : Text.trimStart t <:+ t := List.dropWhile_suffix _

theorem settled_numeral (h : numeral? t = some (token, rest)) :
    Settled ctx t (match Numeral.readOrFault token with
      | .ok n => .ok (.int n, rest)
      | .error f => .error (.fault f)) := by
  obtain ⟨negative, digits, rfl, hne, hd, rfl, -⟩ := numeral?_sound h
  cases hread : Numeral.readOrFault (signed negative digits) with
  | ok n =>
    have hshort := not_long_of_readOrFault hne hd hread
    have hwritten : (Value.int n).toText = .ok (Text.ofInt n) :=
      Numeral.write_eq_ok_iff.mpr ⟨Nat.le_of_not_lt hshort, rfl⟩
    exact .value (.inl ⟨_, hwritten⟩) (List.suffix_append _ _)
  | error f =>
    have hu := unreadable_of_fault hne hd hread
    exact .fault (.numeral hu (List.prefix_append _ _).isInfix hread)

theorem term_orderly (hi : Orderly ctx inner) : Orderly ctx (term ctx inner) := by
  intro t
  unfold term
  split
  · split
    · rename_i s content r hq
      obtain ⟨hs, -⟩ := singleQuoted_sound hq
      exact .value (grounded_text ctx content)
        ⟨'\'' :: (doubled content ++ ['\'']), by simp [hs]⟩
    · exact .error _
  · split
    · rename_i s content r hq
      obtain ⟨written, -, hs⟩ := doubleQuoted_sound hq
      exact .value (grounded_text ctx content) ⟨'"' :: (written ++ ['"']), by simp [hs]⟩
    · exact .error _
  · split
    · rename_i s name r hn
      exact .value (grounded_text ctx _) ⟨'$' :: name, by simp [(Alphabet.name?_eq_some hn).2]⟩
    · exact .error _
  · split
    · rename_i s name r hn
      split
      · rename_i u hu
        exact .value (.inr ⟨name, hu⟩) ⟨'&' :: name, by simp [(Alphabet.name?_eq_some hn).2]⟩
      · exact .error _
    · exact .error _
  · rename_i s
    have hs : s <:+ '(' :: s := List.suffix_cons '(' s
    split
    · rename_i u r hu
      obtain ⟨hg, hr⟩ := hi.value hu
      split
      · rename_i rest hclose
        have hrest : rest <:+ r := (List.suffix_cons ')' rest).trans (hclose ▸ trimStart_suffix r)
        exact .value hg ((hrest.trans hr).trans hs)
      · exact .error _
    · split <;> exact .error _
    · rename_i x hx
      exact .fault ((hi.fault hx).mono hs.isInfix)
  · split
    · rename_i token r hn
      exact settled_numeral hn
    · exact .error _

theorem chain_orderly (hread : Orderly ctx read) (fuel : Nat) (hv : Grounded ctx v) :
    Orderly ctx (chain read fuel v) := by
  induction fuel generalizing v with
  | zero => exact fun t => .error _
  | succ fuel ih =>
    intro t
    simp only [chain]
    split
    · rename_i s hs
      exact .value hv (hs ▸ trimStart_suffix t)
    · rename_i s _ hs
      have hst : Text.trimStart s <:+ t :=
        ((trimStart_suffix s).trans (List.suffix_cons '.' s)).trans (hs ▸ trimStart_suffix t)
      split
      · rename_i x hx
        exact .fault (cause_of_toText hv hx t)
      · split
        · rename_i x hx
          have hsettled := hread (Text.trimStart s)
          rw [hx] at hsettled
          exact hsettled.mono hst
        · rename_i u r hu
          obtain ⟨hg, hr⟩ := hread.value hu
          split
          · rename_i x hx
            exact .fault (cause_of_toText hg hx t)
          · exact (ih (grounded_text ctx _) r).mono (hr.trans hst)
    · exact .value hv (trimStart_suffix t)

theorem expression_orderly (ctx : Context) (depth : Nat) : Orderly ctx (expression ctx depth) := by
  induction depth with
  | zero => exact fun t => .error _
  | succ depth ih =>
    have hterm := term_orderly ih
    intro t
    have hsettled := hterm t.trimStart
    simp only [expression]
    split
    · rename_i x hx
      rw [hx] at hsettled
      exact hsettled.mono (trimStart_suffix t)
    · rename_i u r hu
      obtain ⟨hg, hr⟩ := hterm.value hu
      exact (chain_orderly hterm _ hg r).mono (hr.trans (trimStart_suffix t))

theorem evaluate_orderly (ctx : Context) : Orderly ctx (evaluate ctx) := by
  intro t
  exact expression_orderly ctx (t.length + 1) t

theorem evaluate_unreadable (ctx : Context) {token : Text} (h : Unreadable token) :
    ∃ f, Numeral.readOrFault token = .error f ∧ evaluate ctx token = .error (.fault f) := by
  obtain ⟨f, hf⟩ := fault_of_unreadable h
  obtain ⟨negative, digits, rfl, hne, hd, -⟩ := h
  have hnumeral : numeral? (signed negative digits) = some (signed negative digits, []) := by
    simpa only [List.append_nil] using numeral?_complete hne hd (free_nil _)
  refine ⟨f, hf, ?_⟩
  rw [evaluate_eq, trimStart_lead (lead_signed hne hd), term_of_numeral hnumeral, hf]

end

end Expression

end LetShell
