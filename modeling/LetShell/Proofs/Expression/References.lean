import Mathlib.Data.List.Infix
import LetShell.Proofs.Expression.Faults

/-!
# What an evaluation reads

An evaluation reads one term after the other, first inside a group and then
behind it, and stops at the first failure. It asks its context for the names
that the terms on this way begin with, and for nothing else. Contexts that agree
on these names give the same result. Every one of them stands in the text after
its sigil, but not every name that does is asked for.
-/

set_option autoImplicit false

namespace LetShell.Expression

/-- The evaluation of a text comes to a term, and so far nothing has failed. -/
inductive Visits (ctx : Context) : Text → Text → Prop
  | first (t : Text) : Visits ctx t t.trimStart
  | next {t u rest s left : Text} {v : Value} (h : Visits ctx t u)
      (hu : term ctx (evaluate ctx) u = .ok (v, rest)) (hv : v.toText = .ok left)
      (hdot : rest.trimStart = '.' :: s) (hne : ∀ r, s ≠ '=' :: r) : Visits ctx t (Text.trimStart s)
  | inside {t s u : Text} (h : Visits ctx t ('(' :: s)) (hu : Visits ctx s u) : Visits ctx t u

inductive Reference where
  | variable (name : Text)
  | option (name : Text)
  deriving DecidableEq, Repr

inductive Asks (ctx : Context) (t : Text) : Reference → Prop
  | variable {s name rest : Text} (h : Visits ctx t ('$' :: s))
      (hn : Alphabet.environment.name? s = some (name, rest)) : Asks ctx t (.variable name)
  | option {s name rest : Text} (h : Visits ctx t ('&' :: s))
      (hn : Alphabet.option.name? s = some (name, rest)) : Asks ctx t (.option name)

/-- Two contexts give the same for every name that is read in the first. -/
structure Agree (ctx ctx' : Context) (t : Text) : Prop where
  env : ∀ name, Asks ctx t (.variable name) → ctx.env name = ctx'.env name
  option : ∀ name, Asks ctx t (.option name) → ctx.option name = ctx'.option name

section
variable {ctx ctx' : Context} {t u s rest : Text}

theorem Agree.inside (h : Agree ctx ctx' t) (hs : Visits ctx t ('(' :: s)) : Agree ctx ctx' s := by
  constructor
  · intro name hr
    cases hr with
    | «variable» hv hn => exact h.env name (.variable (.inside hs hv) hn)
  · intro name hr
    cases hr with
    | option hv hn => exact h.option name (.option (.inside hs hv) hn)

theorem term_agrees (h : Agree ctx ctx' t) (hu : Visits ctx t u)
    (hin : ∀ s, s.length < u.length → Agree ctx ctx' s → evaluate ctx s = evaluate ctx' s) :
    term ctx (evaluate ctx) u = term ctx' (evaluate ctx') u := by
  unfold term
  split
  · rfl
  · rfl
  · rename_i s
    cases hn : Alphabet.environment.name? s with
    | none => rfl
    | some p =>
      simp only
      rw [h.env p.1 (.variable hu hn)]
  · rename_i s
    cases hn : Alphabet.option.name? s with
    | none => rfl
    | some p =>
      simp only
      rw [h.option p.1 (.option hu hn)]
  · rename_i s
    rw [hin s (by simp) (h.inside hu)]
  · rfl

theorem resume_agrees {n : Nat} (h : Agree ctx ctx' t)
    (hin : ∀ s, s.length < n → Agree ctx ctx' s → evaluate ctx s = evaluate ctx' s) (v : Value)
    (hle : rest.length ≤ n)
    (hnext : ∀ left s, v.toText = .ok left → rest.trimStart = '.' :: s → (∀ r, s ≠ '=' :: r) →
      Visits ctx t (Text.trimStart s)) :
    resume ctx v rest = resume ctx' v rest := by
  -- The induction is on the text that is left.
  induction hm : rest.length using Nat.strongRecOn generalizing rest v with
  | ind m ih =>
    subst hm
    by_cases hu : Undotted rest.trimStart
    · rw [resume_undotted v hu, resume_undotted v hu]
    · obtain ⟨s, hs, hne⟩ := dot_of_not_undotted hu
      rw [← resume_trimStart ctx, ← resume_trimStart ctx', hs, resume_dot v hne, resume_dot v hne]
      cases hv : v.toText with
      | error f => rfl
      | ok left =>
        have hvisit := hnext left s hv hs hne
        have hlt : (Text.trimStart s).length < rest.length := by
          have hrest := Text.length_trimStart_le rest
          have hs' := Text.length_trimStart_le s
          rw [hs, List.length_cons] at hrest
          omega
        have hterm := term_agrees h hvisit fun x hx => hin x (by omega)
        simp only [← hterm]
        cases hw : term ctx (evaluate ctx) (Text.trimStart s) with
        | error x => rfl
        | ok p =>
          obtain ⟨w, r⟩ := p
          have hadvance := term_advances ctx (evaluate_advances ctx) _ _ _ hw
          cases hright : w.toText with
          | error f => simp only [hright]
          | ok right =>
            simp only [hright]
            exact ih r.length (by omega) _ (by omega)
              (fun _ _ _ hdot hne' => .next hvisit hw hright hdot hne') rfl

/-- An evaluation depends on nothing but what it reads. -/
theorem evaluate_agrees (h : Agree ctx ctx' t) : evaluate ctx t = evaluate ctx' t := by
  induction hn : t.length using Nat.strongRecOn generalizing t with
  | ind n ih =>
    subst hn
    have hle := Text.length_trimStart_le t
    have hin : ∀ s, s.length < t.length → Agree ctx ctx' s → evaluate ctx s = evaluate ctx' s :=
      fun s hs ha => ih s.length hs ha rfl
    have hterm := term_agrees h (.first t) fun s hs => hin s (by omega)
    rw [evaluate_eq ctx, evaluate_eq ctx', ← hterm]
    cases hw : term ctx (evaluate ctx) t.trimStart with
    | error x => rfl
    | ok p =>
      obtain ⟨v, rest⟩ := p
      have hadvance := term_advances ctx (evaluate_advances ctx) _ _ _ hw
      exact resume_agrees h hin v (by omega) fun _ _ hv hdot hne => .next (.first t) hw hv hdot hne

end

def mentioned (sigil : Char) (a : Alphabet) (t : Text) : List Text :=
  t.tails.filterMap fun
    | [] => none
    | c :: s => if c = sigil then (a.name? s).map Prod.fst else none

section
variable {ctx : Context} {t u s name rest : Text}

theorem visits_suffix (h : Visits ctx t u) : u <:+ t := by
  induction h with
  | first t => exact trimStart_suffix t
  | next h hu hv hdot hne ih =>
    obtain ⟨-, hrest⟩ := (term_orderly (evaluate_orderly ctx)).value hu
    have hs := (List.suffix_cons '.' _).trans (hdot ▸ trimStart_suffix _)
    exact (((trimStart_suffix _).trans hs).trans hrest).trans ih
  | inside h hu ih ihu => exact (ihu.trans (List.suffix_cons '(' _)).trans ih

theorem mem_mentioned {sigil : Char} {a : Alphabet} (h : Visits ctx t (sigil :: s))
    (hn : a.name? s = some (name, rest)) : name ∈ mentioned sigil a t := by
  refine List.mem_filterMap.mpr ⟨sigil :: s, (List.mem_tails _ _).mpr (visits_suffix h), ?_⟩
  simp only [if_true, hn, Option.map_some]

theorem asks_variable (h : Asks ctx t (.variable name)) :
    name ∈ mentioned '$' .environment t := by
  cases h with
  | «variable» h hn => exact mem_mentioned h hn

theorem asks_option (h : Asks ctx t (.option name)) : name ∈ mentioned '&' .option t := by
  cases h with
  | option h hn => exact mem_mentioned h hn

end

end LetShell.Expression
