import LetShell.Engine.Statements
import LetShell.Proofs.Statement.Form

/-!
# Which assignments are carried out

An assignment is carried out if it has the form of one, its name is not too
long, what stands after the operator is an expression up to the last character,
its value can be written out, and the target takes the operator. Any other text
changes nothing. No text can be taken for two assignments.
-/

set_option autoImplicit false

namespace LetShell.Engine
open Expression

section
variable {e : Engine} {t s : Text} {target : Target} {op : Operator}

theorem plan_stages : e.plan t = .ok ⟨target, op, s⟩ ↔ ∃ rest x v,
    Target.read e.nameMax t.trimStart = .ok (target, rest) ∧
      Operator.read (Text.trimStart rest) = .ok (op, x) ∧
      LetShell.evaluate e.context x = .ok (v, []) ∧ e.options.permits target op = true ∧
      v.toText = .ok s := by
  constructor
  · intro h
    unfold plan at h
    split at h
    · cases h
    · rename_i ht
      split at h
      · cases h
      · rename_i ho
        split at h
        · cases h
        · rename_i v left hv
          split at h
          · cases h
          · rename_i hleft
            rw [ne_eq, Decidable.not_not] at hleft
            split at h
            · rename_i hp
              split at h
              · cases h
              · rename_i hs
                cases h
                exact ⟨_, _, v, ht, ho, hleft ▸ hv, hp, hs⟩
            · cases h
  · rintro ⟨rest, x, v, ht, ho, hv, hp, hs⟩
    simp only [plan, ht, ho, hv, hp, hs, ne_eq, not_true_eq_false, if_false, if_true]

theorem plan_of_assigns {x : Text} (h : Assigns t target op x)
    (hl : (target.name.length : Int) ≤ e.nameMax) :
    e.plan t =
      match LetShell.evaluate e.context x with
      | .error f => .error (f.map .expression)
      | .ok (v, rest) =>
        if rest ≠ [] then .error (.error (.parse .trailingValue))
        else if e.options.permits target op then
          match v.toText with
          | .error f => .error (.fault f)
          | .ok text => .ok ⟨target, op, text⟩
        else .error (.error .operatorType) := by
  obtain ⟨rest, ht, ho⟩ := reads_of_assigns h hl
  have hplan := plan.eq_def e t
  simp only [ht, ho] at hplan
  exact hplan

theorem plan_eq_ok_iff : e.plan t = .ok ⟨target, op, s⟩ ↔ ∃ x v,
    Assigns t target op x ∧ (target.name.length : Int) ≤ e.nameMax ∧
      LetShell.evaluate e.context x = .ok (v, []) ∧ v.toText = .ok s ∧
      e.options.permits target op = true := by
  rw [plan_stages]
  constructor
  · rintro ⟨rest, x, v, ht, ho, hv, hp, hs⟩
    obtain ⟨hform, hl⟩ := assigns_of_reads ht ho
    exact ⟨x, v, hform, hl, hv, hs, hp⟩
  · rintro ⟨x, v, hform, hl, hv, hs, hp⟩
    obtain ⟨rest, ht, ho⟩ := reads_of_assigns hform hl
    exact ⟨rest, x, v, ht, ho, hv, hp, hs⟩

theorem plan_sound {a : Assignment} (h : e.plan t = .ok a) :
    ∃ x, Assigns t a.target a.operator x ∧ (a.target.name.length : Int) ≤ e.nameMax := by
  obtain ⟨x, v, hform, hl, -⟩ := plan_eq_ok_iff.mp h
  exact ⟨x, hform, hl⟩

theorem plan_overlong {x : Text} (h : Assigns t target op x)
    (hl : e.nameMax < target.name.length) : ∃ f, e.plan t = .error f := by
  cases hp : e.plan t with
  | error f => exact ⟨f, rfl⟩
  | ok a =>
    obtain ⟨x', hform, hle⟩ := plan_sound hp
    obtain ⟨htarget, -⟩ := assigns_unique h hform
    rw [htarget] at hle
    omega

theorem kind_of_plan {a : Assignment} (h : e.plan t = .ok a) {before r : Text}
    (hb : Blank before) (ht : t = before ++ '&' :: r) : a.target.kind = (Target.scopeOf r).1 := by
  obtain ⟨rest, x, v, hread, -⟩ := plan_stages.mp h
  rw [ht, trimStart_blank hb, Text.trimStart_of_not_blank (by decide)] at hread
  exact Target.kind_of_read hread

end

/-- Which texts reach the execution of an assignment, and what of: exactly those
of the documented form, each in one way. A scope is never read as the name of an
option, and a name over the limit is refused. Every other text fails and leaves
the engine alone. -/
theorem assign_accepts_iff (e : Engine) (t : Text) :
    (∀ target op s, e.plan t = .ok ⟨target, op, s⟩ ↔ ∃ x v,
      Assigns t target op x ∧ 1 ≤ target.name.length ∧
        (target.name.length : Int) ≤ e.nameMax ∧
        LetShell.evaluate e.context x = .ok (v, []) ∧ v.toText = .ok s ∧
        e.options.permits target op = true) ∧
    (∀ a, e.plan t = .ok a → e.assign t = e.execute a.target a.operator a.text) ∧
    (∀ f, e.plan t = .error f → e.assign t = (e, .error f)) ∧
    (∀ target op x target' op' x', Assigns t target op x → Assigns t target' op' x' →
      target' = target ∧ op' = op ∧ x' = x) ∧
    (∀ target op x, Assigns t target op x → e.nameMax < target.name.length →
      ∃ f, e.plan t = .error f) ∧
    (∀ a before r, e.plan t = .ok a → Blank before →
      (t = before ++ Kind.globalOption.sigil ++ r → a.target.kind = .globalOption) ∧
      (t = before ++ Kind.localOption.sigil ++ r → a.target.kind = .localOption)) := by
  refine ⟨?_, fun a => assign_of_plan_ok, fun f => assign_of_plan_error, ?_, ?_, ?_⟩
  · intro target op s
    have hpos : ∀ x, Assigns t target op x → 1 ≤ target.name.length := by
      rintro x ⟨ha, -⟩
      cases hn : target.name with
      | nil => exact (hn ▸ ha).elim
      | cons c r => exact Nat.le_add_left 1 r.length
    rw [plan_eq_ok_iff]
    constructor
    · rintro ⟨x, v, hform, hrest⟩
      exact ⟨x, v, hform, hpos x hform, hrest⟩
    · rintro ⟨x, v, hform, -, hrest⟩
      exact ⟨x, v, hform, hrest⟩
  · intro target op x target' op' x' h h'
    exact assigns_unique h h'
  · intro target op x h hl
    exact plan_overlong h hl
  · intro a before r h hb
    constructor
    · intro ht
      exact kind_of_plan h hb (by rw [ht, List.append_assoc]; rfl)
    · intro ht
      exact kind_of_plan h hb (by rw [ht, List.append_assoc]; rfl)

end LetShell.Engine
