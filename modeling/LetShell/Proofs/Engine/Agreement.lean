import LetShell.Options.Word
import LetShell.Proofs.Engine.Acceptance
import LetShell.Proofs.Engine.Atomic
import LetShell.Proofs.Expression.Equations
import LetShell.Proofs.Options.Typed

/-!
# Words and assignments

A change of an option can be asked for by an option word and by an assignment
without a scope. Both carry it out for the same definitions: the local one, if
there is one, and then the global one. Twins agree on a text, so the global
definition alone settles whether it is accepted. The table of operators rejects
only what no text could make fit.
-/

set_option autoImplicit false

namespace LetShell
open Expression

def Change.mark : Change → Text
  | .set => ['=']
  | .add => ['+', '=']
  | .remove => ['-', '=']

def OptionType.operator (type : OptionType) : Change → Operator
  | .set => .assign
  | .add => if type = .string then .append else .add
  | .remove => .subtract

namespace Expression

def quote (v : Text) : Text := '\'' :: (doubled v ++ ['\''])

theorem evaluate_quote (ctx : Context) (v : Text) :
    LetShell.evaluate ctx (quote v) = .ok (.text v, []) := by
  apply evaluate_of_term
  · exact Text.trimStart_of_not_blank (by decide)
  · simp only [quote, term, singleQuoted_complete v (free_nil _)]

end Expression

section
variable {type : OptionType} {how : Change} {name v : Text}

theorem change_operator (type : OptionType) (how : Change) : (type.operator how).change = how := by
  cases how with
  | set => rfl
  | add =>
    rw [OptionType.operator]
    split <;> rfl
  | remove => rfl

/-- The table rejects one change only, which no text of such an option fits. -/
theorem permits_operator (h : type ≠ .bool) :
    type.kind.permits (type.operator how) = false ↔ type = .string ∧ how = .remove := by
  cases type <;> cases how <;> first | exact absurd rfl h | decide

theorem not_fits_of_operator {g : Definition} (h : g.type ≠ .bool)
    (hp : g.type.kind.permits (g.type.operator how) = false) (v : Text) :
    g.fits how v = false := by
  obtain ⟨htype, rfl⟩ := (permits_operator h).mp hp
  simp only [Definition.fits, htype]

theorem change?_mark (ha : Alphabet.option.Accepts name) (how : Change) (v : Text) :
    OptionWord.change? (name ++ (how.mark ++ v)) = some (name, how, v) := by
  have hfree : Free Alphabet.option.other (how.mark ++ v) := by
    cases how <;> exact free_cons (by decide) _
  rw [OptionWord.change?, name?_complete ha hfree]
  cases how <;> rfl

end

namespace OptionStore

section
variable {s : OptionStore} {name t : Text} {g : Definition} {how : Change}

theorem changeAll_settled {fit : Bool} {ds : List Definition} (hy : ∀ d ∈ ds, d.Typed)
    (hf : ∀ d ∈ ds, d.fits how t = fit) (hne : ds ≠ []) :
    (fit = true ∧ (s.changeAll how (fun _ => t) ds).2 = .ok ()) ∨
      (fit = false ∧ ∃ x, s.changeAll how (fun _ => t) ds = (s, .error (.error x))) := by
  induction ds generalizing s with
  | nil => exact absurd rfl hne
  | cons d ds ih =>
    obtain ⟨hd, hyds⟩ := List.forall_mem_cons.mp hy
    obtain ⟨hfit, hfds⟩ := List.forall_mem_cons.mp hf
    rcases Definition.changed_judged d t how with ⟨f, hc⟩ | ⟨hok, w, hc⟩ | ⟨hno, x, hc⟩
    · exact absurd hc (Definition.changed_ne_fault hd how t)
    · have hfit : fit = true := hfit.symm.trans hok
      refine .inl ⟨hfit, ?_⟩
      simp only [changeAll, change, hc]
      cases ds with
      | nil => rfl
      | cons d' ds =>
        rcases ih hyds hfds (List.cons_ne_nil d' ds) with ⟨-, hrest⟩ | ⟨hno, -⟩
        · exact hrest
        · rw [hfit] at hno
          cases hno
    · refine .inr ⟨hfit.symm.trans hno, x, ?_⟩
      simp only [changeAll, change, hc]

theorem changeAll_ok {s' : OptionStore} {text : Definition → Text} {d : Definition}
    (h : s.change d how (text d) = (s', .ok ())) (ds : List Definition) :
    s.changeAll how text (d :: ds) = s'.changeAll how text ds := by
  simp only [changeAll, h]

theorem changeAll_error {s' : OptionStore} {text : Definition → Text} {d : Definition}
    {x : Failure OptionError} (h : s.change d how (text d) = (s', .error x))
    (ds : List Definition) : s.changeAll how text (d :: ds) = (s', .error x) := by
  simp only [changeAll, h]

theorem changeAll_single (how : Change) (text : Definition → Text) (d : Definition) :
    s.changeAll how text [d] = s.change d how (text d) := by
  simp only [changeAll]
  split <;> rename_i hc <;> exact hc.symm

theorem changeDefinitions_settled (ht : s.Twinned) (hy : s.Typed)
    (hg : s.lookup .global name = some g) (how : Change) (t : Text) :
    (g.fits how t = true ∧ (s.changeAll how (fun _ => t) (s.definitions name)).2 = .ok ()) ∨
      (g.fits how t = false ∧
        ∃ x, s.changeAll how (fun _ => t) (s.definitions name) = (s, .error (.error x))) := by
  have hglobal : g ∈ s.definitions name := List.mem_append.mpr (.inr (by simp [hg]))
  refine changeAll_settled (fun _ hd => typed_definitions hy hd) ?_ (List.ne_nil_of_mem hglobal)
  intro d hd
  rcases List.mem_append.mp hd with hd | hd
  · obtain ⟨g', hg', htype, hvalues⟩ := ht.twin name d (Option.mem_toList.mp hd)
    rw [hg] at hg'
    cases hg'
    exact (Definition.fits_congr htype hvalues how t).symm
  · rw [hg, Option.toList_some, List.mem_singleton] at hd
    rw [hd]

theorem applyWord_change {word : Text} (hw : OptionWord.change? word = some (name, how, t))
    (hg : s.lookup .global name = some g) :
    s.applyWord word = ((s.changeAll how (fun _ => t) (s.definitions name)).1,
      (s.changeAll how (fun _ => t) (s.definitions name)).2.map fun _ => []) := by
  have hne : s.definitions name ≠ [] := by simp [definitions, hg]
  simp only [applyWord, hw]

end

end OptionStore

namespace Engine

section
variable {e : Engine} {name : Text} {g : Definition}

theorem result_changeOption (e : Engine) (d : Definition) (op : Operator) (v : Text) :
    (e.changeOption d op v).2 =
      (e.options.change d op.change v).2.mapError (Failure.map .option) := by
  unfold changeOption
  split <;> rename_i hc <;> rw [hc] <;> rfl

theorem execute_anyOption (ht : e.options.Twinned) (hg : e.options.lookup .global name = some g)
    (op : Operator) (v : Text) :
    let r := e.options.changeAll op.change (fun _ => v) (e.options.definitions name)
    (e.execute ⟨.anyOption, name⟩ op v).1.options = r.1 ∧
      (e.execute ⟨.anyOption, name⟩ op v).2 = r.2.mapError (Failure.map .option) := by
  have hglobal : ∀ {e : Engine}, e.options.lookup .global name = some g →
      e.applyOption .global name op v true = e.changeOption g op v := by
    intro e hg
    simp only [applyOption, hg]
  simp only [execute, OptionStore.definitions, hg, Option.toList_some]
  cases hl : e.options.lookup .local name with
  | none =>
    simp only [applyOption, hl, hg, Bool.false_eq_true, if_false, Option.toList_none,
      List.nil_append, OptionStore.changeAll_single]
    exact ⟨options_changeOption e g op v, result_changeOption e g op v⟩
  | some d =>
    have hlocal : e.applyOption .local name op v false = e.changeOption d op v := by
      simp only [applyOption, hl]
    have hscope : Scope.global ≠ d.scope := by
      rw [ht.scope .local name d hl]
      decide
    have hother := OptionStore.lookup_change_other e.options hscope op.change v name
    have hoptions := options_changeOption e d op v
    have hresult := result_changeOption e d op v
    rw [hlocal, Option.toList_some, List.singleton_append]
    cases hrun : e.changeOption d op v with
    | mk e' answer' =>
      cases hc : e.options.change d op.change v with
      | mk s answer =>
        rw [hrun, hc] at hoptions hresult
        rw [hc, hg] at hother
        cases answer with
        | error f =>
          cases hresult
          rw [OptionStore.changeAll_error hc]
          exact ⟨hoptions, rfl⟩
        | ok _ =>
          cases hresult
          have hs : e'.options = s := hoptions
          subst hs
          rw [OptionStore.changeAll_ok hc, OptionStore.changeAll_single]
          simp only [hglobal hother]
          exact ⟨options_changeOption e' g op v, result_changeOption e' g op v⟩

theorem plan_quote (ha : Alphabet.option.Accepts name) (hl : (name.length : Int) ≤ e.nameMax)
    (op : Operator) (v : Text) :
    e.plan ('&' :: (name ++ ' ' :: (op.spelling ++ ' ' :: quote v))) =
      if e.options.permits ⟨.anyOption, name⟩ op then .ok ⟨⟨.anyOption, name⟩, op, v⟩
      else .error (.error .operatorType) := by
  have hform : Assigns ('&' :: (name ++ ' ' :: (op.spelling ++ ' ' :: quote v)))
      ⟨.anyOption, name⟩ op (' ' :: quote v) := by
    refine ⟨ha, [], [' '], nofun, List.forall_mem_singleton.mpr (by decide), ?_⟩
    simp [Target.spelling, Kind.sigil]
  obtain ⟨rest, ht, ho⟩ := reads_of_assigns hform hl
  have hvalue : LetShell.evaluate e.context (' ' :: quote v) = .ok (.text v, []) := by
    rw [← evaluate_trimStart, Text.trimStart_of_blank (by decide), evaluate_trimStart]
    exact evaluate_quote e.context v
  simp only [plan, ht, ho, hvalue]
  rfl

end

end Engine

end LetShell
