import LetShell.Proofs.Engine.Acceptance
import LetShell.Proofs.Expression.Extension

/-!
# Appending as assignment

To append a value is to assign what the target reads now, joined with the value
in parentheses. For a variable this holds whether it has a record, none, or one
that is removed. For a text option it holds as long as the option has a text or
an integer; a truth value is written as a word when it is appended to, and read
as 0 or 1 when it is referred to.
-/

set_option autoImplicit false

namespace LetShell
open Expression

def Value.join (w v : Value) : Except Fault Text :=
  match w.toText, v.toText with
  | .error f, _ => .error f
  | _, .error f => .error f
  | .ok left, .ok right => .ok (left ++ right)

def Target.statement (target : Target) (op : Operator) (x : Text) : Text :=
  target.spelling ++ [' '] ++ op.spelling ++ ' ' :: x

def joinedTo (reference x : Text) : Text := reference ++ " . (".toList ++ (x ++ [')'])

theorem assigns_statement (target : Target) (h : target.kind.alphabet.Accepts target.name)
    (op : Operator) (x : Text) : Assigns (target.statement op x) target op (' ' :: x) :=
  ⟨h, [], [' '], blank_nil, blank_cons rfl blank_nil, rfl⟩

section
variable {ctx : Context} {name x : Text} {v w : Value}

theorem term_variable (h : Alphabet.environment.Accepts name) (rest : Text) :
    term ctx (evaluate ctx) ('$' :: name ++ ' ' :: rest) =
      .ok (.text (ctx.env name), ' ' :: rest) := by
  have hfree : Free Alphabet.environment.other (' ' :: rest) := free_cons (by decide) rest
  simp only [List.cons_append, term, name?_complete h hfree]

theorem term_option (h : Alphabet.option.Accepts name) (ho : ctx.option name = some w)
    (rest : Text) :
    term ctx (evaluate ctx) ('&' :: name ++ ' ' :: rest) = .ok (w, ' ' :: rest) := by
  have hfree : Free Alphabet.option.other (' ' :: rest) := free_cons (by decide) rest
  simp only [List.cons_append, term, name?_complete h hfree, ho]

theorem evaluate_joined (reference : Text) (hlead : Free Text.isBlank reference)
    (hne : reference ≠ [])
    (hterm : ∀ rest, term ctx (evaluate ctx) (reference ++ ' ' :: rest) = .ok (w, ' ' :: rest))
    (hx : evaluate ctx x = .ok (v, [])) :
    evaluate ctx (' ' :: joinedTo reference x) =
      match w.join v with
      | .error f => .error (.fault f)
      | .ok s => .ok (.text s, []) := by
  have hgroup : term ctx (evaluate ctx) ('(' :: (x ++ [')'])) = .ok (v, []) := by
    simp only [term, evaluate_extends ctx x v [] [] hx]
    rfl
  have hstart : Text.trimStart (' ' :: joinedTo reference x) = joinedTo reference x := by
    have hfree : Free Text.isBlank (joinedTo reference x) := by
      cases reference with
      | nil => exact absurd rfl hne
      | cons c reference => exact free_cons (hlead c rfl) _
    exact (trimStart_blank (blank_cons rfl blank_nil) _).trans (trimStart_eq_self_iff.mpr hfree)
  have hsplit : joinedTo reference x = reference ++ ' ' :: '.' :: ' ' :: '(' :: (x ++ [')']) := by
    simp [joinedTo]
  have hdot : Text.trimStart (' ' :: '.' :: ' ' :: '(' :: (x ++ [')'])) =
      '.' :: ' ' :: '(' :: (x ++ [')']) := rfl
  have hopen : Text.trimStart (' ' :: '(' :: (x ++ [')'])) = '(' :: (x ++ [')']) := rfl
  rw [evaluate_eq, hstart, hsplit, hterm]
  simp only
  rw [← resume_trimStart, hdot, resume_dot w (by simp), hopen, hgroup, Value.join]
  cases w.toText with
  | error f => rfl
  | ok left =>
    cases hv : v.toText with
    | error f => simp only [hv]
    | ok right => simp only [hv, resume_nil]

end

namespace Engine

/-- Two outcomes that differ in the log at most. -/
structure Coincide (o o' : Outcome Unit) : Prop where
  answer : o.2 = o'.2
  registry : o.1.registry = o'.1.registry
  table : o.1.table = o'.1.table
  options : o.1.options = o'.1.options

section
variable {e : Engine} {x : Text} {v : Value} {d : Definition}

theorem coincide_refl (o : Outcome Unit) : Coincide o o := ⟨rfl, rfl, rfl, rfl⟩

theorem coincide_store (e : Engine) (r : Record) (value message message' : Text) :
    Coincide (e.store r value message) (e.store r value message') := by
  unfold store
  simp only
  split <;> exact ⟨rfl, rfl, rfl, rfl⟩

theorem coincide_appendVariable (e : Engine) (name value : Text) :
    Coincide (e.appendVariable name value) (e.setVariable name (e.read name ++ value)) := by
  unfold appendVariable
  cases hf : e.registry.find? name with
  | none =>
    have hread : e.read name = [] := by simp [read, Registry.read, hf]
    rw [hread]
    exact coincide_refl _
  | some r =>
    cases hr : r.removed with
    | true =>
      have hread : e.read name = [] := by simp [read, Registry.read, hf, hr]
      simp only [hr, if_true, hread]
      exact coincide_refl _
    | false =>
      have hread : e.read name = r.value := by simp [read, Registry.read, hf, hr]
      have hset : e.setVariable name (r.value ++ value) =
          e.store r (r.value ++ value) ("set $".toList ++ name) := by
        simp only [setVariable, obtain, hf]
      simp only [hr, Bool.false_eq_true, if_false, hread, hset]
      exact coincide_store ..

theorem coincide_changeOption {op op' : Operator} {value value' : Text}
    (h : d.changed op.change value = d.changed op'.change value') :
    Coincide (e.changeOption d op value) (e.changeOption d op' value') := by
  unfold changeOption OptionStore.change
  rw [h]
  cases d.changed op'.change value' <;> exact ⟨rfl, rfl, rfl, rfl⟩

theorem assign_of_value {t y : Text} {target : Target} {op : Operator}
    (h : Assigns t target op y) (hl : (target.name.length : Int) ≤ e.nameMax)
    (hp : e.options.permits target op = true)
    (hy : LetShell.evaluate e.context y = .ok (v, [])) :
    e.assign t =
      match v.toText with
      | .error f => (e, .error (.fault f))
      | .ok s => e.execute target op s := by
  have hplan := plan_of_assigns h hl
  rw [hy] at hplan
  simp only [ne_eq, not_true_eq_false, if_false, hp, if_true] at hplan
  cases ht : v.toText with
  | error f =>
    rw [ht] at hplan
    exact assign_of_plan_error hplan
  | ok s =>
    rw [ht] at hplan
    exact assign_of_plan_ok hplan

theorem assign_of_fault {t y : Text} {target : Target} {op : Operator} {f : Fault}
    (h : Assigns t target op y) (hl : (target.name.length : Int) ≤ e.nameMax)
    (hy : LetShell.evaluate e.context y = .error (.fault f)) :
    e.assign t = (e, .error (.fault f)) := by
  have hplan := plan_of_assigns h hl
  rw [hy] at hplan
  exact assign_of_plan_error hplan

theorem assign_joined (target : Target) {reference : Text} {w : Value}
    (ha : target.kind.alphabet.Accepts target.name) (hl : (target.name.length : Int) ≤ e.nameMax)
    (hp : e.options.permits target .assign = true)
    (hjoined : LetShell.evaluate e.context (' ' :: joinedTo reference x) =
      match w.join v with
      | .error f => .error (.fault f)
      | .ok s => .ok (.text s, [])) :
    e.assign (target.statement .assign (joinedTo reference x)) =
      match w.join v with
      | .error f => (e, .error (.fault f))
      | .ok s => e.execute target .assign s := by
  have hform := assigns_statement target ha .assign (joinedTo reference x)
  cases hs : w.join v with
  | error f =>
    rw [hs] at hjoined
    exact assign_of_fault hform hl hjoined
  | ok s =>
    rw [hs] at hjoined
    exact assign_of_value hform hl hp hjoined

theorem assign_append (target : Target) (ha : target.kind.alphabet.Accepts target.name)
    (hl : (target.name.length : Int) ≤ e.nameMax) (hp : e.options.permits target .append = true)
    (hx : LetShell.evaluate e.context x = .ok (v, [])) :
    e.assign (target.statement .append x) =
      match v.toText with
      | .error f => (e, .error (.fault f))
      | .ok s => e.execute target .append s :=
  assign_of_value (assigns_statement target ha .append x) hl hp
    ((evaluate_blank (blank_cons rfl blank_nil)).trans hx)

theorem reading_of_value {name : Text} (hd : e.options.lookup .global name = some d)
    (hb : ∀ b, d.value ≠ .bool b) (hn : d.value ≠ .none) :
    ∃ w, e.context.option name = some w ∧ w.toText = d.value.toText := by
  have hread : e.context.option name = d.value.toValue? := by
    simp [context, Context.ofReaders, readOption, hd]
  rw [hread]
  cases hv : d.value with
  | none => exact absurd hv hn
  | bool b => exact absurd hv (hb b)
  | int n => exact ⟨.int n, rfl, rfl⟩
  | text t => exact ⟨.text t, rfl, rfl⟩

end

/-- An expression that is read to its end may be appended, or joined with what
the target reads and assigned. The answer is the same, and so are the records,
the table and the options. For a text option this takes a text or an integer as
its value. -/
theorem append_is_self_assign (e : Engine) {x : Text} {v : Value}
    (hx : LetShell.evaluate e.context x = .ok (v, [])) :
    (∀ name, Alphabet.environment.Accepts name → (name.length : Int) ≤ e.nameMax →
      Coincide (e.assign (Target.statement ⟨.environment, name⟩ .append x))
        (e.assign (Target.statement ⟨.environment, name⟩ .assign (joinedTo ('$' :: name) x)))) ∧
    (∀ name d, Alphabet.option.Accepts name → (name.length : Int) ≤ e.nameMax →
      e.options.lookup .global name = some d → d.type = .string → (∀ b, d.value ≠ .bool b) →
      d.value ≠ .none →
      Coincide (e.assign (Target.statement ⟨.globalOption, name⟩ .append x))
        (e.assign
          (Target.statement ⟨.globalOption, name⟩ .assign (joinedTo ('&' :: name) x)))) := by
  constructor
  · intro name ha hl
    have hjoined := evaluate_joined ('$' :: name) (free_cons rfl name)
      (List.cons_ne_nil _ _) (term_variable ha) hx
    rw [assign_append ⟨.environment, name⟩ ha hl rfl hx,
      assign_joined (v := v) ⟨.environment, name⟩ ha hl rfl hjoined]
    have hjoin : (Value.text (e.read name)).join v = v.toText.map (e.read name ++ ·) := by
      rw [Value.join]
      cases v.toText <;> rfl
    change Coincide _ (match (Value.text (e.read name)).join v with
      | .error f => (e, .error (.fault f))
      | .ok s => e.execute ⟨.environment, name⟩ .assign s)
    rw [hjoin]
    cases v.toText with
    | error f => exact coincide_refl _
    | ok s => exact coincide_appendVariable e name s
  · intro name d ha hl hd ht hb hn
    obtain ⟨w, hw, htext⟩ := reading_of_value hd hb hn
    have hjoined := evaluate_joined ('&' :: name) (free_cons rfl name)
      (List.cons_ne_nil _ _) (term_option ha hw) hx
    have hp : ∀ op, op = .assign ∨ op = .append →
        e.options.permits ⟨.globalOption, name⟩ op = true := by
      intro op hop
      simp only [OptionStore.permits, hd, ht, OptionType.kind, OptionKind.permits]
      simpa using hop
    rw [assign_append ⟨.globalOption, name⟩ ha hl (hp .append (.inr rfl)) hx,
      assign_joined ⟨.globalOption, name⟩ ha hl (hp .assign (.inl rfl)) hjoined, Value.join, htext]
    cases hs : v.toText with
    | error f =>
      cases ho : d.value.toText with
      | error f' =>
        obtain ⟨rfl, -⟩ := Value.toText_eq_error_iff.mp hs
        obtain ⟨rfl, -⟩ := OptionValue.toText_eq_error_iff.mp ho
        exact coincide_refl _
      | ok old => exact coincide_refl _
    | ok s =>
      simp only [execute, applyOption, hd]
      cases ho : d.value.toText with
      | error f =>
        have hadd : d.changed .add s = .error (.fault f) := by
          simp only [Definition.changed, Definition.add, ht, ho]
          rfl
        simp only [changeOption, OptionStore.change, Operator.change, hadd]
        exact coincide_refl _
      | ok old =>
        apply coincide_changeOption
        simp only [Operator.change, Definition.changed, Definition.add, Definition.set, ht, ho]
        rfl

theorem append_is_self_assign_sample :
    let e := ofParts ⟨.ofMemory, [("HOME".toList, "/root".toList)]⟩
      ⟨[⟨"o".toList, .string, .int 7, .global, []⟩], []⟩ false 4 []
    let e := e.start
    let x := " 'a' . -3".toList
    LetShell.evaluate e.context x = .ok (.text "a-3".toList, []) ∧
    (e.assign (Target.statement ⟨.environment, "home".toList⟩ .append x)).1.read "Home".toList =
      "/roota-3".toList ∧
    Coincide (e.assign (Target.statement ⟨.environment, "home".toList⟩ .append x))
      (e.assign "$home = $home . ( 'a' . -3)".toList) ∧
    Coincide (e.assign (Target.statement ⟨.globalOption, ['o']⟩ .append x))
      (e.assign "&g:o = &o . ( 'a' . -3)".toList) := by
  intro e₀ e x
  have hx : LetShell.evaluate e.context x = .ok (.text "a-3".toList, []) := rfl
  obtain ⟨hvariable, hoption⟩ := append_is_self_assign e hx
  have hhome : Alphabet.environment.Accepts "home".toList :=
    ⟨rfl, List.all_eq_true.mp (by decide)⟩
  have ho : Alphabet.option.Accepts ['o'] := ⟨rfl, List.all_eq_true.mp (by decide)⟩
  refine ⟨hx, by decide +kernel, hvariable "home".toList hhome (by decide), ?_⟩
  exact hoption ['o'] ⟨['o'], .string, .int 7, .global, []⟩ ho (by decide) rfl rfl (by decide)
    (by decide)

def mistyped : OptionStore := ⟨[⟨['o'], .string, .bool true, .global, []⟩], []⟩

/-- Appending writes the truth value as a word, a reference reads it as 1. -/
theorem append_to_truth_value :
    OptionStore.ofDeclarations [⟨['o'], .string, .bool true, [], false⟩] = .ok mistyped ∧
    let e := ofParts ⟨.ofMemory, []⟩ mistyped true 64 []
    let appended := e.assign (Target.statement ⟨.globalOption, ['o']⟩ .append "'x'".toList)
    let assigned := e.assign
      (Target.statement ⟨.globalOption, ['o']⟩ .assign (joinedTo "&o".toList "'x'".toList))
    LetShell.evaluate e.context "'x'".toList = .ok (.text ['x'], []) ∧
    appended.1.readOption ['o'] = some (.text "Truex".toList) ∧
    assigned.1.readOption ['o'] = some (.text "1x".toList) ∧
    appended.1.options ≠ assigned.1.options := by
  refine ⟨rfl, rfl, ?_, ?_, ?_⟩ <;> decide +kernel

end Engine

end LetShell
