import LetShell.Proofs.Engine.Startup
import LetShell.Proofs.Expression.Respelling
import LetShell.Proofs.Registry.Respelling
import LetShell.Proofs.Statement.Respelling

/-!
# Runs with respelled names

An engine that does not look at case treats all spellings of a variable alike.
Two runs of statements that are respellings of each other stay in step: they
meet the same errors, and their registries differ, slot by slot, in the case of
names at most. The tables may well differ, since each is written under the name
that a record was made with.
-/

set_option autoImplicit false

namespace LetShell
open Text Scan Expression

/-- The class of an error, and its kind where the class has kinds. -/
inductive ErrorSort where
  | parse (kind : ParseErrorKind)
  | expression (kind : ExpressionErrorKind)
  | operatorType
  | unknownOption
  | allocation
  | notFound
  | option
  deriving DecidableEq, Repr

def VariableError.sort : VariableError → ErrorSort
  | .parse e => .parse e.kind
  | .expression e => .expression e.kind
  | .operatorType => .operatorType
  | .unknownOption _ _ => .unknownOption
  | .allocation => .allocation
  | .notFound _ => .notFound
  | .option _ => .option

/-- Statements that differ in the case of letters at most, assignments only in names
after `$` outside of quoted texts. -/
inductive Statement.Respelled : Statement → Statement → Prop
  | assign {s t : Text} (h : Scan.plain.Alike s t) : Respelled (.assign s) (.assign t)
  | remove {s t : Text} (h : Caseless s t) : Respelled (.remove s) (.remove t)

namespace Engine

def verdict (e : Engine) : Statement → List (Failure ErrorSort)
  | .assign t =>
    match (e.assign t).2 with
    | .ok () => []
    | .error f => [f.map (·.sort)]
  | .remove t =>
    ((e.remove t).2.errors.map (·.sort) ++
      (e.remove t).2.fatal.toList.map (ErrorSort.parse ·.kind)).map .error

/-- Engines that differ in their log, their table and the case of names. -/
structure Like (e d : Engine) : Prop where
  registry : e.registry.Like d.registry
  options : d.options = e.options
  nameMax : d.nameMax = e.nameMax
  kind : d.table.kind = e.table.kind

def SameOutcome {α : Type} (x y : Engine × α) : Prop := x.1.Like y.1 ∧ y.2 = x.2

section
variable {e d : Engine} {n m s t : Text}

theorem objection_like {t u : Table} (hk : u.kind = t.kind) (hn : Caseless n m) (v : Text) :
    u.objection m v = t.objection n v := by
  have hnil : n = [] ↔ m = [] := by
    rw [← List.length_eq_zero_iff, ← List.length_eq_zero_iff, caseless_length hn]
  unfold Table.objection
  simp only [hk, mem_iff_of_caseless (c := '\x00') (by decide) hn,
    mem_iff_of_caseless (c := '=') (by decide) hn, hnil]

theorem set_like {t u : Table} (hk : u.kind = t.kind) (hn : Caseless n m) (v : Text) :
    Paired Eq (fun t' u' : Table => u'.kind = t'.kind) (t.set n v) (u.set m v) := by
  unfold Table.set
  rw [objection_like hk hn]
  cases t.objection n v with
  | some f => exact .error rfl
  | none => exact .ok hk

theorem like_note (h : e.Like d) (l k : Level) (source text source' text' : Text) :
    (e.note l source text).Like (d.note k source' text') :=
  ⟨h.registry, h.options, h.nameMax, h.kind⟩

theorem like_obtain (h : e.Like d) (hn : Caseless n m) :
    (e.obtain n).1.Like (d.obtain m).1 ∧
      ∃ r s, (e.obtain n).2 = some r ∧ (d.obtain m).2 = some s ∧ r.Like s := by
  have hfind := Registry.like_find? h.registry hn
  have hgo : e.registry.refuses n = false ∧ d.registry.refuses m = false := by
    simp [Registry.refuses, h.registry.willing]
  unfold obtain
  generalize e.registry.find? n = x at hfind
  generalize d.registry.find? m = y at hfind
  cases hfind with
  | some hrs => exact ⟨h, _, _, rfl, rfl, hrs⟩
  | none =>
    simp only [hgo.1, hgo.2, Bool.false_eq_true, if_false]
    exact ⟨⟨Registry.like_add h.registry hn, h.options, h.nameMax, h.kind⟩, _, _, rfl, rfl,
      h.registry.next, hn, rfl, rfl, rfl, rfl⟩

theorem like_discard (h : e.Like d) (serial : Nat) : (e.discard serial).Like (d.discard serial) := by
  have hrecord := Registry.like_record? h.registry serial
  have hlive := Registry.like_isLive h.registry serial
  unfold discard
  generalize e.registry.record? serial = x at hrecord
  generalize d.registry.record? serial = y at hrecord
  cases hrecord with
  | none => exact h
  | some hrs =>
    simp only [hrs.inherited, ← hlive]
    split
    · have hmark := Registry.like_modify h.registry serial (f := Record.tombstoned)
        fun r s hrs => ⟨hrs.serial, hrs.name, hrs.value, hrs.initial, hrs.inherited, rfl⟩
      exact ⟨hmark, h.options, h.nameMax, h.kind⟩
    · split
      · exact ⟨Registry.like_erase h.registry serial, h.options, h.nameMax, h.kind⟩
      · exact h

theorem like_store (h : e.Like d) {r s : Record} (hrs : r.Like s) (v text text' : Text) :
    SameOutcome (e.store r v text) (d.store s v text') := by
  have hwritten := Registry.like_modify h.registry r.serial (f := Record.holding v)
    fun r s hrs => ⟨hrs.serial, hrs.name, rfl, hrs.initial, hrs.inherited, rfl⟩
  have hset := set_like h.kind hrs.name v
  unfold store
  rw [hrs.serial]
  simp only
  generalize e.table.set r.name v = x at hset
  generalize d.table.set s.name v = y at hset
  cases hset with
  | error he =>
    cases he
    exact ⟨⟨hwritten, h.options, h.nameMax, h.kind⟩, rfl⟩
  | ok hk => exact ⟨⟨hwritten, h.options, h.nameMax, hk⟩, rfl⟩

theorem like_setVariable (h : e.Like d) (hn : Caseless n m) (v : Text) :
    SameOutcome (e.setVariable n v) (d.setVariable m v) := by
  obtain ⟨hl, r, s, hr, hs, hrs⟩ := like_obtain h hn
  unfold setVariable
  generalize e.obtain n = x at hl hr
  generalize d.obtain m = y at hl hs
  obtain ⟨e', a⟩ := x
  obtain ⟨d', b⟩ := y
  cases hr
  cases hs
  exact like_store hl hrs v _ _

theorem like_appendVariable (h : e.Like d) (hn : Caseless n m) (v : Text) :
    SameOutcome (e.appendVariable n v) (d.appendVariable m v) := by
  have hfind := Registry.like_find? h.registry hn
  unfold appendVariable
  generalize e.registry.find? n = x at hfind
  generalize d.registry.find? m = y at hfind
  cases hfind with
  | none => exact like_setVariable h hn v
  | some hrs =>
    simp only [hrs.removed, hrs.value]
    split
    · exact like_setVariable h hn v
    · exact like_store h hrs _ _ _

theorem like_applyOption (h : e.Like d) (scope : Scope) (name : Text) (op : Operator) (v : Text)
    (required : Bool) :
    SameOutcome (e.applyOption scope name op v required)
      (d.applyOption scope name op v required) := by
  unfold applyOption changeOption
  rw [h.options]
  split
  · split
    · exact ⟨⟨h.registry, rfl, h.nameMax, h.kind⟩, rfl⟩
    · exact ⟨⟨h.registry, rfl, h.nameMax, h.kind⟩, rfl⟩
  · split
    · exact ⟨h, rfl⟩
    · exact ⟨h, rfl⟩

theorem like_execute (h : e.Like d) {a b : Target} (hab : a.Like b) (op : Operator) (v : Text) :
    SameOutcome (e.execute a op v) (d.execute b op v) := by
  unfold execute
  rw [hab.kind]
  cases hk : a.kind with
  | environment =>
    simp only
    split
    · exact like_appendVariable h hab.name v
    · exact like_setVariable h hab.name v
  | localOption =>
    rw [hab.option (by simp [hk])]
    exact like_applyOption h _ _ op v true
  | globalOption =>
    rw [hab.option (by simp [hk])]
    exact like_applyOption h _ _ op v true
  | anyOption =>
    have hlocal := like_applyOption h .local a.name op v false
    rw [hab.option (by simp [hk])]
    simp only
    generalize e.applyOption .local a.name op v false = x at hlocal
    generalize d.applyOption .local a.name op v false = y at hlocal
    obtain ⟨e', r⟩ := x
    obtain ⟨d', r'⟩ := y
    obtain ⟨hl, hr⟩ := hlocal
    cases hr
    cases r with
    | ok u => exact like_applyOption hl _ _ op v true
    | error f => exact ⟨hl, rfl⟩

theorem context_blind (h : e.Like d) : e.context.Blind d.context where
  env := fun _ _ hn => Registry.like_read h.registry hn
  option := by
    simp only [context, Context.ofReaders, readOption, h.options]

/-- Errors of one sort, or one fault. -/
abbrev SameSort (f f' : Failure VariableError) : Prop := f.map (·.sort) = f'.map (·.sort)

structure SamePlan (a b : Assignment) : Prop where
  target : a.target.Like b.target
  operator : b.operator = a.operator
  text : b.text = a.text

theorem permits_like (o : OptionStore) {a b : Target} (hab : a.Like b) (op : Operator) :
    o.permits b op = o.permits a op := by
  unfold OptionStore.permits
  rw [hab.kind]
  split
  · rfl
  · rename_i hk
    rw [hab.option hk]

theorem sameSort_parse {x y : ParseError} (h : SameKind x y) :
    SameSort (.error (.parse x)) (.error (.parse y)) :=
  congrArg (Failure.error <| ErrorSort.parse ·) h

theorem sameSort_expression {f f' : Failure ExpressionError} (h : SameFailure f f') :
    SameSort (f.map .expression) (f'.map .expression) := by
  rcases sameFailure_cases h with ⟨x, x', rfl, rfl, hk⟩ | ⟨y, rfl, rfl⟩
  · exact congrArg (Failure.error <| ErrorSort.expression ·) hk
  · rfl

theorem plan_alike (h : e.Like d) (hst : Scan.plain.Alike s t) :
    Paired SameSort SamePlan (e.plan s) (d.plan t) := by
  have htarget := Target.read_alike e.nameMax (alike_trimStart hst)
  unfold plan
  rw [h.nameMax, h.options]
  generalize Target.read e.nameMax s.trimStart = x at htarget
  generalize Target.read e.nameMax t.trimStart = y at htarget
  cases htarget with
  | error hk => exact .error (sameSort_parse hk)
  | @ok p q hpq =>
    obtain ⟨hlike, hrest⟩ := hpq
    have hop := Operator.read_after_name_alike hrest
    simp only
    generalize Operator.read p.2.trimStart = x at hop
    generalize Operator.read q.2.trimStart = y at hop
    cases hop with
    | error hk => exact .error (sameSort_parse hk)
    | @ok p' q' hpq =>
      obtain ⟨hop, hrest⟩ := hpq
      have hvalue := evaluate_mirrors (context_blind h) _ _ hrest
      simp only [← hop, permits_like e.options hlike]
      generalize LetShell.evaluate e.context p'.2 = x at hvalue
      generalize LetShell.evaluate d.context q'.2 = y at hvalue
      cases hvalue with
      | error hf => exact .error (sameSort_expression hf)
      | @ok v w hvw =>
        obtain ⟨hv, hrest⟩ := hvw
        -- The rests differ in spelling, but only their length is looked at.
        have hnil : v.2 = [] ↔ w.2 = [] := by
          rw [← List.length_eq_zero_iff, ← List.length_eq_zero_iff, alike_length hrest]
        simp only [← hv, ne_eq, ← hnil]
        split
        · exact .error rfl
        · split
          · cases v.1.toText with
            | error f => exact .error rfl
            | ok text => exact .ok ⟨hlike, rfl, rfl⟩
          · exact .error rfl

theorem assign_alike (h : e.Like d) (hst : Scan.plain.Alike s t) :
    (e.assign s).1.Like (d.assign t).1 ∧ e.verdict (.assign s) = d.verdict (.assign t) := by
  have hplan := plan_alike h hst
  simp only [verdict, assign]
  generalize e.plan s = x at hplan
  generalize d.plan t = y at hplan
  cases hplan with
  | error hf => exact ⟨h, congrArg ([·]) hf⟩
  | @ok a b hab =>
    obtain ⟨hl, hr⟩ := like_execute h hab.target a.operator a.text
    simp only [hab.operator, hab.text, hr]
    exact ⟨hl, trivial⟩

abbrev SameRemoval : Except VariableError Text → Except VariableError Text → Prop :=
  Paired (fun x y => x.sort = y.sort) Caseless

theorem like_removeName (h : e.Like d) (hn : Caseless n m) :
    (e.removeName n).1.Like (d.removeName m).1 ∧
      SameRemoval (e.removeName n).2 (d.removeName m).2 := by
  have hfind := Registry.like_find? h.registry hn
  unfold removeName
  generalize e.registry.find? n = x at hfind
  generalize d.registry.find? m = y at hfind
  cases hfind with
  | none => exact ⟨h, .error rfl⟩
  | @some r s hrs =>
    simp only [hrs.removed, hrs.serial]
    split
    · exact ⟨h, .error rfl⟩
    · have hdiscard := like_discard h r.serial
      exact ⟨⟨hdiscard.registry, hdiscard.options, hdiscard.nameMax, hdiscard.kind⟩, .ok hrs.name⟩

theorem like_removeTokens {xs ys : List (Except ParseError Text)}
    (hxy : List.Forall₂ Removal.SameToken xs ys) (h : e.Like d) :
    (e.removeTokens xs).1.Like (d.removeTokens ys).1 ∧
      (e.removeTokens xs).2.errors.map (·.sort) = (d.removeTokens ys).2.errors.map (·.sort) := by
  induction hxy generalizing e d with
  | nil => exact ⟨h, rfl⟩
  | cons htoken _ ih =>
    cases htoken with
    | error hk =>
      obtain ⟨hl, hs⟩ := ih h
      exact ⟨hl, congrArg₂ List.cons (congrArg ErrorSort.parse hk) hs⟩
    | @ok n m hn =>
      obtain ⟨hl, hr⟩ := like_removeName h hn
      simp only [removeTokens]
      generalize e.removeName n = x at hl hr
      generalize d.removeName m = y at hl hr
      obtain ⟨e', a⟩ := x
      obtain ⟨d', b⟩ := y
      obtain ⟨hl, hs⟩ := ih hl
      cases hr with
      | ok _ => exact ⟨hl, hs⟩
      | error hx => exact ⟨hl, congrArg₂ List.cons hx hs⟩

theorem remove_caseless (h : e.Like d) (hst : Caseless s t) :
    (e.remove s).1.Like (d.remove t).1 ∧ e.verdict (.remove s) = d.verdict (.remove t) := by
  obtain ⟨htokens, hfatal⟩ := Removal.read_caseless e.nameMax hst
  obtain ⟨hl, hs⟩ := like_removeTokens htokens h
  have hcount := congrArg List.length hs
  simp only [List.length_map] at hcount
  simp only [verdict, remove, Removed.ok, Removed.count, h.nameMax, hcount, hfatal]
  split
  · exact ⟨hl, by rw [hs]⟩
  · exact ⟨like_note hl _ _ _ _ _ _, by rw [hs]⟩

theorem perform_respelled (h : e.Like d) {x y : Statement} (hxy : x.Respelled y) :
    (e.perform x).Like (d.perform y) ∧ e.verdict x = d.verdict y := by
  cases hxy with
  | assign hst => exact assign_alike h hst
  | remove hst => exact remove_caseless h hst

theorem run_respelled {xs ys : List Statement} (hxy : List.Forall₂ Statement.Respelled xs ys)
    (h : e.Like d) : (e.run xs).Like (d.run ys) := by
  induction hxy generalizing e d with
  | nil => exact h
  | cons hxy _ ih => exact ih (perform_respelled h hxy).1

theorem like_refl (hb : e.registry.caseSensitive = false) (hr : e.registry.refused = []) :
    e.Like e :=
  ⟨Registry.like_refl hb hr, rfl, rfl, rfl⟩

theorem like_inherit (h : e.Like d) (entry : Text) :
    (e.inherit entry).1.Like (d.inherit entry).1 := by
  unfold inherit
  split
  · exact like_note h _ _ _ _ _ _
  · rename_i name value _
    simp only [h.nameMax]
    obtain ⟨hl, r, s, hr, hs, hrs⟩ := like_obtain h (caseless_refl (Text.upTo e.nameMax name))
    generalize e.obtain (Text.upTo e.nameMax name) = x at hl hr
    generalize d.obtain (Text.upTo e.nameMax name) = y at hl hs
    obtain ⟨e', a⟩ := x
    obtain ⟨d', b⟩ := y
    cases hr
    cases hs
    have hloaded := Registry.like_modify hl.registry r.serial (f := Record.loaded value)
      fun r s hrs => ⟨hrs.serial, hrs.name, rfl, rfl, rfl, hrs.removed⟩
    simp only [hrs.serial]
    exact ⟨hloaded, hl.options, hl.nameMax, hl.kind⟩

theorem like_inheritAll (h : e.Like d) (entries : List Text) :
    (e.inheritAll entries).1.Like (d.inheritAll entries).1 := by
  induction entries generalizing e d with
  | nil => exact h
  | cons entry entries ih => exact ih (like_inherit h entry)

theorem like_bootstrap (h : e.Like d) (entries : List Text) :
    (e.bootstrap entries).Like (d.bootstrap entries) :=
  like_note (like_inheritAll h entries) _ _ _ _ _ _

end

/-- Two runs of an engine that does not look at case and can make every record,
of statements that differ in the spelling of variable names: each next statement
meets the same errors in both runs, and the registries hold the same records in
the same slots, but for the case of their names. -/
theorem respelled_runs_agree {e : Engine} (hb : e.registry.caseSensitive = false)
    (hr : e.registry.refused = []) {xs ys : List Statement}
    (hxy : List.Forall₂ Statement.Respelled xs ys) :
    (∀ x y, Statement.Respelled x y →
      (e.start.run xs).verdict x = (e.start.run ys).verdict y) ∧
    List.Forall₂
      (Option.Rel fun r s => r.name.fold = s.name.fold ∧ r.value = s.value ∧
        r.initial = s.initial ∧ r.inherited = s.inherited ∧ r.removed = s.removed)
      (e.start.run xs).registry.slots (e.start.run ys).registry.slots ∧
    ∀ n, (e.start.run xs).read n = (e.start.run ys).read n := by
  -- Both runs leave from one engine, which is like itself as it does not look at case.
  have hstart : e.start.Like e.start := like_bootstrap (like_refl hb hr) _
  have hrun := run_respelled hxy hstart
  refine ⟨?_, ?_, ?_⟩
  · intro x y hxy
    exact (perform_respelled hrun hxy).2
  · apply hrun.registry.slots.imp
    intro a b hab
    cases hab with
    | none => exact .none
    | some hrs =>
      exact .some ⟨fold_of_caseless hrs.name, hrs.value.symm, hrs.initial.symm,
        hrs.inherited.symm, hrs.removed.symm⟩
  · intro n
    exact Registry.like_read hrun.registry (caseless_refl n)

theorem respelled_runs_agree_sample :
    let xs : List Statement := [.assign "$Tmp = $path . 'A'".toList, .remove "$LANG".toList,
      .assign "$Home .= $tmp".toList]
    let ys : List Statement := [.assign "$TMP = $Path . 'A'".toList, .remove "$lang".toList,
      .assign "$HOME .= $Tmp".toList]
    (sample []).registry.caseSensitive = false ∧ (sample []).registry.refused = [] ∧
      List.Forall₂ Statement.Respelled xs ys ∧
      (∀ n, ((sample []).start.run xs).read n = ((sample []).start.run ys).read n) ∧
      ((sample []).start.run xs).read "HOME".toList = "/root/binA".toList := by
  intro xs ys
  have hxy : List.Forall₂ Statement.Respelled xs ys :=
    .cons (.assign (by decide +kernel)) <| .cons (.remove (by decide +kernel)) <|
      .cons (.assign (by decide +kernel)) .nil
  obtain ⟨-, -, hread⟩ := respelled_runs_agree (e := sample []) rfl rfl hxy
  exact ⟨rfl, rfl, hxy, hread, by decide +kernel⟩

/-- The runs need not leave one table: a record keeps the name it was made with. -/
example :
    let table := fun t : Text => ((sample []).start.perform (.assign t)).table
    (table "$Tmp = 1".toList).get? "Tmp".toList = some ['1'] ∧
      (table "$TMP = 1".toList).get? "Tmp".toList = none := by
  decide +kernel

end Engine

end LetShell
