import LetShell.Proofs.Engine.Agreement
import LetShell.Proofs.Shell.CommandLine
import LetShell.Proofs.Shell.Options

/-!
# One change in two commands

An option can be changed by an option word and by an assignment of a quoted
text. The first is taken apart as it stands, the second is read, evaluated and
judged by a table of operators. Both come to the same change of the options,
and both report an error or none does.
-/

set_option autoImplicit false

namespace LetShell
open Expression

namespace Shell

def wordLine (name : Text) (how : Change) (v : Text) : Text :=
  Command.set.word ++ ' ' :: (name ++ (how.mark ++ v))

def assignmentLine (name : Text) (op : Operator) (v : Text) : Text :=
  Command.assign.word ++ ' ' :: ('&' :: (name ++ ' ' :: (op.spelling ++ ' ' :: quote v)))

def Reports (answer : Except Fault Text) : Prop := ∃ message, answer = .ok (errorLine message)

section
variable {s : Shell} {name v args : Text} {how : Change} {g : Definition}

theorem command_line (c : Command) (hstart : Free Text.isBlank args)
    (hend : Free Text.isBlank args.reverse) :
    command? (c.word ++ ' ' :: args) = some c ∧ arguments (c.word ++ ' ' :: args) = args := by
  have hargs := arguments_line c blank_nil (b := ' ') rfl args
  rw [trim_of_free hstart hend] at hargs
  exact ⟨command?_line c blank_nil rfl args, hargs⟩

theorem words_of_solid (hne : args ≠ []) (h : ∀ c ∈ args, Text.isBlank c = false) :
    Text.words args = [args] := by
  cases args with
  | nil => exact absurd rfl hne
  | cons c t =>
    have hsolid : ∀ x ∈ c :: t, Text.isSolid x = true := by
      intro x hx
      simp [Text.isSolid, h x hx]
    have htake := takeWhile_run hsolid (free_nil _)
    have hdrop := dropWhile_run hsolid (free_nil _)
    rw [List.append_nil] at htake hdrop
    rw [Text.words_of_not_blank (h c (List.mem_cons_self ..)), htake, hdrop]
    rfl

theorem not_blank_of_accepts (ha : Alphabet.option.Accepts name) :
    ∀ c ∈ name, Text.isBlank c = false :=
  solid_of_accepts (fun _ => option_other_of_first) (fun _ h => (blank_continues_nothing h).2.2.2) ha

theorem unlines_single (t : Text) : Text.unlines [t] = t := by
  rw [Text.unlines, Text.joined, List.intercalate_singleton]

def answerOf {ε : Type} (message : ε → Text) : Except (Failure ε) Unit → Except Fault Text
  | .ok _ => .ok []
  | .error (.error x) => .ok (errorLine (message x))
  | .error (.fault f) => .error f

theorem execute_wordLine (ha : Alphabet.option.Accepts name)
    (hg : s.engine.options.lookup .global name = some g) (how : Change)
    (hv : ∀ c ∈ v, Text.isBlank c = false) :
    let r := s.engine.options.changeAll how (fun _ => v) (s.engine.options.definitions name)
    (s.execute (wordLine name how v)).1.engine.options = r.1 ∧
      (s.execute (wordLine name how v)).2 = answerOf OptionError.message r.2 := by
  intro r
  have hsolid : ∀ c ∈ name ++ (how.mark ++ v), Text.isBlank c = false := by
    simp only [List.mem_append]
    rintro c (hc | hc | hc)
    · exact not_blank_of_accepts ha c hc
    · exact Text.not_blank_of_all (by cases how <;> decide) c hc
    · exact hv c hc
  have hne : name ++ (how.mark ++ v) ≠ [] := by cases how <;> simp [Change.mark]
  have hback : ∀ c ∈ (name ++ (how.mark ++ v)).reverse, Text.isBlank c = false :=
    fun c hc => hsolid c (List.mem_reverse.mp hc)
  obtain ⟨hcommand, hargs⟩ := command_line .set (free_of_forall hsolid) (free_of_forall hback)
  rw [wordLine, execute_command hcommand, hargs]
  simp only [run, set, if_neg hne, words_of_solid hne hsolid, OptionStore.applyWords,
    OptionStore.applyWord_change (change?_mark ha how v) hg]
  cases hr : s.engine.options.changeAll how (fun _ => v) (s.engine.options.definitions name) with
  | mk options answer =>
    rw [show r = (options, answer) from hr]
    cases answer with
    | ok _ => exact ⟨rfl, rfl⟩
    | error x =>
      cases x with
      | fault f => exact ⟨rfl, rfl⟩
      | error x =>
        exact ⟨rfl, congrArg Except.ok (unlines_single (errorLine x.message))⟩

theorem execute_assignmentLine (ha : Alphabet.option.Accepts name)
    (hl : (name.length : Int) ≤ s.engine.nameMax) (op : Operator) (v : Text) :
    let r := if s.engine.options.permits ⟨.anyOption, name⟩ op
      then s.engine.execute ⟨.anyOption, name⟩ op v else (s.engine, .error (.error .operatorType))
    (s.execute (assignmentLine name op v)).1.engine = r.1 ∧
      (s.execute (assignmentLine name op v)).2 = report (fun _ => .ok []) r.2 := by
  intro r
  have hne : '&' :: (name ++ ' ' :: (op.spelling ++ ' ' :: quote v)) ≠ [] := List.cons_ne_nil _ _
  have hback : Free Text.isBlank ('&' :: (name ++ ' ' :: (op.spelling ++ ' ' :: quote v))).reverse := by
    simp only [quote, List.reverse_cons, List.reverse_append, List.append_assoc]
    exact free_cons (by decide) _
  obtain ⟨hcommand, hargs⟩ := command_line .assign (free_cons (by decide) _) hback
  have hassign : s.engine.assign ('&' :: (name ++ ' ' :: (op.spelling ++ ' ' :: quote v))) = r := by
    have hplan := Engine.plan_quote (e := s.engine) ha hl op v
    simp only [r]
    split <;> rename_i hp <;> simp only [hp, if_true, Bool.false_eq_true, if_false] at hplan
    · exact Engine.assign_of_plan_ok hplan
    · exact Engine.assign_of_plan_error hplan
  rw [assignmentLine, execute_command hcommand, hargs]
  simp only [run, assign, if_neg hne, hassign]
  exact ⟨trivial, trivial⟩

theorem lines_agree (ht : s.engine.options.Twinned) (hy : s.engine.options.Typed)
    (hg : s.engine.options.lookup .global name = some g) (hb : g.type ≠ .bool)
    (ha : Alphabet.option.Accepts name) (hl : (name.length : Int) ≤ s.engine.nameMax)
    (hv : ∀ c ∈ v, Text.isBlank c = false) (how : Change) :
    let byWord := s.execute (wordLine name how v)
    let byAssignment := s.execute (assignmentLine name (g.type.operator how) v)
    byWord.1.engine.options = byAssignment.1.engine.options ∧
      (g.fits how v = true ∧ byWord.2 = .ok [] ∧ byAssignment.2 = .ok [] ∨
        g.fits how v = false ∧ Reports byWord.2 ∧ Reports byAssignment.2 ∧
          byWord.1.engine.options = s.engine.options) := by
  intro byWord byAssignment
  obtain ⟨hword, hwordAnswer⟩ := execute_wordLine ha hg how hv
  obtain ⟨hassign, hassignAnswer⟩ := execute_assignmentLine ha hl (g.type.operator how) v
  have hpermits : s.engine.options.permits ⟨.anyOption, name⟩ (g.type.operator how) =
      g.type.kind.permits (g.type.operator how) := by
    simp only [OptionStore.permits, hg]
  have hsettled := OptionStore.changeDefinitions_settled ht hy hg how v
  rw [hpermits] at hassign hassignAnswer
  cases hp : g.type.kind.permits (g.type.operator how) with
  | false =>
    have hunfit := not_fits_of_operator hb hp v
    rw [hp, if_neg Bool.false_ne_true] at hassign hassignAnswer
    rcases hsettled with ⟨hfit, -⟩ | ⟨-, x, hx⟩
    · rw [hunfit] at hfit
      cases hfit
    · rw [hx] at hword hwordAnswer
      refine ⟨?_, .inr ⟨hunfit, ⟨_, hwordAnswer⟩, ⟨_, hassignAnswer⟩, hword⟩⟩
      rw [hword, hassign]
  | true =>
    obtain ⟨hrun, hrunAnswer⟩ := Engine.execute_anyOption ht hg (g.type.operator how) v
    rw [change_operator] at hrun hrunAnswer
    rw [hp, if_pos rfl] at hassign hassignAnswer
    rw [hrunAnswer] at hassignAnswer
    refine ⟨by rw [hword, hassign, hrun], ?_⟩
    rcases hsettled with ⟨hfit, hx⟩ | ⟨hunfit, x, hx⟩
    · rw [hx] at hwordAnswer hassignAnswer
      exact .inl ⟨hfit, hwordAnswer, hassignAnswer⟩
    · rw [hx] at hword hwordAnswer hassignAnswer
      exact .inr ⟨hunfit, ⟨_, hwordAnswer⟩, ⟨_, hassignAnswer⟩, hword⟩

/-- From a store that was built by declarations with values of the right form,
after any statements and words, and after any lines of a shell then: to change
an option that is not boolean by a word, or by assigning the quoted text with
the operator for its type, comes to the same in both scopes. Either both lines
answer nothing, or both report an error and nothing changes. -/
theorem change_lines_agree {ds : List Declaration} {e : Engine}
    (hs : OptionStore.ofDeclarations ds = .ok e.options) (hd : ∀ d ∈ ds, d.Typed)
    (as : List Action) (has : ∀ d, .define d ∈ as → d.Typed) (history lines : List Text)
    (hg : ((Shell.mk (e.acts as) history).after lines).engine.options.lookup .global name = some g)
    (hb : g.type ≠ .bool) (ha : Alphabet.option.Accepts name)
    (hl : (name.length : Int) ≤ ((Shell.mk (e.acts as) history).after lines).engine.nameMax)
    (hv : ∀ c ∈ v, Text.isBlank c = false) (how : Change) :
    let s := (Shell.mk (e.acts as) history).after lines
    let byWord := s.execute (wordLine name how v)
    let byAssignment := s.execute (assignmentLine name (g.type.operator how) v)
    byWord.1.engine.options = byAssignment.1.engine.options ∧
      (g.fits how v = true ∧ byWord.2 = .ok [] ∧ byAssignment.2 = .ok [] ∨
        g.fits how v = false ∧ Reports byWord.2 ∧ Reports byAssignment.2 ∧
          byWord.1.engine.options = s.engine.options) := by
  have htwins := OptionStore.twinned_ofDeclarations hs
  have htyped := OptionStore.typed_ofDeclarations hd hs
  refine lines_agree ?_ ?_ hg hb ha hl hv how
  · rw [session_engine]
    exact Engine.twinned_acts htwins _
  · rw [session_engine]
    exact Engine.typed_acts htwins htyped fun d hm => has d (define_mem_session hm)

theorem change_lines_agree_sample :
    OptionStore.ofDeclarations OptionStore.standardDeclarations = .ok (Engine.sample []).options ∧
      (∀ d ∈ OptionStore.standardDeclarations, d.Typed) ∧
      ((Shell.mk ((Engine.sample []).acts [.start, .words ["title=a".toList]]) []).after
        ["let &l:title .= 'b'".toList]).engine.options.lookup .global "title".toList =
          some ⟨"title".toList, .string, .text ['a'], .global, []⟩ ∧
      Alphabet.option.Accepts "title".toList ∧
      (∀ c ∈ "='it's".toList, Text.isBlank c = false) ∧
      let s := (Shell.mk ((Engine.sample []).acts [.start, .words ["title=a".toList]]) []).after
        ["let &l:title .= 'b'".toList]
      (s.execute "set title+=='it's".toList).1.engine.options =
        (s.execute "let &title .= '=''it''s'".toList).1.engine.options := by
  have hs : OptionStore.ofDeclarations OptionStore.standardDeclarations =
    .ok (Engine.sample []).options := rfl
  have hg : ((Shell.mk ((Engine.sample []).acts [.start, .words ["title=a".toList]]) []).after
      ["let &l:title .= 'b'".toList]).engine.options.lookup .global "title".toList =
        some ⟨"title".toList, .string, .text ['a'], .global, []⟩ := by
    decide +kernel
  have ha : Alphabet.option.Accepts "title".toList := ⟨rfl, List.all_eq_true.mp (by decide)⟩
  have hv : ∀ c ∈ "='it's".toList, Text.isBlank c = false :=
    Text.not_blank_of_all (by decide)
  refine ⟨hs, OptionStore.typed_standard, hg, ha, hv, ?_⟩
  exact (change_lines_agree hs OptionStore.typed_standard _ (by simp) _ _ hg (by decide) ha
    (by decide +kernel) hv .add).1

end

end Shell

end LetShell
