import LetShell.Proofs.Engine.Faults
import LetShell.Proofs.Engine.Filing
import LetShell.Proofs.Shell.Farewell

/-!
# Lines that fault

The shell makes a line of every error, but faults go through it. A line faults
for three reasons only: what it assigns or echoes holds a numeral that cannot be
read, it would show an option whose value cannot be written, or it asks for the
version and the limit on names cannot be written. The first can be typed at any
time, the second can be brought about by adding to an option, and the third is
up to the configuration. A fault leaves variables, table and log as they were.

An evaluation is given all the depth that the parentheses of its text take. To
run out of depth is a failure of the machine and not one of these faults.
-/

set_option autoImplicit false

namespace LetShell

namespace Config

theorem setOptions_cons_ok_iff {s s' : OptionStore} {name t : Text} {pairs : List (Text × Text)} :
    setOptions s ((name, t) :: pairs) = .ok s' ↔
      ∃ d v, s.lookup .global name = some d ∧ d.set t = .ok v ∧
        setOptions (s.assign .global name v) pairs = .ok s' := by
  rw [setOptions]
  constructor
  · intro h
    split at h
    · cases h
    · rename_i d hd
      split at h
      · cases h
      · rename_i v hv
        exact ⟨d, v, hd, hv, h⟩
  · rintro ⟨d, v, hd, hv, h⟩
    simp only [hd, hv]
    exact h

theorem steps_setOptions {s s' : OptionStore} (h : s.Twinned) {pairs : List (Text × Text)}
    (hs : setOptions s pairs = .ok s') : OptionStore.Steps s s' := by
  induction pairs generalizing s with
  | nil =>
    cases hs
    exact .refl
  | cons p pairs ih =>
    obtain ⟨d, v, hd, hv, hrest⟩ := setOptions_cons_ok_iff.mp hs
    have hchanged : d.changed .set p.2 = .ok v := by
      simp only [Definition.changed, hv, Definition.lift]
    have hstep := OptionStore.Step.change d (OptionStore.lookup_own h _ hd) .set p.2
    have heq : (s.change d .set p.2).1 = s.assign .global p.1 v := by
      rw [OptionStore.change, hchanged, h.scope _ _ _ hd, OptionStore.lookup_name hd]
    rw [heq] at hstep
    exact (ih (OptionStore.twinned_steps (.single hstep) h) hrest).head hstep

theorem steady_engine {c : Config} {table : Table} (h : table.kind = .ofMemory)
    {refused : List Text} {e : Engine} (he : c.engine table refused = .ok e) :
    e.Steady ∧ e.start.Steady := by
  have htwinned : OptionStore.standard.Twinned :=
    OptionStore.twinned_ofDeclarations OptionStore.standard_eq_ofDeclarations
  have hvalued : OptionStore.standard.Valued := OptionStore.valued_ofDeclarations
    OptionStore.canonical_standard OptionStore.standard_eq_ofDeclarations
  unfold engine at he
  split at he
  · cases he
  · split at he
    · cases he
    · rename_i options ho
      cases he
      have hsteps := steps_setOptions htwinned ho
      have ht := OptionStore.twinned_steps hsteps htwinned
      have hv := OptionStore.valued_steps hsteps hvalued
      let e := Engine.ofParts table options c.caseSensitive c.nameMax refused
      have hfiled : Engine.Filed e _ e.start := Engine.filed_bootstrap rfl e.table.entries
      have hoptions := Engine.options_bootstrap e e.table.entries
      exact ⟨⟨⟨Registry.sound_empty _ _, h⟩, ht, hv⟩,
        ⟨⟨hfiled.sound, hfiled.table ▸ h⟩, hoptions ▸ ht, hoptions ▸ hv⟩⟩

end Config

namespace Shell
open Expression

/-- Shells of configured engines over private tables, started or not, after any
lines. -/
inductive Session : Shell → Prop
  | new {c : Config} {table : Table} {refused : List Text} {e : Engine}
      (hm : table.kind = .ofMemory) (he : c.engine table refused = .ok e) : Session (ofEngine e)
  | started {c : Config} {table : Table} {refused : List Text} {e : Engine}
      (hm : table.kind = .ofMemory) (he : c.engine table refused = .ok e) :
      Session (ofEngine e.start)
  | line {s : Shell} (h : Session s) (line : Text) : Session (s.execute line).1

theorem steady_session {s : Shell} (h : s.Session) : s.engine.Steady := by
  induction h with
  | new hm he => exact (Config.steady_engine hm he).1
  | started hm he => exact (Config.steady_engine hm he).2
  | @line s _ line ih =>
    rw [execute_engine]
    exact Engine.steady_acts ih fun a => mem_actions

def command? (line : Text) : Option Command := Command.ofWord? (split line.trim).1

/-- Why a command faults on its arguments, given the engine that it leaves. -/
inductive Trouble (e : Engine) (args : Text) : Command → Fault → Prop
  | numeral {c : Command} {token : Text} {f : Fault} (hc : c = .assign ∨ c = .echo)
      (hu : Unreadable token) (hi : token <:+: args) (hf : Numeral.readOrFault token = .error f) :
      Trouble e args c f
  | option {c : Command} (hc : c = .assign ∨ c = .echo ∨ c = .set) (ho : e.options.Overlong) :
      Trouble e args c .integerTooLong
  | limit (hl : Numeral.Long e.nameMax) : Trouble e args .version .integerTooLong

section
variable {s : Shell} {args : Text} {f : Fault}

theorem trouble_of_cause {e : Engine} (h : Cause e.context args f) {c : Command}
    (hc : c = .assign ∨ c = .echo) : Trouble e args c f := by
  cases h with
  | numeral hu hi hf => exact .numeral hc hu hi hf
  | option ho hl => exact .option (hc.imp_right .inl) (Engine.overlong_of_option ho hl)

theorem report_fault {α : Type} {render : α → Except Fault Text}
    {r : Except (Failure VariableError) α} (h : report render r = .error f) :
    r = .error (.fault f) ∨ ∃ a, r = .ok a ∧ render a = .error f := by
  match r, h with
  | .ok a, h => exact .inr ⟨a, rfl, h⟩
  | .error (.fault x), h =>
    cases h
    exact .inl rfl

theorem map_unlines_eq_error_iff {r : Except Fault (List Text)} :
    r.map Text.unlines = .error f ↔ r = .error f := by
  cases r <;> simp [Except.map]

theorem assign_fault (h : s.engine.Steady) (hf : (s.assign args).2 = .error f) :
    (s.assign args).1 = s ∧ Trouble s.engine args .assign f := by
  unfold assign at hf ⊢
  split at hf
  · cases hf
  · rename_i hargs
    rw [if_neg hargs]
    rcases report_fault hf with hfault | ⟨a, -, ha⟩
    · obtain ⟨he, hcause⟩ := Engine.assign_fault h hfault
      exact ⟨by simp only [he], trouble_of_cause hcause (.inl rfl)⟩
    · cases ha

theorem echo_fault (hf : s.echo args = .error f) : Trouble s.engine args .echo f := by
  unfold echo at hf
  split at hf
  · cases hf
  · rcases report_fault hf with hfault | ⟨v, hv, hwrite⟩
    · exact trouble_of_cause (Engine.evaluate_fault hfault) (.inr rfl)
    · exact trouble_of_cause (cause_of_toText (Engine.evaluate_grounded hv) hwrite args) (.inr rfl)

theorem set_fault (h : s.engine.Steady) (hf : (s.set args).2 = .error f) :
    f = .integerTooLong ∧ (s.set args).1.engine.options.Overlong := by
  unfold set at hf ⊢
  split at hf
  · rename_i hargs
    rw [if_pos hargs]
    exact (OptionStore.overview_eq_error_iff h.valued).mp (map_unlines_eq_error_iff.mp hf)
  · rename_i hargs
    rw [if_neg hargs]
    exact OptionStore.applyWords_fault h.twinned h.valued (map_unlines_eq_error_iff.mp hf)

theorem version_eq_error_iff {e : Engine} :
    version e = .error f ↔ f = .integerTooLong ∧ Numeral.Long e.nameMax := by
  rw [← Numeral.write_eq_error_iff, version]
  cases Numeral.write e.nameMax <;> simp [Except.map]

theorem set_frame (s : Shell) (args : Text) :
    (s.set args).1.engine = { s.engine with options := (s.set args).1.engine.options } := by
  unfold set
  split <;> rfl

theorem run_fault (h : s.engine.Steady) {c : Command} (hf : (s.run c args).2 = .error f) :
    (s.run c args).1.engine = { s.engine with options := (s.run c args).1.engine.options } ∧
      Trouble (s.run c args).1.engine args c f := by
  cases c with
  | assign =>
    obtain ⟨hs, ht⟩ := assign_fault h hf
    rw [run, hs]
    exact ⟨rfl, ht⟩
  | echo => exact ⟨rfl, echo_fault hf⟩
  | set =>
    obtain ⟨rfl, ho⟩ := set_fault h hf
    exact ⟨set_frame s args, .option (.inr (.inr rfl)) ho⟩
  | remove =>
    simp only [run, remove] at hf
    split at hf <;> cases hf
  | help => cases hf
  | env => cases hf
  | log => cases hf
  | history => cases hf
  | version =>
    obtain ⟨rfl, hl⟩ := version_eq_error_iff.mp hf
    exact ⟨rfl, .limit hl⟩
  | exit => cases hf

theorem execute_command {line : Text} {c : Command} (hc : command? line = some c) :
    s.execute line =
      run { s with history := s.history ++ [line.trim] } c (arguments line) := by
  have hne : line.trim ≠ [] := by
    intro hl
    rw [command?, hl] at hc
    cases hc
  unfold execute
  rw [command?] at hc
  simp only [if_neg hne, hc]
  rfl

theorem execute_no_command {line : Text} (hc : command? line = none) :
    ∃ out, (s.execute line).2 = .ok out := by
  unfold execute
  rw [command?] at hc
  by_cases hl : line.trim = []
  · simp only [if_pos hl]
    exact ⟨[], rfl⟩
  · simp only [if_neg hl, hc]
    exact ⟨_, rfl⟩

theorem session_after (h : s.Session) (lines : List Text) : (s.after lines).Session := by
  induction lines generalizing s with
  | nil => exact h
  | cons line lines ih => exact ih (.line h line)

def fresh : Shell := ofEngine (.ofParts .empty .standard true Name.defaultLimit [])

theorem session_fresh : fresh.Session := by
  have he : Config.standard.engine .empty [] =
    .ok (.ofParts .empty .standard true Name.defaultLimit []) := rfl
  exact .new rfl he

def tabstops (n : Int) : OptionStore :=
  (OptionStore.standard.assign .global "tabstop".toList (.int n)).assign .local "tabstop".toList
    (.int n)

theorem execute_tabstops {n : Int} (h : s.engine.options = tabstops n) :
    (s.execute "set tabstop+=9".toList).1.engine.options = tabstops (n + 9) := by
  rw [execute_engine]
  change (s.engine.options.applyWords ["tabstop+=9".toList]).1 = _
  rw [h]
  rfl

theorem after_tabstops {n : Int} (h : s.engine.options = tabstops n) (k : Nat) :
    (s.after (List.replicate k "set tabstop+=9".toList)).engine.options = tabstops (n + 9 * k) := by
  induction k generalizing s n with
  | zero => simpa [after] using h
  | succ k ih =>
    rw [List.replicate_succ, after, ih (execute_tabstops h)]
    congr 1
    omega

theorem overlong_tabstops {n : Int} (h : Numeral.Long n) : (tabstops n).Overlong := by
  have hl : (tabstops n).lookup .global "tabstop".toList =
    some ⟨"tabstop".toList, .int, .int n, .global, []⟩ := rfl
  exact ⟨_, OptionStore.mem_of_lookup hl, n, rfl, h⟩

/-- Adding knows no bound, so a session comes to hold what it cannot write. -/
theorem exists_overlong : ∃ s : Shell, s.Session ∧ s.engine.options.Overlong := by
  obtain ⟨k, hk⟩ : ∃ k, k = 10 ^ digitLimit := ⟨_, rfl⟩
  have hstart : fresh.engine.options = tabstops 8 := rfl
  refine ⟨fresh.after (List.replicate k "set tabstop+=9".toList), session_after session_fresh _, ?_⟩
  rw [after_tabstops hstart k]
  exact overlong_tabstops (Numeral.long_iff.mpr (by omega))

theorem exists_long_limit : ∃ s : Shell, s.Session ∧ Numeral.Long s.engine.nameMax := by
  obtain ⟨k, hk⟩ : ∃ k : Nat, k = 10 ^ digitLimit := ⟨_, rfl⟩
  have hpos : 0 < k := hk ▸ Nat.pow_pos (by decide)
  have hlimit : ¬ (k : Int) < 1 := by omega
  have he : ({ Config.standard with nameMax := k } : Config).engine .empty [] =
      .ok (.ofParts .empty .standard true k []) := by
    rw [Config.engine, if_neg hlimit]
    rfl
  refine ⟨_, .new rfl he, Numeral.long_iff.mpr ?_⟩
  change 10 ^ digitLimit ≤ (k : Int).natAbs
  omega

/-- In every session: a line that faults assigns or echoes a text with a numeral
that has no value, or it does so, or shows options, where a global option is too
long to be written, or it shows a limit on names that is too long. It changes
options at most. All three are there to be met, by echoing such a numeral, by
asking for all options and by asking for the version. -/
theorem execute_faults (h : s.Session) (line : Text) :
    (∀ f, (s.execute line).2 = .error f →
      (s.execute line).1.engine =
        { s.engine with options := (s.execute line).1.engine.options } ∧
      ∃ c, command? line = some c ∧
        Trouble (s.execute line).1.engine (arguments line) c f) ∧
    (command? line = some .echo → Unreadable (arguments line) →
      ∃ f, Numeral.readOrFault (arguments line) = .error f ∧ (s.execute line).2 = .error f) ∧
    (command? line = some .set → arguments line = [] → s.engine.options.Overlong →
      (s.execute line).2 = .error .integerTooLong) ∧
    (command? line = some .version → Numeral.Long s.engine.nameMax →
      (s.execute line).2 = .error .integerTooLong) := by
  have hsteady := steady_session h
  refine ⟨?_, ?_, ?_, ?_⟩
  · intro f hf
    cases hc : command? line with
    | none =>
      obtain ⟨out, hout⟩ := execute_no_command (s := s) hc
      rw [hout] at hf
      cases hf
    | some c =>
      rw [execute_command hc] at hf ⊢
      obtain ⟨he, ht⟩ := run_fault (by exact hsteady) hf
      exact ⟨he, c, rfl, ht⟩
  · intro hc hu
    obtain ⟨f, hread, hf⟩ := evaluate_unreadable s.engine.context hu
    refine ⟨f, hread, ?_⟩
    rw [execute_command hc]
    simp only [run, echo, if_neg (ne_nil_of_unreadable hu), Engine.evaluate, hf]
    rfl
  · intro hc hargs ho
    rw [execute_command hc, hargs]
    simp only [run, set, if_true]
    rw [map_unlines_eq_error_iff, OptionStore.overview_eq_error_iff hsteady.valued]
    exact ⟨rfl, ho⟩
  · intro hc hl
    rw [execute_command hc, run]
    exact version_eq_error_iff.mpr ⟨rfl, hl⟩

theorem execute_faults_sample :
    (fresh.execute "let $A = 1".toList).1.Session ∧
      command? "echo -2²".toList = some .echo ∧ Unreadable (arguments "echo -2²".toList) ∧
      ∃ f, Numeral.readOrFault "-2²".toList = .error f ∧
        ((fresh.execute "let $A = 1".toList).1.execute "echo -2²".toList).2 = .error f := by
  have hs : (fresh.execute "let $A = 1".toList).1.Session := .line session_fresh _
  have hu : Unreadable (arguments "echo -2²".toList) :=
    ⟨true, "2²".toList, rfl, by decide, List.all_eq_true.mp (by decide),
      .inl ⟨'²', by decide, by decide⟩⟩
  exact ⟨hs, rfl, hu, (execute_faults hs _).2.1 rfl hu⟩

/-- A superscript is a digit, but no integer can be read from it. -/
theorem echo_superscript_faults :
    fresh.Session ∧ (fresh.execute "echo ²".toList).2 = .error (.invalidNumeral ['²']) :=
  ⟨session_fresh, rfl⟩

end

end Shell

end LetShell
