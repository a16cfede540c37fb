import LetShell.Proofs.Shell.Session
import LetShell.Proofs.Text.Words
import LetShell.Terminal

/-!
# Lines that end a session

A session is asked to end by an output like any other. The last command has
that output, and so has an `echo` of an expression with that text as its value.
No other line has it in any state: the lines that the other commands put out
begin otherwise, or hold an equals sign.
-/

set_option autoImplicit false

namespace LetShell

theorem Text.not_mem_ofNat {c : Char} (h : c.isDigit = false) (n : Nat) : c ∉ Text.ofNat n := by
  intro hc
  rw [Nat.isDigit_of_mem_toDigits (by decide) (by decide) hc] at h
  cases h

theorem Text.not_mem_ofInt (n : Int) : '_' ∉ Text.ofInt n := by
  cases n with
  | ofNat m => exact not_mem_ofNat rfl m
  | negSucc m =>
    rw [Text.ofInt, List.mem_cons]
    rintro (h | h)
    · cases h
    · exact not_mem_ofNat rfl _ h

namespace Command

theorem ofWord?_word (c : Command) : ofWord? c.word = some c := by
  cases c <;> rfl

theorem ofWord?_eq_some_iff {w : Text} {c : Command} : ofWord? w = some c ↔ w = c.word := by
  constructor
  · intro h
    have hw : c.word = w := by simpa using List.find?_some h
    exact hw.symm
  · rintro rfl
    exact ofWord?_word c

theorem word_inj {c d : Command} : c.word = d.word ↔ c = d := by
  rw [← ofWord?_eq_some_iff, ofWord?_word, Option.some.injEq]

end Command

namespace Shell

def arguments (line : Text) : Text := (split line.trim).2

/-- The line echoes an expression with a text as its value. -/
def Echoes (s : Shell) (t line : Text) : Prop :=
  (Text.words line).head? = some Command.echo.word ∧
    s.engine.evaluate (arguments line) = .ok (.text t)

/-- A line asks for the end by its command, or by the value it echoes. -/
def Ends (s : Shell) (line : Text) : Prop :=
  (Text.words line).head? = some Command.exit.word ∨ s.Echoes farewell line

theorem toText_eq_farewell {v : Value} : v.toText = .ok farewell ↔ v = .text farewell := by
  cases v with
  | text t => simp [Value.toText]
  | int n =>
    constructor
    · intro h
      obtain ⟨-, hn⟩ := Numeral.write_eq_ok_iff.mp h
      exact absurd (hn ▸ by decide) (Text.not_mem_ofInt n)
    · intro h
      cases h

theorem mem_of_unlines_farewell {ts : List Text} (h : Text.unlines ts = farewell) :
    farewell ∈ ts := by
  have hone := (Text.unlines_eq_iff (by decide) (by decide) ts).mp h
  simp [hone]

theorem errorLine_ne_farewell (m : Text) : errorLine m ≠ farewell := by
  intro h
  cases h

theorem report_farewell {α : Type} {render : α → Except Fault Text}
    {r : Except (Failure VariableError) α} (h : report render r = .ok farewell) :
    ∃ a, r = .ok a ∧ render a = .ok farewell := by
  match r, h with
  | .ok a, h => exact ⟨a, rfl, h⟩
  | .error (.error e), h => exact absurd (Except.ok.inj h) (errorLine_ne_farewell e.message)

theorem evaluate_nil_ne (e : Engine) (v : Value) : e.evaluate [] ≠ .ok v := by
  intro h
  cases h

section
variable {options : OptionStore}

theorem describe_ne_farewell (d : Definition) : d.describe ≠ .ok farewell := by
  intro h
  unfold Definition.describe at h
  split at h
  · split at h
    · cases h
    · cases h
  · cases hv : d.value.toText with
    | error f =>
      rw [hv] at h
      cases h
    | ok t =>
      rw [hv] at h
      cases h

theorem silent_ne_farewell (r : Except (Failure OptionError) Unit) :
    (r.map fun _ => ([] : Text)) ≠ .ok farewell := by
  intro h
  cases r <;> cases h

theorem described_ne_farewell (d : Definition) : OptionStore.describe d ≠ .ok farewell := by
  intro h
  unfold OptionStore.describe at h
  cases hd : d.describe with
  | error f =>
    rw [hd] at h
    cases h
  | ok t =>
    rw [hd] at h
    cases h
    exact describe_ne_farewell d hd

theorem switch_ne_farewell (word : Text) : (options.switch word).2 ≠ .ok farewell := by
  unfold OptionStore.switch
  split
  · intro h
    cases h
  · exact silent_ne_farewell _

theorem applyWord_ne_farewell (options : OptionStore) (word : Text) :
    (options.applyWord word).2 ≠ .ok farewell := by
  unfold OptionStore.applyWord
  split
  · split
    · intro h
      cases h
    · exact silent_ne_farewell _
  · split
    · split
      · exact described_ne_farewell _
      · intro h
        cases h
    · split
      · split
        · exact switch_ne_farewell word
        · exact described_ne_farewell _
      · exact switch_ne_farewell word

theorem not_mem_map_cons {x : Text} {r : Except Fault (List Text)} {lines : List Text}
    (hx : x ≠ farewell) (hr : ∀ ls, r = .ok ls → farewell ∉ ls)
    (h : r.map (x :: ·) = .ok lines) : farewell ∉ lines := by
  match r, h with
  | .ok ls, h =>
    cases h
    rw [List.mem_cons]
    rintro (hm | hm)
    · exact hx hm.symm
    · exact hr ls rfl hm

theorem not_mem_applyWords {ws lines : List Text} (h : (options.applyWords ws).2 = .ok lines) :
    farewell ∉ lines := by
  induction ws generalizing options lines with
  | nil =>
    cases h
    simp
  | cons word ws ih =>
    unfold OptionStore.applyWords at h
    split at h
    · cases h
    · rename_i e _
      exact not_mem_map_cons (errorLine_ne_farewell e.message) (fun _ => ih) h
    · exact ih h
    · rename_i line _ hline
      have hword := applyWord_ne_farewell options word
      rw [hline] at hword
      exact not_mem_map_cons (fun he => hword (he ▸ rfl)) (fun _ => ih) h

theorem not_mem_mapM_describe {ds : List Definition} {lines : List Text}
    (h : ds.mapM (·.describe) = .ok lines) : farewell ∉ lines := by
  induction ds generalizing lines with
  | nil =>
    cases h
    simp
  | cons d ds ih =>
    rw [List.mapM_cons] at h
    cases hd : d.describe with
    | error f =>
      rw [hd] at h
      cases h
    | ok line =>
      have hline : line ≠ farewell := fun he => describe_ne_farewell d (he ▸ hd)
      rw [hd] at h
      exact not_mem_map_cons hline (fun _ => ih) h

end

theorem listing_ne_farewell (e : Engine) : listing e ≠ farewell := by
  unfold listing
  split
  · decide
  · intro h
    -- A variable may have a name that begins like the text, but the text holds no sign.
    obtain ⟨p, -, hp⟩ := List.mem_map.mp (mem_of_unlines_farewell h)
    have hsign : '=' ∈ farewell := by simp [← hp]
    exact absurd hsign (by decide)

theorem logLines_ne_farewell (log : Log) : logLines log ≠ farewell := by
  unfold logLines
  split
  · decide
  · intro h
    obtain ⟨entry, -, hentry⟩ := List.mem_map.mp (mem_of_unlines_farewell h)
    cases hentry

theorem not_mem_numbered (n : Nat) (lines : List Text) : farewell ∉ numbered n lines := by
  induction lines generalizing n with
  | nil => simp [numbered]
  | cons line lines ih =>
    rw [numbered, List.mem_cons]
    rintro (h | h)
    · cases h
    · exact ih (n + 1) h

theorem version_ne_farewell (e : Engine) : version e ≠ .ok farewell := by
  intro h
  unfold version at h
  cases hn : Numeral.write e.nameMax with
  | error f =>
    rw [hn] at h
    cases h
  | ok limit =>
    rw [hn] at h
    have hlines := (Text.unlines_eq_iff (by decide) (by decide) _).mp (Except.ok.inj h)
    cases hlines

theorem echo_farewell {s : Shell} {args : Text} :
    s.echo args = .ok farewell ↔ s.engine.evaluate args = .ok (.text farewell) := by
  unfold echo
  by_cases ha : args = []
  · subst ha
    rw [if_pos rfl]
    constructor
    · intro h
      cases h
    · intro h
      exact absurd h (evaluate_nil_ne s.engine _)
  · rw [if_neg ha]
    constructor
    · intro h
      obtain ⟨v, hv, htext⟩ := report_farewell h
      rw [hv, toText_eq_farewell.mp htext]
    · intro h
      rw [h]
      rfl

section
variable {s : Shell}

theorem assign_ne_farewell (args : Text) : (s.assign args).2 ≠ .ok farewell := by
  unfold assign
  split
  · intro h
    cases h
  · intro h
    obtain ⟨a, -, ha⟩ := report_farewell h
    cases ha

theorem remove_ne_farewell (args : Text) : (s.remove args).2 ≠ .ok farewell := by
  unfold remove
  split
  · intro h
    cases h
  · intro h
    obtain ⟨m, -, hm⟩ := List.mem_map.mp (mem_of_unlines_farewell (Except.ok.inj h))
    exact errorLine_ne_farewell m hm

theorem map_unlines_ne_farewell {r : Except Fault (List Text)}
    (hr : ∀ lines, r = .ok lines → farewell ∉ lines) : r.map Text.unlines ≠ .ok farewell := by
  intro h
  match r, h with
  | .ok lines, h => exact hr lines rfl (mem_of_unlines_farewell (Except.ok.inj h))

theorem set_ne_farewell (args : Text) : (s.set args).2 ≠ .ok farewell := by
  unfold set
  split
  · exact map_unlines_ne_farewell fun _ => not_mem_mapM_describe
  · exact map_unlines_ne_farewell fun _ => not_mem_applyWords

theorem showLog_ne_farewell (args : Text) : s.showLog args ≠ farewell := by
  unfold showLog
  split
  · exact logLines_ne_farewell _
  · split
    · exact logLines_ne_farewell _
    · intro h
      cases h

/-- Only two commands can put the text out. -/
theorem run_ne_farewell {c : Command} (hexit : c ≠ .exit) (hecho : c ≠ .echo) (args : Text) :
    (s.run c args).2 ≠ .ok farewell := by
  cases c with
  | help =>
    intro h
    cases h
  | assign => exact assign_ne_farewell args
  | remove => exact remove_ne_farewell args
  | echo => exact absurd rfl hecho
  | env => exact fun h => listing_ne_farewell s.engine (Except.ok.inj h)
  | set => exact set_ne_farewell args
  | log => exact fun h => showLog_ne_farewell args (Except.ok.inj h)
  | history =>
    intro h
    exact not_mem_numbered 1 s.history (mem_of_unlines_farewell (Except.ok.inj h))
  | version => exact version_ne_farewell s.engine
  | exit => exact absurd rfl hexit

theorem run_farewell_iff (c : Command) (args : Text) :
    (s.run c args).2 = .ok farewell ↔
      c = .exit ∨ (c = .echo ∧ s.engine.evaluate args = .ok (.text farewell)) := by
  by_cases hexit : c = .exit
  · subst hexit
    exact iff_of_true rfl (.inl rfl)
  · by_cases hecho : c = .echo
    · subst hecho
      rw [or_iff_right hexit, and_iff_right rfl]
      exact echo_farewell
    · exact iff_of_false (run_ne_farewell hexit hecho args) (by simp [hexit, hecho])

theorem execute_farewell_iff (line : Text) : (s.execute line).2 = .ok farewell ↔ s.Ends line := by
  unfold execute Ends Echoes
  rw [Text.head?_words]
  by_cases hl : line.trim = []
  · simp only [hl, if_true]
    exact iff_of_false (fun h => by cases h) (by simp)
  · simp only [hl, if_false, Option.some.injEq]
    have hword : (split line.trim).1 = (Text.token line.trim).1 := rfl
    rw [← hword]
    cases hc : Command.ofWord? (split line.trim).1 with
    | none =>
      have hother : ∀ c : Command, (split line.trim).1 ≠ c.word := by
        intro c h
        rw [Command.ofWord?_eq_some_iff.mpr h] at hc
        cases hc
      exact iff_of_false (fun h => by cases h) (by simp [hother])
    | some c =>
      rw [Command.ofWord?_eq_some_iff.mp hc, Command.word_inj, Command.word_inj]
      exact run_farewell_iff c _

end

end Shell

/-- At the prompt, a line ends the loop just when it asks for the end. -/
theorem Terminal.step_line_stop_iff (s : Shell) (line : Text) :
    (∃ out, (step s (some (.line line))).2 = .stop out) ↔ s.Ends line := by
  rw [← Shell.execute_farewell_iff, step]
  split
  · rename_i f hf
    rw [hf]
    exact iff_of_false (fun ⟨out, h⟩ => by cases h) (fun h => by cases h)
  · rename_i out hout
    rw [hout]
    split
    · rename_i heq
      exact iff_of_true ⟨[], rfl⟩ (congrArg _ heq)
    · rename_i hne
      exact iff_of_false (fun ⟨out, h⟩ => by cases h) (fun h => hne (Except.ok.inj h))

end LetShell
