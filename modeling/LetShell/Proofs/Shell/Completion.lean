import LetShell.Proofs.Shell.CommandLine
import LetShell.Shell.Candidates

/-!
# Where arguments begin

The shell ends a command word at any blank. For the completion of a line a word
is ended by more text, or by a final space. So the two agree on every line that
ends with a space or goes on behind the word. On the others, such as a word
before a tab, the completion still offers command words, though what is typed
next will be an argument.
-/

set_option autoImplicit false

namespace LetShell.Shell
open Expression

/-- How the token of a variable may be completed: not at all, or by a visible
name that starts as typed, as the registry compares names. -/
inductive Token (s : Shell) (t : Text) : Text → Prop
  | typed : Token s t t
  | name {start : Text} {r : Record} (ht : t = '$' :: start) (hr : r ∈ s.engine.registry.visible)
      (hp : s.engine.registry.key start <+: s.engine.registry.key r.name) :
      Token s t ('$' :: r.name)

inductive Argument (s : Shell) (t : Text) : Command → Text → Prop
  | assign {x : Text} (h : s.Token t x) : Argument s t .assign x
  | echo {x : Text} (ht : t.head? = some '$') (h : s.Token t x) : Argument s t .echo x
  | remove {x : Text} (ht : t.head? = some '$') (h : s.Token t x) : Argument s t .remove x
  | removeAny {x : Text} (ht : t = []) (h : s.Token ['$'] x) : Argument s t .remove x
  | option {d : Definition} (hd : d ∈ s.engine.options.globals) (hp : t <+: d.name) :
      Argument s t .set d.name

section
variable {s : Shell} {t x : Text} {c : Command}

theorem mem_names_iff {g : Registry} {start : Text} :
    x ∈ g.names start ↔ ∃ r ∈ g.visible, g.key start <+: g.key r.name ∧ r.name = x := by
  simp only [Registry.names, List.mem_filter, List.mem_map, List.isPrefixOf_iff_prefix]
  constructor
  · rintro ⟨⟨r, hr, rfl⟩, hp⟩
    exact ⟨r, hr, hp, rfl⟩
  · rintro ⟨r, hr, hp, rfl⟩
    exact ⟨⟨r, hr, rfl⟩, hp⟩

theorem variableCandidates_other (h : t.head? ≠ some '$') : s.variableCandidates t = [t] := by
  have hplain : s.engine.complete t = ⟨0, [], [t], none⟩ := by
    rw [Engine.complete, Completions.ofToken]
    rintro start rfl
    exact h rfl
  simp only [variableCandidates, hplain]
  rfl

theorem variableCandidates_sign (start : Text) :
    s.variableCandidates ('$' :: start) =
      (s.engine.registry.names start).map ('$' :: ·) ++ ['$' :: start] := by
  simp [variableCandidates, Engine.complete, Completions.ofToken]

theorem mem_variableCandidates_iff : x ∈ s.variableCandidates t ↔ s.Token t x := by
  by_cases ht : t.head? = some '$'
  · obtain ⟨start, rfl⟩ : ∃ start, t = '$' :: start := List.head?_eq_some_iff.mp ht
    simp only [variableCandidates_sign, List.mem_append, List.mem_map, List.mem_singleton,
      mem_names_iff]
    constructor
    · rintro (⟨_, ⟨r, hr, hp, rfl⟩, rfl⟩ | rfl)
      · exact .name rfl hr hp
      · exact .typed
    · intro h
      cases h with
      | typed => exact .inr rfl
      | name hstart hr hp =>
        cases hstart
        exact .inl ⟨_, ⟨_, hr, hp, rfl⟩, rfl⟩
  · rw [variableCandidates_other ht, List.mem_singleton]
    constructor
    · rintro rfl
      exact .typed
    · intro h
      cases h with
      | typed => rfl
      | name hstart =>
        subst hstart
        exact absurd rfl ht

theorem mem_optionCandidates_iff :
    x ∈ s.optionCandidates t ↔ ∃ d ∈ s.engine.options.globals, t <+: d.name ∧ d.name = x := by
  simp only [optionCandidates, OptionStore.listing, List.mem_filter, List.mem_map,
    List.mem_mergeSort, List.isPrefixOf_iff_prefix]
  constructor
  · rintro ⟨⟨d, hd, rfl⟩, hp⟩
    exact ⟨d, hd, hp, rfl⟩
  · rintro ⟨d, hd, hp, rfl⟩
    exact ⟨⟨d, hd, rfl⟩, hp⟩

theorem mem_argumentCandidates_iff :
    x ∈ s.argumentCandidates c.word t ↔ s.Argument t c x := by
  have hsign : startsWithSign t = true ↔ t.head? = some '$' := decide_eq_true_iff
  simp only [argumentCandidates, Command.ofWord?_word]
  cases c with
  | assign =>
    rw [mem_variableCandidates_iff]
    exact ⟨.assign, fun h => by cases h; assumption⟩
  | echo =>
    simp only [List.mem_ite_nil_right, hsign, mem_variableCandidates_iff]
    exact ⟨fun ⟨ht, h⟩ => .echo ht h, fun h => by cases h; exact ⟨‹_›, ‹_›⟩⟩
  | remove =>
    by_cases ht : t = []
    · subst ht
      simp only [if_true, List.mem_ite_nil_right, mem_variableCandidates_iff]
      constructor
      · rintro ⟨-, h⟩
        exact .removeAny rfl h
      · intro h
        cases h with
        | remove hhead => cases hhead
        | removeAny _ h => exact ⟨rfl, h⟩
    · simp only [if_neg ht, List.mem_ite_nil_right, hsign, mem_variableCandidates_iff]
      constructor
      · rintro ⟨hhead, h⟩
        exact .remove hhead h
      · intro h
        cases h with
        | remove hhead h => exact ⟨hhead, h⟩
        | removeAny hnil => exact absurd hnil ht
  | set =>
    rw [mem_optionCandidates_iff]
    constructor
    · rintro ⟨d, hd, hp, rfl⟩
      exact .option hd hp
    · intro h
      cases h with
      | option hd hp => exact ⟨_, hd, hp, rfl⟩
  | help => exact iff_of_false List.not_mem_nil fun h => by cases h
  | env => exact iff_of_false List.not_mem_nil fun h => by cases h
  | log => exact iff_of_false List.not_mem_nil fun h => by cases h
  | history => exact iff_of_false List.not_mem_nil fun h => by cases h
  | version => exact iff_of_false List.not_mem_nil fun h => by cases h
  | exit => exact iff_of_false List.not_mem_nil fun h => by cases h

theorem mem_commandCandidates_iff : x ∈ commandCandidates t ↔ ∃ c : Command, c.word = x ∧ t <+: x := by
  have hall : ∀ c : Command, c ∈ Command.all := by
    intro c
    cases c <;> decide
  simp only [commandCandidates, Command.words, Text.sorted, List.mem_filter, List.mem_mergeSort,
    List.mem_map, List.isPrefixOf_iff_prefix]
  constructor
  · rintro ⟨⟨c, -, hc⟩, hp⟩
    exact ⟨c, hc, hp⟩
  · rintro ⟨c, hc, hp⟩
    exact ⟨⟨c, hall c, hc⟩, hp⟩

end

section
variable {s : Shell} {before rest : Text} {b : Char}

theorem words_line (c : Command) (hbefore : Blank before) (hb : Text.isBlank b = true)
    (rest : Text) :
    Text.words (Text.trimStart (before ++ (c.word ++ b :: rest))) = c.word :: Text.words rest := by
  have hbreak : Free Text.isSolid (b :: rest) := free_cons (by simp [Text.isSolid, hb]) rest
  have htake : (c.word ++ b :: rest).takeWhile Text.isSolid = c.word :=
    takeWhile_run (solid_word c) hbreak
  have hdrop : (c.word ++ b :: rest).dropWhile Text.isSolid = b :: rest :=
    dropWhile_run (solid_word c) hbreak
  have hrest : Text.words (b :: rest) = Text.words rest := by
    rw [← Text.words_trimStart, Text.trimStart_of_blank hb, Text.words_trimStart]
  rw [trimStart_blank hbefore, trimStart_eq_self_iff.mpr (free_word c _)]
  have hfree := free_word c (b :: rest)
  cases hline : c.word ++ b :: rest with
  | nil => simp at hline
  | cons x u =>
    rw [hline] at htake hdrop hfree
    rw [Text.words_of_not_blank (hfree x rfl), htake, hdrop, hrest]

theorem words_eq_nil_iff_blank {rest : Text} : Text.words rest = [] ↔ Blank rest := by
  rw [Text.words_eq_nil_iff, Text.trimStart_eq_nil_iff]

theorem getLast?_line (c : Command) (before : Text) (b : Char) (rest : Text) :
    (before ++ (c.word ++ b :: rest)).getLast? = (b :: rest).getLast? := by
  rw [← List.append_assoc, List.getLast?_append_of_ne_nil _ (List.cons_ne_nil b rest)]

theorem candidates_argument (s : Shell) (c : Command) (hbefore : Blank before)
    (hb : Text.isBlank b = true) (t : Text)
    (h : ¬ Blank rest ∨ (b :: rest).getLast? = some ' ') :
    s.candidates t (before ++ (c.word ++ b :: rest)) = s.argumentCandidates c.word t := by
  unfold candidates
  rw [words_line c hbefore hb, getLast?_line]
  cases hw : Text.words rest with
  | nil =>
    have hspace := h.resolve_left fun hno => hno (words_eq_nil_iff_blank.mp hw)
    simp only [hspace, if_true]
  | cons word ws => rfl

theorem candidates_command (s : Shell) (c : Command) (hbefore : Blank before)
    (hb : Text.isBlank b = true) (t : Text) (hrest : Blank rest)
    (h : (b :: rest).getLast? ≠ some ' ') :
    s.candidates t (before ++ (c.word ++ b :: rest)) = commandCandidates t := by
  unfold candidates
  rw [words_line c hbefore hb, getLast?_line, words_eq_nil_iff_blank.mpr hrest]
  simp only [if_neg h]

end

/-- Where a blank stands after a command word, the shell takes what follows for
arguments, and so does the completion if the line goes on there or ends with a
space. If there are blanks only, the last of them another one, the completion
offers the command words that start as typed. -/
theorem completion_of_line (s : Shell) (c : Command) {before : Text} {b : Char}
    (hbefore : Blank before) (hb : Text.isBlank b = true) (rest t : Text) :
    let line := before ++ (c.word ++ b :: rest)
    command? line = some c ∧ arguments line = rest.trim ∧
      (¬ Blank rest ∨ (b :: rest).getLast? = some ' ' →
        ∀ x, x ∈ s.candidates t line ↔ s.Argument t c x) ∧
      (Blank rest → (b :: rest).getLast? ≠ some ' ' →
        ∀ x, x ∈ s.candidates t line ↔ ∃ d : Command, d.word = x ∧ t <+: x) := by
  refine ⟨command?_line c hbefore hb rest, arguments_line c hbefore hb rest, ?_, ?_⟩
  · intro h x
    rw [candidates_argument s c hbefore hb t h]
    exact mem_argumentCandidates_iff
  · intro hrest h x
    rw [candidates_command s c hbefore hb t hrest h]
    exact mem_commandCandidates_iff

theorem completion_of_line_sample :
    Blank [' '] ∧ Text.isBlank '\t' = true ∧ command? " set\tsh".toList = some .set ∧
      "shell".toList ∈ fresh.candidates "sh".toList " set\tsh".toList := by
  have hbefore : Blank [' '] := List.all_eq_true.mp (by decide)
  have hrest : ¬ Blank "sh".toList := fun h => absurd (h 's' (by decide)) (by decide)
  have hshell : ∃ d ∈ fresh.engine.options.globals, "sh".toList <+: d.name ∧
      d.name = "shell".toList := by
    decide
  obtain ⟨d, hd, hp, hname⟩ := hshell
  obtain ⟨hcommand, -, hargument, -⟩ :=
    completion_of_line fresh .set (b := '\t') hbefore rfl "sh".toList "sh".toList
  exact ⟨hbefore, rfl, hcommand, (hargument (.inl hrest) _).mpr (hname ▸ .option hd hp)⟩

/-- Behind a tab the shell takes an option, but the completion offers a command. -/
theorem tab_offers_commands :
    command? "set\t".toList = some .set ∧ arguments "set\t".toList = [] ∧
      "echo".toList ∈ fresh.candidates [] "set\t".toList ∧
      ¬ fresh.Argument [] .set "echo".toList := by
  have hline : fresh.candidates [] "set\t".toList = commandCandidates [] :=
    candidates_command fresh .set (b := '\t') blank_nil rfl [] blank_nil (by decide)
  have hoptions : ∀ d ∈ fresh.engine.options.globals, d.name ≠ "echo".toList := by decide
  refine ⟨rfl, rfl, ?_, fun h => ?_⟩
  · rw [hline]
    exact mem_commandCandidates_iff.mpr ⟨.echo, rfl, List.nil_prefix⟩
  · generalize hword : "echo".toList = x at h
    cases h with
    | option hd => exact hoptions _ hd hword.symm

end LetShell.Shell
