import LetShell.Proofs.Engine.Options
import LetShell.Proofs.Shell.Session

/-!
# Option values over a session

Whatever statements, words and lines a session is given, and whichever of them
are rejected, its options hold proper values, and every local one has a global
twin. Only declaring an option with an improper value could change that.
-/

set_option autoImplicit false

namespace LetShell

namespace Shell

theorem not_define_mem_actions (lines : List Text) (d : Declaration) :
    .define d ∉ lines.flatMap actions := by
  intro hd
  obtain ⟨line, -, hline⟩ := List.mem_flatMap.mp hd
  rcases mem_actions hline with ⟨s, hs⟩ | ⟨ws, hws⟩
  · cases hs
  · cases hws

theorem session_engine (e : Engine) (as : List Action) (history lines : List Text) :
    ((Shell.mk (e.acts as) history).after lines).engine = e.acts (as ++ lines.flatMap actions) := by
  rw [after_engine, Engine.acts_append]

theorem define_mem_session {as : List Action} {lines : List Text} {d : Declaration}
    (h : .define d ∈ as ++ lines.flatMap actions) : .define d ∈ as :=
  (List.mem_append.mp h).resolve_right (not_define_mem_actions lines d)

/-- From a store that was built by declarations with proper values: after any
statements and words for the options, accepted or not, and after any lines of a
shell then, every value is proper and every local definition has a global one
of its type and allowed values. -/
theorem options_stay_proper {ds : List Declaration} {e : Engine}
    (hs : OptionStore.ofDeclarations ds = .ok e.options) (hd : ∀ d ∈ ds, d.Canonical)
    (as : List Action) (ha : ∀ d, .define d ∈ as → d.Canonical) (history lines : List Text) :
    (∀ scope, ∀ d ∈ ((Shell.mk (e.acts as) history).after lines).engine.options.partition scope,
      d.type.Holds d.values d.value) ∧
    (∀ d ∈ ((Shell.mk (e.acts as) history).after lines).engine.options.locals,
      ∃ g ∈ ((Shell.mk (e.acts as) history).after lines).engine.options.globals,
        g.name = d.name ∧ g.type = d.type ∧ g.values = d.values) := by
  have htwins := OptionStore.twinned_ofDeclarations hs
  have hvalued := OptionStore.valued_ofDeclarations hd hs
  have ht := Engine.twinned_acts htwins (as ++ lines.flatMap actions)
  have hv : (e.acts (as ++ lines.flatMap actions)).options.Valued :=
    Engine.valued_acts htwins hvalued fun d hd => ha d (define_mem_session hd)
  rw [session_engine]
  refine ⟨hv.proper, ?_⟩
  intro d hlocal
  exact OptionStore.exists_global ht hv hlocal

theorem options_stay_proper_sample :
    OptionStore.ofDeclarations OptionStore.standardDeclarations =
        .ok (Engine.ofParts .empty .standard true 64 []).options ∧
      (∀ d ∈ OptionStore.standardDeclarations, d.Canonical) ∧
      ∀ scope, ∀ d ∈ ((Shell.mk ((Engine.ofParts .empty .standard true 64 []).acts
        [.words ["cpoptions+=t".toList, "tags=a,b,a,,c".toList, "invhlsearch".toList],
          .statement (.assign "&tabstop -= 100".toList)]) []).after
        ["set cpoptions-=f sortorder=sideways".toList, "let &tags += 'd,a'".toList,
          "let &l:tabstop = 'x'".toList]).engine.options.partition scope,
        d.type.Holds d.values d.value := by
  have hs : OptionStore.ofDeclarations OptionStore.standardDeclarations =
    .ok (Engine.ofParts .empty .standard true 64 []).options := rfl
  have hd := OptionStore.canonical_standard
  refine ⟨hs, hd, (options_stay_proper hs hd _ ?_ _ _).1⟩
  intro d hm
  simp at hm

end Shell

end LetShell
