import LetShell.Proofs.Options.Switches
import LetShell.Proofs.Shell.Agreement

/-!
# Switching an option by its words

The words of a boolean option are looked up among the options there are, so what
a word does depends on their names. Where no reading of the word comes before
that of a switch, the line turns the one option that is named and is silent.
-/

set_option autoImplicit false

namespace LetShell

namespace Shell
open Expression OptionWord

def switchLine (word : Text) : Text := Command.set.word ++ ' ' :: word

/-- The line of the word turns every definition of the name, changes nothing
else of the engine, and is silent. -/
structure Turns (s : Shell) (word name : Text) (f : Bool → Bool) : Prop where
  answer : (s.execute (switchLine word)).2 = .ok []
  options : s.engine.options.Turned name f (s.execute (switchLine word)).1.engine.options
  frame : (s.execute (switchLine word)).1.engine =
    { s.engine with options := (s.execute (switchLine word)).1.engine.options }

section
variable {s : Shell} {word name : Text} {g : Definition}

theorem execute_silent (hne : word ≠ []) (hsolid : ∀ c ∈ word, Text.isBlank c = false)
    {options : OptionStore} (h : s.engine.options.applyWord word = (options, .ok [])) :
    s.execute (switchLine word) =
      (⟨{ s.engine with options := options }, s.history ++ [(switchLine word).trim]⟩, .ok []) := by
  have hback : ∀ c ∈ word.reverse, Text.isBlank c = false :=
    fun c hc => hsolid c (List.mem_reverse.mp hc)
  obtain ⟨hcommand, hargs⟩ := command_line .set (free_of_forall hsolid) (free_of_forall hback)
  rw [switchLine, execute_command hcommand, hargs]
  simp only [run, set, if_neg hne, words_of_solid hne hsolid, OptionStore.applyWords, h]
  rfl

theorem turns_of_find (ht : s.engine.options.Twinned) (hp : Plain word)
    (hshow : ¬s.engine.options.Shows word) (hs : s.engine.options.isSwitch name = true)
    {how : Switch}
    (hf : (switches word).find? (fun r => s.engine.options.isSwitch r.2) = some (how, name)) :
    s.Turns word name how.turn := by
  obtain ⟨hanswer, hturned⟩ := OptionStore.switch_turned ht hs hf
  have happly : s.engine.options.applyWord word = ((s.engine.options.switch word).1, .ok []) := by
    rw [OptionStore.applyWord_plain hp hshow, ← hanswer]
  have hrun := execute_silent hp.nonempty hp.solid happly
  exact ⟨by rw [hrun], by rw [hrun]; exact hturned, by rw [hrun]⟩

/-- From a store that was built by declarations with any names, after anything
done to its engine and any lines of a shell then: the name of a boolean option
after `no` switches it off in each scope, after `inv` it turns each definition
over, and by itself it switches it on. Nothing else changes. The first two must
not be the name of an option that is not boolean, and the name by itself must
not be that of another boolean option after `no` or `inv`. -/
theorem switch_words {ds : List Declaration} {e : Engine}
    (hs : OptionStore.ofDeclarations ds = .ok e.options) (as : List Action)
    (history lines : List Text)
    (hg : ((Shell.mk (e.acts as) history).after lines).engine.options.lookup .global name = some g)
    (hb : g.type = .bool) :
    let s := (Shell.mk (e.acts as) history).after lines
    (Plain (noText ++ name) → ¬s.engine.options.Shows (noText ++ name) →
      s.Turns (noText ++ name) name fun _ => false) ∧
    (Plain (invText ++ name) → ¬s.engine.options.Shows (invText ++ name) →
      s.Turns (invText ++ name) name fun b => !b) ∧
    (Plain name → ¬s.engine.options.Shadowed name → s.Turns name name fun _ => true) := by
  intro s
  have ht : s.engine.options.Twinned := by
    simp only [s, session_engine]
    exact Engine.twinned_acts (OptionStore.twinned_ofDeclarations hs) _
  have hswitch : s.engine.options.isSwitch name = true := OptionStore.isSwitch_iff.mpr ⟨g, hg, hb⟩
  refine ⟨?_, ?_, ?_⟩
  · intro hp hshow
    exact turns_of_find ht hp hshow hswitch (OptionStore.find?_no hswitch)
  · intro hp hshow
    exact turns_of_find ht hp hshow hswitch (OptionStore.find?_inv hswitch)
  · intro hp hshadow
    have hshow : ¬s.engine.options.Shows name := by
      rintro ⟨d, hd, hbool⟩
      cases Option.some.inj (hg.symm.trans hd)
      exact hbool hb
    exact turns_of_find ht hp hshow hswitch (OptionStore.find?_bare hswitch hshadow)

def related : List Declaration :=
  [⟨"novice".toList, .bool, .bool false, [], true⟩, ⟨"wrap".toList, .bool, .bool true, [], false⟩]

theorem switch_words_sample :
    let e := Engine.ofParts .empty ⟨related.map (·.definition .global),
      [⟨"novice".toList, .bool, .bool false, .local, []⟩]⟩ true 64 []
    let s := (Shell.mk (e.acts [.words ["invnovice".toList]]) []).after ["set nowrap".toList]
    OptionStore.ofDeclarations related = .ok e.options ∧
      s.engine.options.lookup .global "novice".toList =
        some ⟨"novice".toList, .bool, .bool true, .global, []⟩ ∧
      s.Turns "nonovice".toList "novice".toList (fun _ => false) ∧
      s.Turns "invnovice".toList "novice".toList (fun b => !b) ∧
      s.Turns "novice".toList "novice".toList (fun _ => true) := by
  intro e s
  have hs : OptionStore.ofDeclarations related = .ok e.options := rfl
  have hg : s.engine.options.lookup .global "novice".toList =
      some ⟨"novice".toList, .bool, .bool true, .global, []⟩ := by decide +kernel
  have habsent : ∀ word, s.engine.options.lookup .global word = none →
      ¬s.engine.options.Shows word := by
    rintro word hnone ⟨d, hd, -⟩
    rw [hnone] at hd
    cases hd
  obtain ⟨hoff, hover, hon⟩ := switch_words hs _ _ _ hg rfl
  refine ⟨hs, hg, ?_, ?_, ?_⟩
  · exact hoff ⟨by decide, Text.not_blank_of_all (by decide), rfl, rfl⟩
      (habsent _ (by decide +kernel))
  · exact hover ⟨by decide, Text.not_blank_of_all (by decide), rfl, rfl⟩
      (habsent _ (by decide +kernel))
  · refine hon ⟨by decide, Text.not_blank_of_all (by decide), rfl, rfl⟩ ?_
    have hnone : s.engine.options.lookup .global "vice".toList = none := by decide +kernel
    rintro ⟨rest, g, hrest | hrest, hg, -⟩
    · have htail : rest = "vice".toList := (congrArg (List.drop 2) hrest).symm
      rw [htail, hnone] at hg
      cases hg
    · have hhead : "novice".toList.head? = some 'i' := congrArg List.head? hrest
      revert hhead
      decide

def meeting (type : OptionType) (v : OptionValue) : OptionStore :=
  ⟨[⟨"wrap".toList, .bool, .bool true, .global, []⟩, ⟨"nowrap".toList, type, v, .global, []⟩], []⟩

def single (name : Text) : OptionStore := ⟨[⟨name, .bool, .bool false, .global, []⟩], []⟩

def turnedBy (s : OptionStore) (word : Text) : OptionStore :=
  ((ofEngine (.ofParts .empty s true 64 [])).execute (switchLine word)).1.engine.options

/-- A word is the name of an option that is not boolean, and is shown; the
boolean option is not switched off. Two boolean options cannot both have the
word, and the one that is named by it whole is not switched on. Nor is an option
whose name is no word, or is read as a change or a question. -/
theorem nowrap_is_taken :
    OptionStore.ofDeclarations [⟨"wrap".toList, .bool, .bool true, [], false⟩,
        ⟨"nowrap".toList, .string, .text ['x'], [], false⟩] = .ok (meeting .string (.text ['x'])) ∧
      OptionStore.ofDeclarations [⟨"wrap".toList, .bool, .bool true, [], false⟩,
        ⟨"nowrap".toList, .bool, .bool false, [], false⟩] = .ok (meeting .bool (.bool false)) ∧
      ¬(meeting .string (.text ['x'])).Turned "wrap".toList (fun _ => false)
        (turnedBy (meeting .string (.text ['x'])) "nowrap".toList) ∧
      ¬(meeting .bool (.bool false)).Turned "nowrap".toList (fun _ => true)
        (turnedBy (meeting .bool (.bool false)) "nowrap".toList) ∧
      ∀ name ∈ [[], "a b".toList, "a=1".toList, "a?".toList],
        OptionStore.ofDeclarations [⟨name, .bool, .bool false, [], false⟩] = .ok (single name) ∧
          ¬(single name).Turned name (fun _ => true) (turnedBy (single name) name) := by
  refine ⟨rfl, rfl, ?_, ?_, ?_⟩
  · intro h
    have hown := h.own .global
    revert hown
    decide +kernel
  · intro h
    have hown := h.own .global
    revert hown
    decide +kernel
  · have hkept : ∀ name ∈ [[], "a b".toList, "a=1".toList, "a?".toList],
        (turnedBy (single name) name).lookup .global name ≠
          ((single name).lookup .global name).map fun d => { d with value := .bool true } := by
      decide +kernel
    intro name hname
    exact ⟨rfl, fun h => hkept name hname (h.own .global)⟩

end

end Shell

end LetShell
