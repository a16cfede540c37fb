import LetShell.Proofs.Engine.Step

/-!
# Replaying the log

The log says what became of the slots. Whenever a name is given a slot, a slot
is freed or all slots are given up, one entry of the registry tells of it, and
no other entry reads like one of these. So the entries alone, replayed from no
slots at all, yield the names in the slots of any engine whose log has never
been cleared.
-/

set_option autoImplicit false

namespace LetShell

/-- The names in the slots, a free slot without one. -/
abbrev Layout := List (Option Text)

inductive SlotEvent where
  | created (name : Text)
  | erased (name : Text)
  | emptied
  deriving DecidableEq, Repr

/-- What a message of the registry tells of the slots, if anything. -/
def SlotEvent.ofMessage? (message : Text) : Option SlotEvent :=
  match "created ".toList.isPrefixOf? message with
  | some name => some (.created name)
  | none =>
    match "erased ".toList.isPrefixOf? message with
    | some name => some (.erased name)
    | none =>
      if "restored environment ".toList.isPrefixOf message then some .emptied else none

namespace Layout

def seat (name : Text) : Layout → Layout
  | [] => [some name]
  | none :: l => some name :: l
  | some n :: l => some n :: seat name l

def follow (l : Layout) : SlotEvent → Layout
  | .created name => seat name l
  | .erased name => l.map fun s => s.filter (· ≠ name)
  | .emptied => []

def read (l : Layout) (e : Entry) : Layout :=
  if e.source = Engine.registrySource then
    match SlotEvent.ofMessage? e.message with
    | some event => l.follow event
    | none => l
  else l

def replay (l : Layout) (log : Log) : Layout := log.foldl read l

theorem replay_append (l : Layout) (log rest : Log) :
    l.replay (log ++ rest) = (l.replay log).replay rest :=
  List.foldl_append

theorem read_other {l : Layout} {e : Entry} (h : e.source ≠ Engine.registrySource) :
    l.read e = l :=
  if_neg h

theorem read_registry (l : Layout) (level : Level) (message : Text) :
    l.read ⟨level, message, Engine.registrySource⟩ =
      match SlotEvent.ofMessage? message with
      | some event => l.follow event
      | none => l :=
  if_pos rfl

end Layout

namespace Registry

def layout (g : Registry) : Layout := g.slots.map (·.map (·.name))

section
variable {g : Registry}

theorem seat_place (r : Record) (slots : List (Option Record)) :
    (place r slots).map (·.map (·.name)) = Layout.seat r.name (slots.map (·.map (·.name))) := by
  induction slots with
  | nil => rfl
  | cons s slots ih =>
    cases s with
    | none => rfl
    | some x => simpa [place, Layout.seat] using ih

theorem layout_add (g : Registry) (name : Text) :
    (g.add name).layout = g.layout.follow (.created name) :=
  seat_place (.fresh g.next name) g.slots

theorem layout_erase (h : g.Sound) {r : Record} (hr : r ∈ g.records) :
    (g.erase r.serial).layout = g.layout.follow (.erased r.name) := by
  have hslot : ∀ x, some x ∈ g.slots → (x.serial ≠ r.serial ↔ x.name ≠ r.name) := by
    intro x hx
    have hx : x ∈ g.records := List.mem_filterMap.mpr ⟨_, hx, rfl⟩
    constructor
    · intro hs hn
      exact hs (congrArg Record.serial (eq_of_name h hx hr hn))
    · intro hn hs
      exact hn (congrArg Record.name (eq_of_serial h hx hr hs))
  simp only [layout, erase, Layout.follow, List.map_map]
  apply List.map_congr_left
  intro s hs
  cases s with
  | none => rfl
  | some x =>
    by_cases hn : x.name = r.name
    · have hser : x.serial = r.serial := by
        by_contra hne
        exact (hslot x hs).mp hne hn
      simp [Option.filter, hn, hser]
    · simp [Option.filter, hn, (hslot x hs).mpr hn]

theorem layout_modify (g : Registry) (serial : Nat) {f : Record → Record} (hf : Gentle f) :
    (g.modify serial f).layout = g.layout := by
  simp only [layout, modify, List.map_map]
  apply List.map_congr_left
  intro s _
  cases s with
  | none => rfl
  | some x => by_cases hx : x.serial = serial <;> simp [hx, (hf x).2]

end

end Registry

namespace Engine

open Registry

/-- What was logged between `e` and `e'` accounts for what became of the slots. -/
def Accounts (e e' : Engine) : Prop :=
  e.registry.Sound → e'.registry.Sound ∧
    ∃ entries, e'.log = e.log ++ entries ∧
      e'.registry.layout = e.registry.layout.replay entries

section
variable {e e' e'' : Engine}

theorem accounts_trans (h : Accounts e e') (h' : Accounts e' e'') : Accounts e e'' := by
  intro hs
  obtain ⟨hs', entries, hlog, hlayout⟩ := h hs
  obtain ⟨hs'', rest, hlog', hlayout'⟩ := h' hs'
  refine ⟨hs'', entries ++ rest, ?_, ?_⟩
  · rw [hlog', hlog, List.append_assoc]
  · rw [hlayout', hlayout, Layout.replay_append]

theorem accounts_still (hg : e'.registry = e.registry) (hl : e'.log = e.log) :
    Accounts e e' := by
  intro hs
  exact ⟨hg ▸ hs, [], by rw [hl, List.append_nil], by rw [hg]; rfl⟩

theorem accounts_refl (e : Engine) : Accounts e e := accounts_still rfl rfl

theorem accounts_entry {level : Level} {source message : Text}
    (hl : e'.log = e.log ++ [⟨level, message, source⟩])
    (hs : e.registry.Sound → e'.registry.Sound)
    (hg : e.registry.Sound →
      e'.registry.layout = e.registry.layout.read ⟨level, message, source⟩) :
    Accounts e e' :=
  fun h => ⟨hs h, _, hl, hg h⟩

theorem accounts_note (e : Engine) {level : Level} {source message : Text}
    (h : source = registrySource → SlotEvent.ofMessage? message = none) :
    Accounts e (e.note level source message) := by
  refine accounts_entry rfl (fun hs => hs) ?_
  intro _
  by_cases hr : source = registrySource
  · subst hr
    rw [Layout.read_registry, h rfl]
    rfl
  · rw [Layout.read_other hr]
    rfl

theorem accounts_engineNote (e : Engine) (level : Level) (message : Text) :
    Accounts e (e.note level engineSource message) :=
  accounts_note e fun h => absurd h (by decide)

theorem accounts_modify (e : Engine) (serial : Nat) {f : Record → Record} (hf : Gentle f) :
    Accounts e { e with registry := e.registry.modify serial f } := by
  intro hs
  exact ⟨sound_modify hs serial hf, [], (List.append_nil _).symm, layout_modify _ serial hf⟩

end

section
variable (e : Engine)

theorem accounts_obtain (name : Text) : Accounts e (e.obtain name).1 := by
  unfold obtain
  cases hf : e.registry.find? name with
  | some r => exact accounts_refl e
  | none =>
    cases ha : e.registry.refuses name with
    | true => exact accounts_refl e
    | false =>
      apply accounts_entry rfl
      · intro hs
        exact sound_add hs hf
      · intro _
        rw [Layout.read_registry]
        exact layout_add e.registry name

/-- A handle to a record that is in no slot may still be logged as marked, but
never as erased. -/
theorem accounts_discard (serial : Nat) : Accounts e (e.discard serial) := by
  unfold discard
  cases hr : e.registry.record? serial with
  | none => exact accounts_refl e
  | some r =>
    have hserial : r.serial = serial := by simpa using List.find?_some hr
    cases hi : r.inherited with
    | true =>
      have hmark := accounts_modify e serial (f := Record.tombstoned) Record.gentle_tombstoned
      simp only [hi, if_true]
      exact accounts_trans hmark (accounts_note _ fun _ => rfl)
    | false =>
      cases hl : e.registry.isLive serial with
      | false => simpa only [hi, hl, Bool.false_eq_true, if_false] using accounts_refl e
      | true =>
        simp only [hi, Bool.false_eq_true, if_false, if_true]
        apply accounts_entry rfl
        · intro hs
          exact sound_erase hs serial
        · intro hs
          obtain ⟨s, hlive, hs'⟩ := List.any_eq_true.mp hl
          have hs' : s.serial = serial := by simpa using hs'
          have hown : s = r := by
            have hfound := record?_of_mem hs hlive
            rw [hs', hr] at hfound
            exact (Option.some.inj hfound).symm
          rw [Layout.read_registry, ← hserial]
          exact layout_erase hs (hown ▸ hlive)

theorem accounts_inherit (entry : Text) : Accounts e (e.inherit entry).1 := by
  unfold inherit
  split
  · exact accounts_note e fun _ => rfl
  · rename_i name value _
    have hobtain := accounts_obtain e (Text.upTo e.nameMax name)
    simp only
    split <;> rename_i ho <;> rw [ho] at hobtain
    · exact accounts_trans hobtain (accounts_note _ fun _ => rfl)
    · exact accounts_trans hobtain (accounts_modify _ _ fun _ => ⟨rfl, rfl⟩)

theorem accounts_inheritAll (entries : List Text) : Accounts e (e.inheritAll entries).1 := by
  induction entries generalizing e with
  | nil => exact accounts_refl e
  | cons entry entries ih => exact accounts_trans (accounts_inherit e entry) (ih _)

theorem accounts_bootstrap (entries : List Text) : Accounts e (e.bootstrap entries) :=
  accounts_trans (accounts_inheritAll e entries) (accounts_note _ fun _ => rfl)

/-- A teardown that a table stops halfway neither gives up slots nor logs it. -/
theorem accounts_teardown : Accounts e (e.teardown).1 := by
  unfold teardown
  split
  · exact accounts_still rfl rfl
  · apply accounts_entry rfl
    · exact sound_clear
    · intro _
      rw [Layout.read_registry]
      rfl

theorem accounts_store (r : Record) (value message : Text) :
    Accounts e (e.store r value message).1 := by
  have hmodify := accounts_modify e r.serial (Record.gentle_holding value)
  unfold store
  simp only
  split
  · exact hmodify
  · exact accounts_trans hmodify
      (accounts_trans (accounts_still rfl rfl) (accounts_engineNote _ _ message))

theorem accounts_setVariable (name value : Text) : Accounts e (e.setVariable name value).1 := by
  have hobtain := accounts_obtain e name
  unfold setVariable
  split <;> rename_i ho <;> rw [ho] at hobtain
  · exact accounts_trans hobtain (accounts_engineNote _ _ _)
  · exact accounts_trans hobtain (accounts_store _ _ value _)

theorem accounts_appendVariable (name value : Text) :
    Accounts e (e.appendVariable name value).1 := by
  unfold appendVariable
  split
  · exact accounts_setVariable e name value
  · split
    · exact accounts_setVariable e name value
    · exact accounts_store e _ _ _

theorem accounts_changeOption (d : Definition) (op : Operator) (value : Text) :
    Accounts e (e.changeOption d op value).1 := by
  unfold changeOption
  split
  · exact accounts_still rfl rfl
  · exact accounts_trans (accounts_still rfl rfl) (accounts_engineNote _ _ _)

theorem accounts_applyOption (scope : Scope) (name : Text) (op : Operator) (value : Text)
    (required : Bool) : Accounts e (e.applyOption scope name op value required).1 := by
  unfold applyOption
  split
  · exact accounts_changeOption e _ op value
  · split <;> exact accounts_refl e

theorem accounts_execute (target : Target) (op : Operator) (value : Text) :
    Accounts e (e.execute target op value).1 := by
  unfold execute
  split
  · split
    · exact accounts_appendVariable e _ value
    · exact accounts_setVariable e _ value
  · exact accounts_applyOption e _ _ op value true
  · exact accounts_applyOption e _ _ op value true
  · have hlocal := accounts_applyOption e .local target.name op value false
    split <;> rename_i hl <;> rw [hl] at hlocal
    · exact accounts_trans hlocal (accounts_applyOption _ _ _ op value true)
    · exact hlocal

theorem accounts_assign (t : Text) : Accounts e (e.assign t).1 := by
  unfold assign
  split
  · exact accounts_refl e
  · exact accounts_execute e _ _ _

theorem accounts_removeName (name : Text) : Accounts e (e.removeName name).1 := by
  unfold removeName
  split
  · exact accounts_refl e
  · split
    · exact accounts_refl e
    · exact accounts_trans (accounts_discard e _) (accounts_still rfl rfl)

theorem accounts_removeTokens (tokens : List (Except ParseError Text)) :
    Accounts e (e.removeTokens tokens).1 := by
  induction tokens generalizing e with
  | nil => exact accounts_refl e
  | cons token tokens ih =>
    cases token with
    | error p => exact ih e
    | ok name =>
      have hone := accounts_removeName e name
      unfold removeTokens
      split <;> rename_i hr <;> rw [hr] at hone <;> exact accounts_trans hone (ih _)

theorem accounts_remove (t : Text) : Accounts e (e.remove t).1 := by
  have htokens := accounts_removeTokens e (Removal.read e.nameMax t).tokens
  simp only [remove]
  split
  · exact htokens
  · exact accounts_trans htokens (accounts_engineNote _ _ _)

theorem accounts_act (a : Action) : Accounts e (e.act a) := by
  cases a with
  | statement s =>
    cases s with
    | assign t => exact accounts_assign e t
    | remove t => exact accounts_remove e t
  | start => exact accounts_bootstrap e _
  | bootstrap entries => exact accounts_bootstrap e entries
  | teardown => exact accounts_teardown e
  | obtain name => exact accounts_obtain e name
  | discard serial => exact accounts_discard e serial
  | refuse names =>
    intro hs
    exact ⟨⟨hs.serials, hs.bound, hs.keys⟩, [], (List.append_nil _).symm, rfl⟩
  | define d =>
    unfold act
    simp only
    split
    · exact accounts_still rfl rfl
    · exact accounts_refl e
  | change scope name how t =>
    unfold act
    simp only
    split
    · exact accounts_still rfl rfl
    · exact accounts_refl e
  | words ws => exact accounts_still rfl rfl

theorem accounts_acts (as : List Action) : Accounts e (e.acts as) := by
  induction as generalizing e with
  | nil => exact accounts_refl e
  | cons a as ih => exact accounts_trans (accounts_act e a) (ih _)

end

/-- Whatever is done to a new engine, with whatever success: the entries of its
log, replayed in order from no slots, give the names in its slots, the free
ones included. -/
theorem replay_log_eq_layout (table : Table) (options : OptionStore) (caseSensitive : Bool)
    (nameMax : Int) (refused : List Text) (as : List Action) :
    Layout.replay [] ((ofParts table options caseSensitive nameMax refused).acts as).log =
      ((ofParts table options caseSensitive nameMax refused).acts as).registry.layout := by
  have hnew := sound_empty caseSensitive refused
  obtain ⟨-, entries, hlog, hlayout⟩ :=
    accounts_acts (ofParts table options caseSensitive nameMax refused) as hnew
  have hall : ((ofParts table options caseSensitive nameMax refused).acts as).log = entries := hlog
  rw [hall, hlayout]
  rfl

example : Layout.replay [] ((ofParts .empty .standard true 64 []).acts
    [.bootstrap ["A=1".toList, "B=2".toList], .teardown, .obtain ['C'], .obtain ['D'],
      .discard 2, .discard 0, .obtain ['A']]).log = [some ['A'], some ['D']] := by
  decide +kernel

end Engine

end LetShell
