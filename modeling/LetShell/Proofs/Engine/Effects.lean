import LetShell.Proofs.Engine.Acceptance
import LetShell.Proofs.Engine.Operations
import LetShell.Proofs.Engine.Options
import LetShell.Proofs.Engine.Replay
import LetShell.Proofs.Engine.Startup
import LetShell.Proofs.Registry.Search

/-!
# What an assignment does, and to what

An assignment that succeeds gives one variable its value, under every name that
compares equal to its own, or changes one option in the scopes its target
reaches. Records, table and options are otherwise as they were. The value is
the one the right-hand side had before anything was changed.
-/

set_option autoImplicit false

namespace LetShell

namespace OptionStore

/-- The definitions of `name` in the scopes reached have been changed, and no
others. -/
structure Changed (s : OptionStore) (reached : Scope → Prop) (name : Text) (how : Change)
    (t : Text) (s' : OptionStore) : Prop where
  changed : ∀ scope d, reached scope → s.lookup scope name = some d →
    ∃ v, d.changed how t = .ok v ∧ s'.lookup scope name = some { d with value := v }
  others : ∀ scope n, ¬reached scope ∨ n ≠ name ∨ s.lookup scope n = none →
    s'.lookup scope n = s.lookup scope n

section
variable {s s' s'' : OptionStore} {name t : Text} {how : Change}

theorem changed_nothing {scope : Scope} (h : s.lookup scope name = none) :
    Changed s (· = scope) name how t s := by
  constructor
  · rintro _ d rfl hd
    rw [h] at hd
    cases hd
  · intro other n _
    rfl

theorem changed_assign {scope : Scope} {d : Definition} {v : OptionValue}
    (hd : s.lookup scope name = some d) (hv : d.changed how t = .ok v) :
    Changed s (· = scope) name how t (s.assign scope name v) := by
  constructor
  · rintro _ d' rfl hd'
    cases Option.some.inj (hd.symm.trans hd')
    refine ⟨v, hv, ?_⟩
    rw [lookup_assign, hd, Option.map_some, if_pos ⟨rfl, lookup_name hd⟩]
  · intro other n hn
    rw [lookup_assign]
    cases hl : s.lookup other n with
    | none => rfl
    | some d' =>
      have hout : ¬(other = scope ∧ d'.name = name) := by
        rintro ⟨hs, hname⟩
        rcases hn with hn | hn | hn
        · exact hn hs
        · exact hn ((lookup_name hl).symm.trans hname)
        · rw [hl] at hn
          cases hn
      rw [Option.map_some, if_neg hout]

theorem changed_trans {reached reached' : Scope → Prop} (hd : ∀ scope, reached scope → ¬reached' scope)
    (h : Changed s reached name how t s') (h' : Changed s' reached' name how t s'') :
    Changed s (fun scope => reached scope ∨ reached' scope) name how t s'' := by
  constructor
  · rintro scope d (hs | hs) hl
    · obtain ⟨v, hv, hl'⟩ := h.changed scope d hs hl
      exact ⟨v, hv, (h'.others scope name (.inl (hd scope hs))).trans hl'⟩
    · have hkept := h.others scope name (.inl fun hr => hd scope hr hs)
      exact h'.changed scope d hs (hkept.trans hl)
  · intro scope n hn
    have hsame : s'.lookup scope n = s.lookup scope n := by
      rcases hn with hn | hn | hn
      · exact h.others scope n (.inl fun hr => hn (.inl hr))
      · exact h.others scope n (.inr (.inl hn))
      · exact h.others scope n (.inr (.inr hn))
    rw [← hsame] at hn ⊢
    rcases hn with hn | hn | hn
    · exact h'.others scope n (.inl fun hr => hn (.inr hr))
    · exact h'.others scope n (.inr (.inl hn))
    · exact h'.others scope n (.inr (.inr hn))

end

end OptionStore

def Kind.Reaches : Kind → Scope → Prop
  | .environment, _ => False
  | .anyOption, _ => True
  | .globalOption, scope => scope = .global
  | .localOption, scope => scope = .local

namespace Engine

open Registry

/-- The engine `e` with a record `r` for `name`, which may be a new one. -/
structure Obtained (e : Engine) (name : Text) (r : Record) (e' : Engine) : Prop where
  own : r = (e.registry.find? name).getD (.fresh e.registry.next name)
  sound : e'.registry.Sound
  key : e'.registry.key = e.registry.key
  find : ∀ m, e'.registry.find? m =
    if e.registry.key m = e.registry.key name then some r else e.registry.find? m
  others : ∀ (i : Nat) (x : Record), x.serial ≠ r.serial →
    (e'.registry.slots[i]? = some (some x) ↔ e.registry.slots[i]? = some (some x))
  retired : e'.registry.retired = e.registry.retired
  table : e'.table = e.table
  options : e'.options = e.options

/-- The engine `e` after the variable `name` has been given `value` in the
registry, whatever the table says to it; `r` is its record. -/
structure Held (e : Engine) (name value : Text) (r : Record) (e' : Engine) : Prop where
  own : r = Record.holding value ((e.registry.find? name).getD (.fresh e.registry.next name))
  found : e'.registry.find? name = some r
  reads : ∀ m, e'.read m =
    if e.registry.key m = e.registry.key name then value else e.read m
  others : ∀ (i : Nat) (x : Record), x.serial ≠ r.serial →
    (e'.registry.slots[i]? = some (some x) ↔ e.registry.slots[i]? = some (some x))
  retired : e'.registry.retired = e.registry.retired
  options : e'.options = e.options

/-- The engine `e` after the variable `name` has been given `value` in the
registry and in the table, under the name of its record `r`. -/
structure Written (e : Engine) (name value : Text) (r : Record) (e' : Engine) : Prop
    extends Held e name value r e' where
  table : ∀ n, e'.table.get? n = if n = r.name then some value else e.table.get? n

/-- The engine `e` after an option has been changed. -/
structure Applied (e : Engine) (a : Assignment) (e' : Engine) : Prop where
  registry : e'.registry = e.registry
  table : e'.table = e.table
  found : ∃ scope d, a.target.kind.Reaches scope ∧ e.options.lookup scope a.target.name = some d
  options : e.options.Changed a.target.kind.Reaches a.target.name a.operator.change a.text
    e'.options
  switches : ∀ scope n d, e.options.lookup scope n = some d → d.type = .bool →
    e'.options.lookup scope n = some d

section
variable {e e₁ : Engine} {name v : Text} {r : Record}

theorem obtained_obtain (h : e.registry.Sound) (ho : e.obtain name = (e₁, some r)) :
    Obtained e name r e₁ := by
  unfold obtain at ho
  cases hf : e.registry.find? name with
  | some x =>
    rw [hf] at ho
    cases ho
    refine ⟨by rw [hf]; rfl, h, rfl, ?_, fun _ _ _ => Iff.rfl, rfl, rfl, rfl⟩
    intro m
    split
    · rename_i hm
      rw [← hf, find?, find?, hm]
    · rfl
  | none =>
    cases ha : e.registry.refuses name with
    | true => simp [hf, ha] at ho
    | false =>
      simp only [hf, ha, Bool.false_eq_true, if_false] at ho
      cases ho
      refine ⟨by rw [hf]; rfl, sound_add h hf, rfl, find?_add hf, ?_, rfl, rfl, rfl⟩
      intro i x hx
      exact slot_place (fun he => hx (congrArg Record.serial he)) e.registry.slots i

theorem key_obtained (h : Obtained e name r e₁) : e.registry.key r.name = e.registry.key name := by
  have hname : e₁.registry.find? name = some r := by rw [h.find, if_pos rfl]
  rw [← h.key]
  exact (find?_mem hname).2

theorem held_store (h : Obtained e name r e₁) (v message : Text) :
    Held e name v (Record.holding v r) (e₁.store r v message).1 := by
  have hreg : (e₁.store r v message).1.registry = e₁.registry.modify r.serial (Record.holding v) :=
    registry_store e₁ r v message
  have hgentle := Record.gentle_holding v
  have hname : e₁.registry.find? name = some r := by rw [h.find, if_pos rfl]
  have hr := (find?_mem hname).1
  refine ⟨congrArg _ h.own, ?_, ?_, ?_, ?_, ?_⟩
  · rw [hreg]
    exact find?_modify_own hgentle hname
  · intro m
    rw [read, Registry.read, hreg]
    by_cases hm : e.registry.key m = e.registry.key name
    · have hown : e₁.registry.find? m = some r := by rw [h.find, if_pos hm]
      rw [find?_modify_own hgentle hown, if_pos hm]
      rfl
    · have hother : e₁.registry.key m ≠ e₁.registry.key r.name := by
        rw [h.key, key_obtained h]
        exact hm
      rw [find?_modify_other h.sound hr hgentle hother, h.find, if_neg hm, if_neg hm]
      rfl
  · intro i x hx
    rw [hreg]
    exact (slot_modify hgentle hx i).trans (h.others i x hx)
  · rw [hreg, retired_modify h.sound hr]
    exact h.retired
  · rw [options_store]
    exact h.options

theorem written_store (h : Obtained e name r e₁) {message : Text}
    (hok : (e₁.store r v message).2 = .ok ()) :
    Written e name v (Record.holding v r) (e₁.store r v message).1 := by
  refine ⟨held_store h v message, ?_⟩
  intro n
  unfold store at hok ⊢
  simp only at hok ⊢
  split at hok
  · cases hok
  · rename_i t ht
    rw [← h.table]
    exact Table.get?_set ht n

theorem written_setVariable (h : e.registry.Sound) (hok : (e.setVariable name v).2 = .ok ()) :
    ∃ r, Written e name v r (e.setVariable name v).1 := by
  unfold setVariable at hok ⊢
  split at hok
  · cases hok
  · rename_i e₁ r ho
    exact ⟨_, written_store (obtained_obtain h ho) hok⟩

theorem appendVariable_cases (e : Engine) (name v : Text) :
    (e.read name = [] ∧ e.appendVariable name v = e.setVariable name v) ∨
      ∃ r message, e.obtain name = (e, some r) ∧
        e.appendVariable name v = e.store r (e.read name ++ v) message := by
  unfold appendVariable
  cases hf : e.registry.find? name with
  | none => exact .inl ⟨by simp [read, Registry.read, hf], rfl⟩
  | some r =>
    cases hr : r.removed with
    | true => exact .inl ⟨by simp [read, Registry.read, hf, hr], by simp [hr]⟩
    | false =>
      have hread : e.read name = r.value := by simp [read, Registry.read, hf, hr]
      exact .inr ⟨r, _, by simp [obtain, hf], by simp only [hr, hread]; rfl⟩

theorem written_appendVariable (h : e.registry.Sound) (hok : (e.appendVariable name v).2 = .ok ()) :
    ∃ r, Written e name (e.read name ++ v) r (e.appendVariable name v).1 := by
  rcases appendVariable_cases e name v with ⟨hread, heq⟩ | ⟨r, message, ho, heq⟩
  · rw [heq] at hok ⊢
    rw [hread]
    exact written_setVariable h hok
  · rw [heq] at hok ⊢
    exact ⟨_, written_store (obtained_obtain h ho) hok⟩

theorem written_execute (h : e.registry.Sound) {target : Target} {op : Operator}
    (hk : target.kind = .environment) (hok : (e.execute target op v).2 = .ok ()) :
    ∃ r, Written e target.name (if op = .append then e.read target.name ++ v else v) r
      (e.execute target op v).1 := by
  unfold execute at hok ⊢
  simp only [hk] at hok ⊢
  split
  · rename_i hop
    rw [if_pos hop] at hok
    exact written_appendVariable h hok
  · rename_i hop
    rw [if_neg hop] at hok
    exact written_setVariable h hok

theorem changed_applyOption (h : e.options.Twinned) {scope : Scope} {op : Operator}
    {required : Bool} (hok : (e.applyOption scope name op v required).2 = .ok ()) :
    e.options.Changed (· = scope) name op.change v
        (e.applyOption scope name op v required).1.options ∧
      (required = true → ∃ d, e.options.lookup scope name = some d) := by
  unfold applyOption at hok ⊢
  cases hd : e.options.lookup scope name with
  | none =>
    cases required with
    | true => simp [hd] at hok
    | false => exact ⟨OptionStore.changed_nothing hd, by simp⟩
  | some d =>
    simp only [hd] at hok
    refine ⟨?_, fun _ => ⟨d, rfl⟩⟩
    cases hv : d.changed op.change v with
    | error f => simp [changeOption, OptionStore.change, hv] at hok
    | ok w =>
      have hassign := OptionStore.changed_assign hd hv
      simp only [options_changeOption, OptionStore.change, hv, h.scope scope name d hd,
        OptionStore.lookup_name hd]
      exact hassign

theorem changed_execute (h : e.options.Twinned) {target : Target} {op : Operator}
    (hk : target.kind ≠ .environment) (hok : (e.execute target op v).2 = .ok ()) :
    e.options.Changed target.kind.Reaches target.name op.change v
        (e.execute target op v).1.options ∧
      ∃ scope d, target.kind.Reaches scope ∧ e.options.lookup scope target.name = some d := by
  unfold execute at hok ⊢
  cases hkind : target.kind with
  | environment => exact absurd hkind hk
  | localOption =>
    simp only [hkind] at hok
    obtain ⟨hc, hf⟩ := changed_applyOption h hok
    obtain ⟨d, hd⟩ := hf rfl
    exact ⟨hc, .local, d, rfl, hd⟩
  | globalOption =>
    simp only [hkind] at hok
    obtain ⟨hc, hf⟩ := changed_applyOption h hok
    obtain ⟨d, hd⟩ := hf rfl
    exact ⟨hc, .global, d, rfl, hd⟩
  | anyOption =>
    simp only [hkind] at hok ⊢
    have hsteps := optionSteps_applyOption h .local target.name op v false
    have hlocal : (e.applyOption .local target.name op v false).2 = .ok () → _ :=
      fun h' => changed_applyOption h h'
    cases hl : e.applyOption .local target.name op v false with
    | mk e₁ answer =>
      rw [hl] at hok hsteps hlocal
      cases answer with
      | error f => cases hok
      | ok _ =>
        obtain ⟨hc, -⟩ := hlocal rfl
        obtain ⟨hc', hf⟩ := changed_applyOption (OptionStore.twinned_steps hsteps h) hok
        obtain ⟨d, hd⟩ := hf rfl
        have hboth := OptionStore.changed_trans (by rintro _ rfl; decide) hc hc'
        have hreach : Kind.anyOption.Reaches = fun scope => scope = .local ∨ scope = .global := by
          funext scope
          cases scope <;> simp [Kind.Reaches]
        rw [hreach]
        refine ⟨hboth, .global, d, .inr rfl, ?_⟩
        rw [← hc.others .global target.name (.inl (by decide))]
        exact hd

theorem not_bool_of_permits (h : e.options.Twinned) {target : Target} {op : Operator}
    (hk : target.kind ≠ .environment) (hp : e.options.permits target op = true) {scope : Scope}
    {d : Definition} (hd : e.options.lookup scope target.name = some d) : d.type ≠ .bool := by
  have hglobal : ∃ g, e.options.lookup .global target.name = some g ∧ g.type = d.type := by
    cases scope with
    | global => exact ⟨d, hd, rfl⟩
    | «local» =>
      obtain ⟨g, hg, htype, -⟩ := h.twin _ d hd
      exact ⟨g, hg, htype⟩
  obtain ⟨g, hg, htype⟩ := hglobal
  rintro hb
  unfold OptionStore.permits at hp
  split at hp
  · rename_i hkind
    exact hk hkind
  · rw [hg] at hp
    simp [htype, hb, OptionType.kind, OptionKind.permits] at hp

theorem applied_execute (h : e.options.Twinned) {a : Assignment}
    (hk : a.target.kind ≠ .environment) (hp : e.options.permits a.target a.operator = true)
    (hok : (e.execute a.target a.operator a.text).2 = .ok ()) :
    Applied e a (e.execute a.target a.operator a.text).1 := by
  obtain ⟨hg, ht⟩ := execute_option_frame e hk a.operator a.text
  obtain ⟨hc, hf⟩ := changed_execute h hk hok
  refine ⟨hg, ht, hf, hc, ?_⟩
  intro scope n d hd hb
  have hne : n ≠ a.target.name := by
    rintro rfl
    exact not_bool_of_permits h hk hp hd hb
  exact (hc.others scope n (.inr (.inl hne))).trans hd

end

/-- A new engine over options built by defining them, after anything that can
be done to it: an assignment that succeeds computes its text in the engine as it
finds it. On a variable the name reads that text, or the old value with it
appended, and so does every name that compares equal; the other names, the
other records, the other entries of the table and all options are as they were.
On an option no definition changes but those the target reaches, nor any switch,
record or entry of the table. -/
theorem assign_effect {ds : List Declaration} {options : OptionStore}
    (hs : OptionStore.ofDeclarations ds = .ok options) (table : Table) (caseSensitive : Bool)
    (nameMax : Int) (refused : List Text) (as : List Action) {t : Text}
    (hok : (((ofParts table options caseSensitive nameMax refused).acts as).assign t).2 = .ok ()) :
    let e := (ofParts table options caseSensitive nameMax refused).acts as
    ∃ a x v, e.plan t = .ok a ∧ Assigns t a.target a.operator x ∧
      LetShell.evaluate e.context x = .ok (v, []) ∧ v.toText = .ok a.text ∧
      (a.target.kind = .environment →
        (a.operator = .assign ∧ ∃ r, Written e a.target.name a.text r (e.assign t).1) ∨
        (a.operator = .append ∧
          ∃ r, Written e a.target.name (e.read a.target.name ++ a.text) r (e.assign t).1)) ∧
      (a.target.kind ≠ .environment → Applied e a (e.assign t).1) := by
  intro e
  have hnew := sound_empty caseSensitive refused
  have hsound : e.registry.Sound := (accounts_acts _ as hnew).1
  have htwinned : e.options.Twinned := twinned_acts (OptionStore.twinned_ofDeclarations hs) as
  cases ha : e.plan t with
  | error f =>
    rw [assign_of_plan_error ha] at hok
    cases hok
  | ok a =>
    obtain ⟨x, v, hform, -, hv, htext, hp⟩ := plan_eq_ok_iff.mp ha
    have hrun := assign_of_plan_ok ha
    rw [hrun] at hok ⊢
    refine ⟨a, x, v, rfl, hform, hv, htext, ?_, ?_⟩
    · intro hk
      have hw := written_execute hsound hk hok
      have hop : a.operator = .assign ∨ a.operator = .append := by
        simpa [OptionStore.permits, hk] using hp
      rcases hop with hop | hop
      · exact .inl ⟨hop, by simpa [hop] using hw⟩
      · exact .inr ⟨hop, by simpa [hop] using hw⟩
    · intro hk
      exact applied_execute htwinned hk hp hok

theorem assign_effect_sample :
    let e := (sample []).acts [.start, .statement (.assign "$tmp = 1".toList)]
    (e.assign "$path .= ':' . $home".toList).2 = .ok () ∧
      (∃ r, Written e "path".toList "/bin:/root".toList r
        (e.assign "$path .= ':' . $home".toList).1) ∧
      (e.assign "&tabstop += $TMP".toList).2 = .ok () ∧
      Applied e ⟨⟨.anyOption, "tabstop".toList⟩, .add, ['1']⟩
        (e.assign "&tabstop += $TMP".toList).1 := by
  intro e
  have hw : (e.assign "$path .= ':' . $home".toList).2 = .ok () := by decide +kernel
  have ha : (e.assign "&tabstop += $TMP".toList).2 = .ok () := by decide +kernel
  have hplanw : e.plan "$path .= ':' . $home".toList =
      .ok ⟨⟨.environment, "path".toList⟩, .append, ":/root".toList⟩ := by decide +kernel
  have hplana : e.plan "&tabstop += $TMP".toList =
      .ok ⟨⟨.anyOption, "tabstop".toList⟩, .add, ['1']⟩ := by decide +kernel
  have hread : e.read "path".toList = "/bin".toList := by decide +kernel
  obtain ⟨a, -, -, hpa, -, -, -, hvar, -⟩ :=
    assign_effect OptionStore.standard_eq_ofDeclarations _ _ _ _ _ hw
  obtain ⟨b, -, -, hpb, -, -, -, -, hopt⟩ :=
    assign_effect OptionStore.standard_eq_ofDeclarations _ _ _ _ _ ha
  cases Except.ok.inj (hplanw.symm.trans hpa)
  cases Except.ok.inj (hplana.symm.trans hpb)
  refine ⟨hw, ?_, ha, hopt (by decide)⟩
  rcases hvar rfl with ⟨hop, -⟩ | ⟨-, r, hr⟩
  · cases hop
  · change Written e "path".toList (e.read "path".toList ++ ":/root".toList) r _ at hr
    rw [hread] at hr
    exact ⟨r, hr⟩

end Engine

end LetShell
