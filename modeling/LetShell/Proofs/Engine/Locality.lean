import LetShell.Proofs.Engine.Effects
import LetShell.Proofs.Engine.SelfAppend

/-!
# The effect of an assignment

What shows of an engine is, for each name, the record that is found and the
entry of the table, and the options. Over a private table an assignment does one
of three things to it: nothing, one variable gets a value, or the definitions of
one option do. Which of them, and the answer, follow from what the target and
the expression refer to; slots and serial numbers play no part.
-/

set_option autoImplicit false

namespace LetShell

/-- What shows of a record. -/
structure Sight where
  name : Text
  value : Text
  removed : Bool
  deriving DecidableEq, Repr

def Record.sight (r : Record) : Sight := ⟨r.name, r.value, r.removed⟩

/-- What shows of an engine, with what it was set up with. -/
@[ext]
structure View where
  sight : Text → Option Sight
  entry : Text → Option Text
  options : OptionStore
  key : Text → Text
  refuses : Text → Bool
  nameMax : Int

def OptionStore.revise (s : OptionStore) (name : Text) (values : List (Scope × OptionValue)) :
    OptionStore :=
  values.foldl (fun s p => s.assign p.1 name p.2) s

/-- `own` is the name that the record has. -/
inductive Effect where
  | none
  | write (name own value : Text)
  | revise (name : Text) (values : List (Scope × OptionValue))
  deriving DecidableEq, Repr

def Effect.apply : Effect → View → View
  | .none, w => w
  | .write name own value, w => { w with
      sight := fun m => if w.key m = w.key name then some ⟨own, value, false⟩ else w.sight m
      entry := fun n => if n = own then some value else w.entry n }
  | .revise name values, w => { w with options := w.options.revise name values }

namespace OptionStore

section
variable {s : OptionStore} {name : Text} {values : List (Scope × OptionValue)}

theorem lookup_revise {scope : Scope} {sought : Text}
    (h : ∀ p ∈ values, p.1 = scope → name = sought → s.lookup scope sought = none) :
    (s.revise name values).lookup scope sought = s.lookup scope sought := by
  induction values generalizing s with
  | nil => rfl
  | cons p values ih =>
    have hone : (s.assign p.1 name p.2).lookup scope sought = s.lookup scope sought := by
      rw [lookup_assign]
      cases hd : s.lookup scope sought with
      | none => rfl
      | some d =>
        have hother : ¬(scope = p.1 ∧ d.name = name) := by
          rintro ⟨hs, hn⟩
          have hnone := h p (List.mem_cons_self ..) hs.symm (hn.symm.trans (lookup_name hd))
          rw [hd] at hnone
          cases hnone
        rw [Option.map_some, if_neg hother]
    have hrest : ∀ q ∈ values, q.1 = scope → name = sought →
        (s.assign p.1 name p.2).lookup scope sought = none := by
      intro q hq hs hn
      rw [hone]
      exact h q (List.mem_cons_of_mem p hq) hs hn
    exact (ih hrest).trans hone

theorem permits_assign (s : OptionStore) (scope : Scope) (name : Text) (v : OptionValue)
    (target : Target) (op : Operator) :
    (s.assign scope name v).permits target op = s.permits target op := by
  unfold permits
  split
  · rfl
  · rw [lookup_assign]
    cases s.lookup .global target.name with
    | none => rfl
    | some d =>
      simp only [Option.map_some]
      split <;> rfl

theorem permits_revise (s : OptionStore) (name : Text) (values : List (Scope × OptionValue))
    (target : Target) (op : Operator) :
    (s.revise name values).permits target op = s.permits target op := by
  induction values generalizing s with
  | nil => rfl
  | cons p values ih => exact (ih _).trans (permits_assign s p.1 name p.2 target op)

theorem revise_append (s : OptionStore) (name : Text) (vs ws : List (Scope × OptionValue)) :
    s.revise name (vs ++ ws) = (s.revise name vs).revise name ws := List.foldl_append

end

/-- What a change of a definition that was looked up comes to: the value it
gets, if any, and the answer. -/
def revision (found : Option Definition) (scope : Scope) (name : Text) (op : Operator)
    (value : Text) (required : Bool) :
    List (Scope × OptionValue) × Except (Failure VariableError) Unit :=
  match found with
  | none => ([], if required then .error (.error (.unknownOption name scope)) else .ok ())
  | some d =>
    match d.changed op.change value with
    | .error f => ([], .error (f.map .option))
    | .ok v => ([(scope, v)], .ok ())

def revisions (s : OptionStore) (target : Target) (op : Operator) (value : Text) :
    List (Scope × OptionValue) × Except (Failure VariableError) Unit :=
  let one := fun scope required =>
    revision (s.lookup scope target.name) scope target.name op value required
  match target.kind with
  | .environment => ([], .ok ())
  | .localOption => one .local true
  | .globalOption => one .global true
  | .anyOption =>
    match one .local false with
    | (vs, .error f) => (vs, .error f)
    | (vs, .ok ()) => (vs ++ (one .global true).1, (one .global true).2)

section
variable {s s' : OptionStore} {target : Target} {op : Operator} {value name : Text} {scope : Scope}
variable {required : Bool} {p : Scope × OptionValue}

theorem mem_revision (h : p ∈ (revision (s.lookup scope name) scope name op value required).1) :
    p.1 = scope ∧ s.lookup scope name ≠ none := by
  unfold revision at h
  split at h
  · cases h
  · rename_i d hd
    split at h
    · cases h
    · rw [List.mem_singleton.mp h, hd]
      exact ⟨rfl, nofun⟩

theorem mem_revisions (h : p ∈ (s.revisions target op value).1) :
    target.kind.Reaches p.1 ∧ s.lookup p.1 target.name ≠ none := by
  unfold revisions at h
  cases hk : target.kind with
  | environment =>
    simp only [hk] at h
    cases h
  | localOption =>
    simp only [hk] at h
    obtain ⟨hp, hd⟩ := mem_revision h
    exact ⟨hp, hp ▸ hd⟩
  | globalOption =>
    simp only [hk] at h
    obtain ⟨hp, hd⟩ := mem_revision h
    exact ⟨hp, hp ▸ hd⟩
  | anyOption =>
    simp only [hk] at h
    refine ⟨trivial, ?_⟩
    split at h
    · rename_i hone
      obtain ⟨hp, hd⟩ := mem_revision (by rw [hone]; exact h)
      exact hp ▸ hd
    · rename_i hone
      rcases List.mem_append.mp h with h | h
      · obtain ⟨hp, hd⟩ := mem_revision (by rw [hone]; exact h)
        exact hp ▸ hd
      · obtain ⟨hp, hd⟩ := mem_revision h
        exact hp ▸ hd

theorem revisions_congr (h : ∀ scope, target.kind.Reaches scope →
      s'.lookup scope target.name = s.lookup scope target.name) :
    s'.revisions target op value = s.revisions target op value := by
  unfold revisions
  cases hk : target.kind with
  | environment => rfl
  | localOption => simp only [h .local (hk ▸ rfl)]
  | globalOption => simp only [h .global (hk ▸ rfl)]
  | anyOption => simp only [h .local (hk ▸ trivial), h .global (hk ▸ trivial)]

end

end OptionStore

namespace Engine

def sight (e : Engine) (name : Text) : Option Sight := (e.registry.find? name).map Record.sight

def view (e : Engine) : View :=
  ⟨e.sight, e.table.get?, e.options, e.registry.key, e.registry.refuses, e.nameMax⟩

def writing (found : Option Sight) (refused : Bool) (name value : Text) :
    Effect × Except (Failure VariableError) Unit :=
  match found with
  | some s => (.write name s.name value, .ok ())
  | none =>
    if refused then (.none, .error (.error .allocation)) else (.write name name value, .ok ())

/-- What carrying out an assignment comes to. -/
def effectOf (e : Engine) (a : Assignment) : Effect × Except (Failure VariableError) Unit :=
  match a.target.kind with
  | .environment =>
    writing (e.sight a.target.name) (e.registry.refuses a.target.name) a.target.name
      (if a.operator = .append then e.read a.target.name ++ a.text else a.text)
  | _ =>
    let revised := e.options.revisions a.target a.operator a.text
    (.revise a.target.name revised.1, revised.2)

def effect (e : Engine) (t : Text) : Effect × Except (Failure VariableError) Unit :=
  match e.plan t with
  | .error f => (.none, .error f)
  | .ok a => e.effectOf a

section
variable {e e₁ : Engine} {name value : Text} {r : Record}

theorem read_eq_sight (e : Engine) (name : Text) :
    e.read name = match e.sight name with
      | some s => if s.removed then [] else s.value
      | none => [] := by
  unfold read Registry.read sight
  cases e.registry.find? name <;> rfl

theorem view_of_coincide {o o' : Outcome Unit} (h : Coincide o o')
    (hn : o.1.nameMax = o'.1.nameMax) : o.1.view = o'.1.view := by
  unfold view sight
  rw [h.registry, h.table, h.options, hn]

theorem nameMax_store (e : Engine) (r : Record) (value message : Text) :
    (e.store r value message).1.nameMax = e.nameMax := by
  unfold store
  simp only
  split <;> rfl

theorem nameMax_obtain (e : Engine) (name : Text) : (e.obtain name).1.nameMax = e.nameMax := by
  unfold obtain
  split
  · rfl
  · split <;> rfl

theorem refuses_obtain (e : Engine) (name : Text) :
    (e.obtain name).1.registry.refuses = e.registry.refuses := by
  unfold obtain
  split
  · rfl
  · split <;> rfl

theorem view_store (h : Obtained e name r e₁) (hm : e.table.kind = .ofMemory)
    (hn : e₁.nameMax = e.nameMax) (hr : e₁.registry.refuses = e.registry.refuses)
    (message : Text) :
    (e₁.store r value message).1.view = (Effect.write name r.name value).apply e.view ∧
      (e₁.store r value message).2 = .ok () := by
  have hgentle := Record.gentle_holding value
  have hname : e₁.registry.find? name = some r := by rw [h.find, if_pos rfl]
  obtain ⟨hmem, hkey⟩ := Registry.find?_mem hname
  obtain ⟨hg, ht⟩ := store_ofMemory (e := e₁) (h.table ▸ hm) r value message
  constructor
  · ext1
    · funext m
      show (Option.map Record.sight ((e₁.store r value message).1.registry.find? m)) =
        if e.registry.key m = e.registry.key name then some ⟨r.name, value, false⟩ else e.sight m
      rw [hg]
      by_cases hk : e.registry.key m = e.registry.key name
      · have hown : e₁.registry.find? m = some r := by rw [h.find, if_pos hk]
        rw [if_pos hk, Registry.find?_modify_own hgentle hown]
        rfl
      · have hother : e₁.registry.key m ≠ e₁.registry.key r.name := by
          rw [hkey, h.key]
          exact hk
        rw [if_neg hk, Registry.find?_modify_other h.sound hmem hgentle hother, h.find, if_neg hk]
        rfl
    · funext n
      exact (Table.get?_set ht n).trans (by rw [h.table]; rfl)
    · exact (options_store e₁ r value message).trans h.options
    · show (e₁.store r value message).1.registry.key = e.registry.key
      rw [hg, Registry.key_modify, h.key]
    · show (e₁.store r value message).1.registry.refuses = e.registry.refuses
      rw [hg]
      exact hr
    · exact (nameMax_store e₁ r value message).trans hn
  · unfold store
    simp only [Table.set_ofMemory (h.table ▸ hm : e₁.table.kind = .ofMemory)]

theorem view_setVariable (h : e.Regular) (name value : Text) :
    (e.setVariable name value).1.view =
        (writing (e.sight name) (e.registry.refuses name) name value).1.apply e.view ∧
      (e.setVariable name value).2 =
        (writing (e.sight name) (e.registry.refuses name) name value).2 := by
  have hn := nameMax_obtain e name
  have hr := refuses_obtain e name
  -- The record that is written to has the name that was seen, or the name given.
  have hstore : ∀ e₁ r, e.obtain name = (e₁, some r) →
      (e.setVariable name value).1.view = (Effect.write name r.name value).apply e.view ∧
        (e.setVariable name value).2 = .ok () := by
    intro e₁ r ho
    rw [ho] at hn hr
    have hset : e.setVariable name value = e₁.store r value ("set $".toList ++ name) := by
      simp only [setVariable, ho]
    rw [hset]
    exact view_store (obtained_obtain h.sound ho) h.memory hn hr _
  cases hf : e.registry.find? name with
  | some r =>
    have ho : e.obtain name = (e, some r) := by simp only [obtain, hf]
    have hsight : e.sight name = some r.sight := by rw [sight, hf, Option.map_some]
    rw [hsight]
    exact hstore e r ho
  | none =>
    have hsight : e.sight name = none := by rw [sight, hf, Option.map_none]
    rw [hsight]
    cases ha : e.registry.refuses name with
    | true =>
      have ho : e.obtain name = (e, none) := by simp only [obtain, hf, ha, if_true]
      unfold setVariable
      rw [ho]
      exact ⟨rfl, rfl⟩
    | false =>
      have ho : ∃ e₁, e.obtain name = (e₁, some (.fresh e.registry.next name)) := by
        simp only [obtain, hf, ha, Bool.false_eq_true, if_false]
        exact ⟨_, rfl⟩
      obtain ⟨e₁, ho⟩ := ho
      exact hstore e₁ _ ho

theorem nameMax_setVariable (e : Engine) (name value : Text) :
    (e.setVariable name value).1.nameMax = e.nameMax := by
  have hn := nameMax_obtain e name
  unfold setVariable
  split
  · rename_i ho
    rw [ho] at hn
    exact hn
  · rename_i ho
    rw [ho] at hn
    exact (nameMax_store ..).trans hn

theorem nameMax_appendVariable (e : Engine) (name value : Text) :
    (e.appendVariable name value).1.nameMax = e.nameMax := by
  unfold appendVariable
  split
  · exact nameMax_setVariable e name value
  · split
    · exact nameMax_setVariable e name value
    · exact nameMax_store ..

theorem view_appendVariable (h : e.Regular) (name value : Text) :
    (e.appendVariable name value).1.view =
        (writing (e.sight name) (e.registry.refuses name) name (e.read name ++ value)).1.apply
          e.view ∧
      (e.appendVariable name value).2 =
        (writing (e.sight name) (e.registry.refuses name) name (e.read name ++ value)).2 := by
  have hcoincide := coincide_appendVariable e name value
  obtain ⟨hview, hanswer⟩ := view_setVariable h name (e.read name ++ value)
  have hn := nameMax_appendVariable e name value
  rw [← nameMax_setVariable e name (e.read name ++ value)] at hn
  exact ⟨(view_of_coincide hcoincide hn).trans hview, hcoincide.answer.trans hanswer⟩

end

section
variable {e : Engine} {target : Target}

theorem applyOption_revision (h : e.options.Twinned) (scope : Scope) (name : Text) (op : Operator)
    (value : Text) (required : Bool) :
    let revised := OptionStore.revision (e.options.lookup scope name) scope name op value required
    (e.applyOption scope name op value required).1.view =
        (Effect.revise name revised.1).apply e.view ∧
      (e.applyOption scope name op value required).2 = revised.2 := by
  unfold applyOption OptionStore.revision
  cases hd : e.options.lookup scope name with
  | none => cases required <;> exact ⟨rfl, rfl⟩
  | some d =>
    simp only [changeOption, OptionStore.change]
    cases d.changed op.change value with
    | error f => exact ⟨rfl, rfl⟩
    | ok v =>
      rw [h.scope scope name d hd, OptionStore.lookup_name hd]
      exact ⟨rfl, rfl⟩

/-- The definitions of all scopes are looked up before any of them changes. -/
theorem execute_revisions (h : e.options.Twinned) (hk : target.kind ≠ .environment)
    (op : Operator) (value : Text) :
    let revised := e.options.revisions target op value
    (e.execute target op value).1.view = (Effect.revise target.name revised.1).apply e.view ∧
      (e.execute target op value).2 = revised.2 := by
  unfold execute OptionStore.revisions
  cases hkind : target.kind with
  | environment => exact absurd hkind hk
  | localOption => exact applyOption_revision h .local target.name op value true
  | globalOption => exact applyOption_revision h .global target.name op value true
  | anyOption =>
    have hone := applyOption_revision h .local target.name op value false
    have htwinned := OptionStore.twinned_steps
      (optionSteps_applyOption h .local target.name op value false) h
    cases happly : e.applyOption .local target.name op value false with
    | mk e₁ answer =>
      rw [happly] at hone htwinned
      cases hr : OptionStore.revision (e.options.lookup .local target.name) .local target.name op
          value false with
      | mk vs answer' =>
        simp only [hr] at hone
        obtain ⟨hview, rfl⟩ := hone
        cases answer with
        | error f =>
          simpa only [hr, and_true] using hview
        | ok _ =>
          have hoptions : e₁.options = e.options.revise target.name vs :=
            congrArg View.options hview
          have hglobal : e₁.options.lookup .global target.name =
              e.options.lookup .global target.name := by
            rw [hoptions]
            apply OptionStore.lookup_revise
            intro p hp hscope
            have hmem := OptionStore.mem_revision (s := e.options) (by rw [hr]; exact hp)
            exact absurd (hmem.1.symm.trans hscope) (by decide)
          have htwo := applyOption_revision htwinned .global target.name op value true
          rw [hglobal] at htwo
          simp only [hr]
          refine ⟨?_, htwo.2⟩
          rw [htwo.1, hview]
          simp only [Effect.apply, OptionStore.revise_append]

theorem view_execute (h : e.Regular) (ht : e.options.Twinned) (a : Assignment) :
    (e.execute a.target a.operator a.text).1.view = (e.effectOf a).1.apply e.view ∧
      (e.execute a.target a.operator a.text).2 = (e.effectOf a).2 := by
  by_cases hk : a.target.kind = .environment
  · unfold execute effectOf
    simp only [hk]
    split
    · exact view_appendVariable h a.target.name a.text
    · exact view_setVariable h a.target.name a.text
  · have hrevised := execute_revisions ht hk a.operator a.text
    unfold effectOf
    split
    · rename_i hkind
      exact absurd hkind hk
    · exact hrevised

theorem view_assign (h : e.Regular) (ht : e.options.Twinned) (t : Text) :
    (e.assign t).1.view = (e.effect t).1.apply e.view ∧ (e.assign t).2 = (e.effect t).2 := by
  unfold assign effect
  cases e.plan t with
  | error f => exact ⟨rfl, rfl⟩
  | ok a => exact view_execute h ht a

end

/-- The engine `e'` gives an assignment the same to work on as `e`. -/
structure Unaffected (e e' : Engine) (t : Text) : Prop where
  nameMax : e'.nameMax = e.nameMax
  refuses : e'.registry.refuses = e.registry.refuses
  value : ∀ target op x, Assigns t target op x →
    LetShell.evaluate e'.context x = LetShell.evaluate e.context x
  permits : ∀ target op, e'.options.permits target op = e.options.permits target op
  sight : ∀ target op x, Assigns t target op x → target.kind = .environment →
    e'.sight target.name = e.sight target.name
  lookup : ∀ target op x, Assigns t target op x → ∀ scope, target.kind.Reaches scope →
    e'.options.lookup scope target.name = e.options.lookup scope target.name

section
variable {e e' : Engine} {t : Text}

theorem plan_unaffected (h : Unaffected e e' t) : e'.plan t = e.plan t := by
  unfold plan
  rw [h.nameMax]
  cases ht : Target.read e.nameMax t.trimStart with
  | error p => rfl
  | ok first =>
    obtain ⟨target, rest⟩ := first
    simp only
    cases ho : Operator.read (Text.trimStart rest) with
    | error p => rfl
    | ok second =>
      obtain ⟨op, x⟩ := second
      obtain ⟨hform, -⟩ := assigns_of_reads ht ho
      simp only
      rw [h.value target op x hform, h.permits]

theorem effectOf_unaffected (h : Unaffected e e' t) {a : Assignment} {x : Text}
    (hform : Assigns t a.target a.operator x) : e'.effectOf a = e.effectOf a := by
  have hlookup := h.lookup a.target a.operator x hform
  unfold effectOf
  split
  · rename_i hk
    have hsight := h.sight a.target a.operator x hform hk
    simp only [hsight, read_eq_sight, h.refuses]
  · simp only [OptionStore.revisions_congr hlookup]

theorem effect_unaffected (h : Unaffected e e' t) : e'.effect t = e.effect t := by
  unfold effect
  rw [plan_unaffected h]
  cases hp : e.plan t with
  | error f => rfl
  | ok a =>
    obtain ⟨x, hform, -⟩ := plan_sound hp
    exact effectOf_unaffected h hform

end

def Within (e : Engine) (target : Target) : Effect → Prop
  | .none => True
  | .write name own _ =>
    target.kind = .environment ∧ name = target.name ∧ e.registry.key own = e.registry.key name
  | .revise name values => name = target.name ∧
    ∀ p ∈ values, target.kind.Reaches p.1 ∧ e.options.lookup p.1 name ≠ none

section
variable {e : Engine} {t : Text}

theorem within_effectOf (e : Engine) (a : Assignment) : e.Within a.target (e.effectOf a).1 := by
  unfold effectOf
  split
  · rename_i hk
    unfold writing
    split
    · rename_i s hs
      obtain ⟨r, hr, rfl⟩ := Option.map_eq_some_iff.mp hs
      exact ⟨hk, rfl, (Registry.find?_mem hr).2⟩
    · split
      · trivial
      · exact ⟨hk, rfl, rfl⟩
  · exact ⟨rfl, fun p hp => OptionStore.mem_revisions hp⟩

theorem within_effect (e : Engine) (t : Text) : (e.effect t).1 = .none ∨
    ∃ target op x, Assigns t target op x ∧ e.Within target (e.effect t).1 := by
  unfold effect
  cases hp : e.plan t with
  | error f => exact .inl rfl
  | ok a =>
    obtain ⟨x, hform, -⟩ := plan_sound hp
    exact .inr ⟨a.target, a.operator, x, hform, within_effectOf e a⟩

end

end Engine

end LetShell
