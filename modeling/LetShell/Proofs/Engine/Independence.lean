import LetShell.Proofs.Engine.Locality
import LetShell.Proofs.Engine.Regularity
import LetShell.Proofs.Expression.References

/-!
# Independent assignments

Two assignments are independent if they name different variables or different
definitions and neither reads what the other names. The second then finds all it
works on as it was before the first, so it has the effect and the answer that
it would have had by itself, and the two effects may come in either order. Slots
and serial numbers may differ; they do not show.
-/

set_option autoImplicit false

namespace LetShell
open Expression

namespace OptionStore

section
variable {name name' : Text}

theorem eq_of_partition {s s' : OptionStore}
    (h : ∀ scope, s.partition scope = s'.partition scope) : s = s' := by
  obtain ⟨globals, locals⟩ := s
  obtain ⟨globals', locals'⟩ := s'
  obtain rfl : globals = globals' := h .global
  obtain rfl : locals = locals' := h .local
  rfl

theorem assign_comm {scope scope' : Scope} (h : scope ≠ scope' ∨ name ≠ name') (s : OptionStore)
    (v v' : OptionValue) :
    (s.assign scope name v).assign scope' name' v' =
      (s.assign scope' name' v').assign scope name v := by
  have hpart : ∀ other, ((s.assign scope name v).assign scope' name' v').partition other =
      ((s.assign scope' name' v').assign scope name v).partition other := by
    intro other
    simp only [partition_assign, List.map_map]
    apply List.map_congr_left
    intro d _
    dsimp only [Function.comp_apply]
    by_cases hown : other = scope ∧ d.name = name
    · have hother : ¬(other = scope' ∧ d.name = name') := by
        rintro ⟨rfl, rfl⟩
        exact h.elim (fun hs => hs hown.1.symm) (fun hn => hn hown.2.symm)
      rw [if_neg hother, if_pos hown]
      exact if_neg hother
    · rw [if_neg hown]
      by_cases hother : other = scope' ∧ d.name = name'
      · rw [if_pos hother]
        exact (if_neg hown).symm
      · rw [if_neg hother]
        exact (if_neg hown).symm
  exact eq_of_partition hpart

theorem revise_comm {vs ws : List (Scope × OptionValue)}
    (h : ∀ p ∈ vs, ∀ q ∈ ws, p.1 ≠ q.1 ∨ name ≠ name') (s : OptionStore) :
    (s.revise name vs).revise name' ws = (s.revise name' ws).revise name vs := by
  induction vs generalizing s with
  | nil => rfl
  | cons p vs ih =>
    have hone : ∀ u : OptionStore, (u.assign p.1 name p.2).revise name' ws =
        (u.revise name' ws).assign p.1 name p.2 := by
      have hp := h p (List.mem_cons_self ..)
      clear ih h
      intro u
      induction ws generalizing u with
      | nil => rfl
      | cons q ws ih =>
        show ((u.assign p.1 name p.2).assign q.1 name' q.2).revise name' ws = _
        rw [assign_comm (hp q (List.mem_cons_self ..))]
        exact ih (fun r hr => hp r (List.mem_cons_of_mem q hr)) _
    show ((s.assign p.1 name p.2).revise name vs).revise name' ws = _
    rw [ih (fun r hr => h r (List.mem_cons_of_mem p hr)), hone]
    rfl

end

end OptionStore

namespace Effect

section
variable (x : Effect) (w : View)

@[simp] theorem apply_refuses : (x.apply w).refuses = w.refuses := by cases x <;> rfl

@[simp] theorem apply_nameMax : (x.apply w).nameMax = w.nameMax := by cases x <;> rfl

theorem apply_permits (target : Target) (op : Operator) :
    (x.apply w).options.permits target op = w.options.permits target op := by
  cases x with
  | none => rfl
  | write => rfl
  | revise name values => exact OptionStore.permits_revise w.options name values target op

end

end Effect

namespace Engine

/-- Both targets name one variable, or one definition of the store. -/
def Meets (e : Engine) (a b : Target) : Prop :=
  (a.kind = .environment ∧ b.kind = .environment ∧
    e.registry.key a.name = e.registry.key b.name) ∨
  (a.name = b.name ∧ ∃ scope, a.kind.Reaches scope ∧ b.kind.Reaches scope ∧
    e.options.lookup scope a.name ≠ none)

/-- The expression reads the variable that the target names, or the option whose
global definition it names. -/
def ReadBy (e : Engine) (a : Target) (x : Text) : Prop :=
  (a.kind = .environment ∧ ∃ name, Asks e.context x (.variable name) ∧
    e.registry.key name = e.registry.key a.name) ∨
  (a.kind.Reaches .global ∧ Asks e.context x (.option a.name))

/-- Neither text assigns to what the other one assigns to or reads. -/
def Independent (e : Engine) (s t : Text) : Prop :=
  ∀ a op x b op' y, Assigns s a op x → Assigns t b op' y →
    ¬e.Meets a b ∧ ¬e.ReadBy a y ∧ ¬e.ReadBy b x

section
variable {e : Engine} {a b : Target} {x y : Effect} {s t : Text}

theorem meets_symm (h : e.Meets a b) : e.Meets b a := by
  rcases h with ⟨ha, hb, hk⟩ | ⟨hn, scope, ha, hb, hd⟩
  · exact .inl ⟨hb, ha, hk.symm⟩
  · exact .inr ⟨hn.symm, scope, hb, ha, hn ▸ hd⟩

theorem independent_symm (h : e.Independent s t) : e.Independent t s := by
  intro b op' y a op x hb ha
  obtain ⟨hmeets, hread, hread'⟩ := h a op x b op' y ha hb
  exact ⟨fun hm => hmeets (meets_symm hm), hread', hread⟩

theorem sight_apply (h : e.Within a x) {name : Text}
    (hn : a.kind = .environment → e.registry.key name ≠ e.registry.key a.name) :
    (x.apply e.view).sight name = e.sight name := by
  cases x with
  | none => rfl
  | write name' own value =>
    obtain ⟨hk, rfl, -⟩ := h
    exact if_neg (hn hk)
  | revise => rfl

theorem lookup_apply (h : e.Within a x) {scope : Scope} {name : Text}
    (hn : a.name = name → a.kind.Reaches scope → e.options.lookup scope name = none) :
    (x.apply e.view).options.lookup scope name = e.options.lookup scope name := by
  cases x with
  | none => rfl
  | write => rfl
  | revise name' values =>
    obtain ⟨rfl, hvalues⟩ := h
    apply OptionStore.lookup_revise
    rintro p hp rfl hname
    exact hn hname (hvalues p hp).1

/-- Effects within targets that do not meet may come in either order. -/
theorem apply_comm (hx : e.Within a x) (hy : e.Within b y) (h : ¬e.Meets a b) :
    x.apply (y.apply e.view) = y.apply (x.apply e.view) := by
  cases x with
  | none => rfl
  | write name own value =>
    cases y with
    | none => rfl
    | write name' own' value' =>
      obtain ⟨ha, rfl, hown⟩ := hx
      obtain ⟨hb, rfl, hown'⟩ := hy
      have hkey : e.registry.key a.name ≠ e.registry.key b.name := fun hk => h (.inl ⟨ha, hb, hk⟩)
      have hne : own ≠ own' := by
        rintro rfl
        exact hkey (hown.symm.trans hown')
      ext1
      · funext m
        show (if e.registry.key m = e.registry.key a.name then some ⟨own, value, false⟩
            else if e.registry.key m = e.registry.key b.name then some ⟨own', value', false⟩
              else e.sight m) =
          if e.registry.key m = e.registry.key b.name then some ⟨own', value', false⟩
            else if e.registry.key m = e.registry.key a.name then some ⟨own, value, false⟩
              else e.sight m
        split
        · rename_i hm
          rw [if_neg fun hk => hkey (hm.symm.trans hk)]
        · rfl
      · funext n
        show (if n = own then some value else if n = own' then some value' else e.table.get? n) =
          if n = own' then some value' else if n = own then some value else e.table.get? n
        split
        · rename_i hn
          rw [if_neg fun hn' => hne (hn.symm.trans hn')]
        · rfl
      · rfl
      · rfl
      · rfl
      · rfl
    | revise => rfl
  | revise name values =>
    cases y with
    | none => rfl
    | write => rfl
    | revise name' values' =>
      obtain ⟨rfl, hvalues⟩ := hx
      obtain ⟨rfl, hvalues'⟩ := hy
      have hother : ∀ p ∈ values', ∀ q ∈ values, p.1 ≠ q.1 ∨ b.name ≠ a.name := by
        intro p hp q hq
        by_contra hno
        rw [not_or, not_not, not_not] at hno
        obtain ⟨hscope, hname⟩ := hno
        obtain ⟨hreach, hd⟩ := hvalues q hq
        exact h (.inr ⟨hname.symm, q.1, hreach, hscope ▸ (hvalues' p hp).1, hd⟩)
      simp only [Effect.apply]
      rw [OptionStore.revise_comm hother]

theorem unaffected_assign (h : e.Regular) (ht : e.options.Twinned) (hi : e.Independent s t) :
    e.Unaffected (e.assign s).1 t := by
  obtain ⟨hview, -⟩ := view_assign h ht s
  have hoptions : (e.assign s).1.options = ((e.effect s).1.apply e.view).options :=
    congrArg View.options hview
  have hsight : ∀ name,
      (∀ a op x, Assigns s a op x → a.kind = .environment →
        e.registry.key name ≠ e.registry.key a.name) →
      (e.assign s).1.sight name = e.sight name := by
    intro name hother
    refine (congrFun (congrArg View.sight hview) name).trans ?_
    rcases within_effect e s with hnone | ⟨a, op, x, ha, hwithin⟩
    · rw [hnone]
      rfl
    · exact sight_apply hwithin (hother a op x ha)
  have hlookup : ∀ scope name,
      (∀ a op x, Assigns s a op x → a.name = name → a.kind.Reaches scope →
        e.options.lookup scope name = none) →
      (e.assign s).1.options.lookup scope name = e.options.lookup scope name := by
    intro scope name hother
    rw [hoptions]
    rcases within_effect e s with hnone | ⟨a, op, x, ha, hwithin⟩
    · rw [hnone]
      rfl
    · exact lookup_apply hwithin (hother a op x ha)
  have hrefuses : (e.assign s).1.registry.refuses = e.registry.refuses :=
    (congrArg View.refuses hview).trans (Effect.apply_refuses _ _)
  have hnameMax : (e.assign s).1.nameMax = e.nameMax :=
    (congrArg View.nameMax hview).trans (Effect.apply_nameMax _ _)
  have hpermits : ∀ target op,
      (e.assign s).1.options.permits target op = e.options.permits target op := by
    intro target op
    rw [hoptions]
    exact Effect.apply_permits _ _ target op
  refine ⟨hnameMax, hrefuses, ?_, hpermits, ?_, ?_⟩
  · intro b op' y hb
    have hagree : Agree e.context (e.assign s).1.context y := by
      constructor
      · intro name hasks
        show e.read name = (e.assign s).1.read name
        rw [read_eq_sight, read_eq_sight, hsight name fun a op x ha hk hkey =>
          (hi a op x b op' y ha hb).2.1 (.inl ⟨hk, name, hasks, hkey⟩)]
      · intro name hasks
        show (e.readOption name).bind _ = ((e.assign s).1.readOption name).bind _
        rw [readOption, readOption, hlookup .global name]
        rintro a op x ha rfl hreach
        exact absurd (.inr ⟨hreach, hasks⟩) (hi a op x b op' y ha hb).2.1
    exact (evaluate_agrees hagree).symm
  · intro b op' y hb hk
    apply hsight
    intro a op x ha hk' hkey
    exact (hi a op x b op' y ha hb).1 (.inl ⟨hk', hk, hkey.symm⟩)
  · intro b op' y hb scope hreach
    apply hlookup
    intro a op x ha hname hreach'
    by_contra hd
    exact (hi a op x b op' y ha hb).1 (.inr ⟨hname, scope, hreach', hreach, hname ▸ hd⟩)

theorem effects_comm (hi : e.Independent s t) :
    (e.effect s).1.apply ((e.effect t).1.apply e.view) =
      (e.effect t).1.apply ((e.effect s).1.apply e.view) := by
  rcases within_effect e s with hnone | ⟨a, op, x, ha, hwithin⟩
  · rw [hnone]
    rfl
  · rcases within_effect e t with hnone | ⟨b, op', y, hb, hwithin'⟩
    · rw [hnone]
      rfl
    · exact apply_comm hwithin hwithin' (hi a op x b op' y ha hb).1

/-- After an independent assignment, another has the effect and the answer that
it would have had before. -/
theorem view_after (h : e.Regular) (ht : e.options.Twinned) (hi : e.Independent s t) :
    ((e.assign s).1.assign t).1.view = (e.effect t).1.apply ((e.effect s).1.apply e.view) ∧
      ((e.assign s).1.assign t).2 = (e.assign t).2 := by
  have hregular := regular_step h (step_assign h.memory s)
  have htwinned := OptionStore.twinned_steps (optionSteps_assign ht s) ht
  obtain ⟨hview, hanswer⟩ := view_assign hregular htwinned t
  rw [effect_unaffected (unaffected_assign h ht hi)] at hview hanswer
  rw [(view_assign h ht s).1] at hview
  exact ⟨hview, hanswer.trans (view_assign h ht t).2.symm⟩

end

/-- Independent assignments commute, in an engine over options built by defining
them and a private table, after anything that can be done to it. Each has one
answer in either order, and afterwards every name reads the same, every entry of
the table is the same, and so are the options. -/
theorem independent_assigns_commute {ds : List Declaration} {options : OptionStore}
    (hs : OptionStore.ofDeclarations ds = .ok options) (table : Table)
    (hm : table.kind = .ofMemory) (caseSensitive : Bool) (nameMax : Int) (refused : List Text)
    (as : List Action) {s t : Text}
    (hi : ((ofParts table options caseSensitive nameMax refused).acts as).Independent s t) :
    let e := (ofParts table options caseSensitive nameMax refused).acts as
    ((e.assign t).1.assign s).2 = (e.assign s).2 ∧
    ((e.assign s).1.assign t).2 = (e.assign t).2 ∧
    (∀ name, ((e.assign s).1.assign t).1.read name = ((e.assign t).1.assign s).1.read name) ∧
    (∀ name, ((e.assign s).1.assign t).1.table.get? name =
      ((e.assign t).1.assign s).1.table.get? name) ∧
    ((e.assign s).1.assign t).1.options = ((e.assign t).1.assign s).1.options := by
  intro e
  have hregular : e.Regular := regular_acts ⟨Registry.sound_empty caseSensitive refused, hm⟩ as
  have htwinned : e.options.Twinned := twinned_acts (OptionStore.twinned_ofDeclarations hs) as
  obtain ⟨hview, hanswer⟩ := view_after hregular htwinned hi
  obtain ⟨hview', hanswer'⟩ := view_after hregular htwinned (independent_symm hi)
  have hsame : ((e.assign s).1.assign t).1.view = ((e.assign t).1.assign s).1.view :=
    hview.trans ((effects_comm hi).symm.trans hview'.symm)
  have hsight : ∀ name, ((e.assign s).1.assign t).1.sight name =
      ((e.assign t).1.assign s).1.sight name := congrFun (congrArg View.sight hsame)
  refine ⟨hanswer', hanswer, ?_, congrFun (congrArg View.entry hsame), congrArg View.options hsame⟩
  intro name
  rw [read_eq_sight, read_eq_sight, hsight]

theorem independent_of_forms {e : Engine} {s t x y : Text} {a b : Target} {op op' : Operator}
    (hs : Assigns s a op x) (ht : Assigns t b op' y)
    (h : ¬e.Meets a b ∧ ¬e.ReadBy a y ∧ ¬e.ReadBy b x) : e.Independent s t := by
  intro a' op₁ x' b' op₂ y' ha hb
  obtain ⟨rfl, -, rfl⟩ := assigns_unique hs ha
  obtain ⟨rfl, -, rfl⟩ := assigns_unique ht hb
  exact h

theorem not_readBy {e : Engine} {a : Target} {x : Text}
    (hv : a.kind = .environment →
      ∀ n ∈ mentioned '$' .environment x, e.registry.key n ≠ e.registry.key a.name)
    (ho : a.kind.Reaches .global → a.name ∉ mentioned '&' .option x) : ¬e.ReadBy a x := by
  rintro (⟨hk, n, hn, hkey⟩ | ⟨hreach, hn⟩)
  · exact hv hk n (asks_variable hn) hkey
  · exact ho hreach (asks_option hn)

theorem independent_assigns_commute_sample :
    let e := (sample []).acts [.start]
    let s := Target.statement ⟨.environment, "tmp".toList⟩ .assign "$Path . &title".toList
    let t := Target.statement ⟨.environment, "new".toList⟩ .append "$home . &tabstop".toList
    e.Independent s t ∧
    ((e.assign s).1.assign t).2 = (e.assign t).2 ∧
    (∀ name, ((e.assign s).1.assign t).1.read name = ((e.assign t).1.assign s).1.read name) ∧
    ((e.assign s).1.assign t).1.registry.slots ≠ ((e.assign t).1.assign s).1.registry.slots := by
  intro e s t
  have hs := assigns_statement ⟨.environment, "tmp".toList⟩
    ⟨rfl, List.all_eq_true.mp (by decide)⟩ .assign "$Path . &title".toList
  have ht := assigns_statement ⟨.environment, "new".toList⟩
    ⟨rfl, List.all_eq_true.mp (by decide)⟩ .append "$home . &tabstop".toList
  have hmeets : ¬e.Meets ⟨.environment, "tmp".toList⟩ ⟨.environment, "new".toList⟩ := by
    rintro (⟨-, -, hk⟩ | ⟨hn, -⟩)
    · exact absurd hk (by decide)
    · exact absurd hn (by decide)
  have hi : e.Independent s t := independent_of_forms hs ht
    ⟨hmeets, not_readBy (fun _ => by decide +kernel) False.elim,
      not_readBy (fun _ => by decide +kernel) False.elim⟩
  obtain ⟨-, hanswer, hreads, -⟩ := independent_assigns_commute
    OptionStore.standard_eq_ofDeclarations (sample []).table rfl false 8 [] [.start] hi
  exact ⟨hi, hanswer, hreads, by decide +kernel⟩

end Engine

end LetShell
