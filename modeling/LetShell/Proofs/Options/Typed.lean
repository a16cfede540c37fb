import LetShell.Proofs.Options.Canonical

/-!
# Values of the right form

A boolean option should hold a truth value, an integer option an integer and
any other a text, allowed or not. Whatever a definition held before, a change
gives it a value of its form. And a value of that form is all that a change
asks for: it is accepted or rejected then, but it does not fault.
-/

set_option autoImplicit false

namespace LetShell

/-- The form of value that a type stores. -/
inductive OptionType.Stores : OptionType → OptionValue → Prop
  | bool (b : Bool) : Stores .bool (.bool b)
  | int (n : Int) : Stores .int (.int n)
  | string (t : Text) : Stores .string (.text t)
  | stringList (t : Text) : Stores .stringList (.text t)
  | enum (t : Text) : Stores .enum (.text t)
  | set (t : Text) : Stores .set (.text t)

def Declaration.Typed (d : Declaration) : Prop := d.type.Stores d.value

namespace Definition

def Typed (d : Definition) : Prop := d.type.Stores d.value

theorem typed_of_proper {d : Definition} (h : d.Proper) : d.Typed := by
  obtain ⟨name, type, value, scope, values⟩ := d
  cases h with
  | bool b => exact .bool b
  | int n => exact .int n
  | string t => exact .string t
  | stringList _ => exact .stringList _
  | enum _ => exact .enum _
  | set _ _ => exact .set _

section
variable {d : Definition} {t : Text} {v : OptionValue}

theorem stores_set (h : lift (d.set t) = .ok v) : d.type.Stores v := by
  obtain ⟨name, type, value, scope, values⟩ := d
  cases type with
  | bool =>
    obtain ⟨b, -, rfl⟩ := ok_of_map h
    exact .bool b
  | int =>
    obtain ⟨n, -, rfl⟩ := ok_of_map h
    exact .int n
  | string =>
    cases h
    exact .string t
  | stringList =>
    cases h
    exact .stringList _
  | enum =>
    simp only [set] at h
    split at h
    · cases h
      exact .enum t
    · cases h
  | set =>
    obtain ⟨items, -, rfl⟩ := ok_of_map h
    exact .set _

theorem stores_add (h : d.add t = .ok v) : d.type.Stores v := by
  obtain ⟨name, type, value, scope, values⟩ := d
  cases type with
  | bool => cases h
  | enum => cases h
  | int =>
    obtain ⟨n, m, -, -, rfl⟩ := ok_of_value_first h
    exact .int (n + m)
  | string =>
    cases hv : value.toText with
    | error f => simp [add, hv, Failure.ofFault, Except.map] at h
    | ok old =>
      simp only [add, hv] at h
      cases h
      exact .string (old ++ t)
  | stringList =>
    obtain ⟨old, -, rfl⟩ := ok_of_value h
    exact .stringList _
  | set =>
    obtain ⟨old, new, -, -, rfl⟩ := ok_of_value_first h
    exact .set _

theorem stores_remove (h : d.remove t = .ok v) : d.type.Stores v := by
  obtain ⟨name, type, value, scope, values⟩ := d
  cases type with
  | bool => cases h
  | string => cases h
  | enum => cases h
  | int =>
    obtain ⟨n, m, -, -, rfl⟩ := ok_of_value_first h
    exact .int (n - m)
  | stringList =>
    obtain ⟨old, -, rfl⟩ := ok_of_value h
    exact .stringList _
  | set =>
    obtain ⟨old, gone, -, -, rfl⟩ := ok_of_text_first h
    exact .set _

theorem stores_changed {how : Change} (h : d.changed how t = .ok v) : d.type.Stores v := by
  cases how with
  | set => exact stores_set h
  | add => exact stores_add h
  | remove => exact stores_remove h

end

section
variable {α β : Type} {x : α} {f : Fault}

theorem lift_ne_fault (y : Except OptionError β) : lift y ≠ .error (.fault f) := by
  intro h
  cases y <;> cases h

theorem value_first_ne_fault (g : α → β → OptionValue) (y : Except OptionError β) :
    (do
      let a ← Failure.ofFault (.ok x)
      let b ← lift y
      return g a b : Outcome OptionValue) ≠ .error (.fault f) := by
  intro h
  cases y <;> cases h

theorem text_first_ne_fault (g : α → β → OptionValue) (y : Except OptionError β) :
    (do
      let b ← lift y
      let a ← Failure.ofFault (.ok x)
      return g a b : Outcome OptionValue) ≠ .error (.fault f) := by
  intro h
  cases y <;> cases h

end

section
variable {d : Definition} {f : Fault}

theorem add_ne_fault (h : d.Typed) (t : Text) : d.add t ≠ .error (.fault f) := by
  obtain ⟨name, type, value, scope, values⟩ := d
  cases h with
  | int n => exact value_first_ne_fault (fun n m => .int (n + m)) _
  | set => exact value_first_ne_fault (fun old new => .text (arranged _ (old ++ new))) _
  | bool => exact nofun
  | enum => exact nofun
  | string => exact nofun
  | stringList => exact nofun

theorem remove_ne_fault (h : d.Typed) (t : Text) : d.remove t ≠ .error (.fault f) := by
  obtain ⟨name, type, value, scope, values⟩ := d
  cases h with
  | int n => exact value_first_ne_fault (fun n m => .int (n - m)) _
  | set =>
    exact text_first_ne_fault
      (fun (old gone : List Text) => .text (Text.ofItems (old.filter (· ∉ gone)))) _
  | bool => exact nofun
  | enum => exact nofun
  | string => exact nofun
  | stringList => exact nofun

theorem changed_ne_fault (h : d.Typed) (how : Change) (t : Text) :
    d.changed how t ≠ .error (.fault f) := by
  cases how with
  | set => exact lift_ne_fault _
  | add => exact add_ne_fault h t
  | remove => exact remove_ne_fault h t

end

end Definition

namespace OptionStore

def Typed (s : OptionStore) : Prop :=
  ∀ scope name d, s.lookup scope name = some d → d.Typed

section
variable {s : OptionStore} {d : Definition}

theorem typed_empty : empty.Typed := by
  intro scope name d h
  cases scope <;> cases h

theorem typed_change (h : s.Typed) (hd : s.lookup d.scope d.name = some d) (how : Change)
    (t : Text) : (s.change d how t).1.Typed := by
  unfold change
  split
  · rename_i v hv
    have hstored : (d.holding v).Typed := Definition.stores_changed (d := d) hv
    intro scope name x hx
    rw [lookup_assign, Option.map_eq_some_iff] at hx
    obtain ⟨y, hy, rfl⟩ := hx
    split
    · rename_i hat
      obtain ⟨rfl, hname⟩ := hat
      rw [← lookup_name hy, hname, hd] at hy
      cases hy
      exact hstored
    · exact h scope name y hy
  · exact h

theorem typed_steps {s' : OptionStore} (hs : Steps s s') (h : s.Typed) : s'.Typed := by
  induction hs with
  | refl => exact h
  | tail _ hstep ih =>
    cases hstep with
    | change d hd how t => exact typed_change ih hd how t

theorem typed_insert (h : s.Typed) (hd : d.Typed) : (s.insert d).Typed := by
  intro scope name x hx
  rw [lookup_insert] at hx
  split at hx
  · cases hx
    exact hd
  · exact h scope name x hx

theorem typed_define {s' : OptionStore} (h : s.Typed) {d : Declaration} (hd : d.Typed)
    (hs : s.define d = .ok s') : s'.Typed := by
  have hglobal := typed_insert (d := d.definition .global) h hd
  unfold define at hs
  split at hs
  · cases hs
  · cases hs
    cases d.isLocal with
    | false => exact hglobal
    | true => exact typed_insert (d := d.definition .local) hglobal hd

theorem typed_ofDeclarations {ds : List Declaration} (hd : ∀ d ∈ ds, d.Typed)
    (h : ofDeclarations ds = .ok s) : s.Typed :=
  ofDeclarations_induction typed_empty (fun _ _ d hm hu hs => typed_define hu (hd d hm) hs) h

theorem typed_standard : ∀ d ∈ standardDeclarations, d.Typed := by
  intro d hd
  exact Definition.typed_of_proper (d := d.definition .global) (canonical_standard d hd).proper

theorem typed_of_valued (h : s.Valued) : s.Typed := by
  intro scope name d hd
  exact Definition.typed_of_proper (h.proper scope d (mem_of_lookup hd))

theorem typed_definitions (h : s.Typed) {name : Text} (hd : d ∈ s.definitions name) :
    d.Typed := by
  rcases List.mem_append.mp hd with hd | hd
  · exact h .local name d (Option.mem_toList.mp hd)
  · exact h .global name d (Option.mem_toList.mp hd)

theorem change_ne_fault {f : Fault} (h : d.Typed) (how : Change) (t : Text) :
    (s.change d how t).2 ≠ .error (.fault f) := by
  intro hc
  unfold change at hc
  split at hc
  · cases hc
  · rename_i e he
    cases hc
    exact Definition.changed_ne_fault h how t he

theorem changeAll_ne_fault {f : Fault} (how : Change) (text : Definition → Text)
    {ds : List Definition} (h : ∀ d ∈ ds, d.Typed) :
    (s.changeAll how text ds).2 ≠ .error (.fault f) := by
  induction ds generalizing s with
  | nil => exact nofun
  | cons d ds ih =>
    obtain ⟨hd, hds⟩ := List.forall_mem_cons.mp h
    have hone := change_ne_fault (s := s) (f := f) hd how (text d)
    unfold changeAll
    split
    · exact ih hds
    · rename_i e hc
      rw [hc] at hone
      exact hone

end

end OptionStore

end LetShell
