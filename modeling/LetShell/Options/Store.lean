import LetShell.Options.Definition

/-!
# The option store

Every option has a global definition, and some have a local one too. The two
are independent: a change names the scope it acts on.
-/

set_option autoImplicit false

namespace LetShell

structure OptionStore where
  globals : List Definition
  locals : List Definition
  deriving DecidableEq, Repr

structure Declaration where
  name : Text
  type : OptionType
  value : OptionValue
  values : List Text := []
  isLocal : Bool := false
  deriving DecidableEq, Repr

def Declaration.definition (d : Declaration) (scope : Scope) : Definition :=
  ⟨d.name, d.type, d.value, scope, d.values⟩

namespace OptionStore

def empty : OptionStore := ⟨[], []⟩

def partition (s : OptionStore) : Scope → List Definition
  | .global => s.globals
  | .local => s.locals

def update (s : OptionStore) (scope : Scope) (f : List Definition → List Definition) :
    OptionStore :=
  match scope with
  | .global => { s with globals := f s.globals }
  | .local => { s with locals := f s.locals }

def lookup (s : OptionStore) (scope : Scope) (name : Text) : Option Definition :=
  (s.partition scope).find? (·.name = name)

def listing (s : OptionStore) (scope : Scope) : List Definition :=
  (s.partition scope).mergeSort fun a b => Text.atMost a.name b.name

def forget (s : OptionStore) (scope : Scope) (name : Text) : OptionStore :=
  s.update scope fun ds => ds.filter (·.name ≠ name)

def insert (s : OptionStore) (d : Definition) : OptionStore :=
  (s.forget d.scope d.name).update d.scope (· ++ [d])

def define (s : OptionStore) (d : Declaration) : Except OptionError OptionStore :=
  if (s.lookup .global d.name).isSome then .error (.alreadyDefined d.name)
  else
    let s := s.insert (d.definition .global)
    .ok (if d.isLocal then s.insert (d.definition .local) else s)

def assign (s : OptionStore) (scope : Scope) (name : Text) (v : OptionValue) : OptionStore :=
  s.update scope fun ds => ds.map fun d => if d.name = name then { d with value := v } else d

/-- Changes the definition `d` of the store. A rejected change leaves the
store as it was. -/
def change (s : OptionStore) (d : Definition) (how : Change) (t : Text) :
    OptionStore × Except (Failure OptionError) Unit :=
  match d.changed how t with
  | .ok v => (s.assign d.scope d.name v, .ok ())
  | .error e => (s, .error e)

/-- The local definition, if any, and the global one. -/
def definitions (s : OptionStore) (name : Text) : List Definition :=
  (s.lookup .local name).toList ++ (s.lookup .global name).toList

def ofDeclarations (ds : List Declaration) : Except OptionError OptionStore :=
  ds.foldlM define empty

def standardDeclarations : List Declaration := [
  ⟨"hlsearch".toList, .bool, .bool true, [], false⟩,
  ⟨"shell".toList, .string, .text "/bin/sh".toList, [], false⟩,
  ⟨"tabstop".toList, .int, .int 8, [], true⟩,
  ⟨"sortorder".toList, .enum, .text "ascending".toList,
    ["ascending".toList, "descending".toList], true⟩,
  ⟨"cpoptions".toList, .set, .text "f,s".toList, [['f'], ['s'], ['t']], false⟩,
  ⟨"tags".toList, .stringList, .text "tags".toList, [], false⟩,
  ⟨"history".toList, .int, .int 15, [], false⟩,
  ⟨"title".toList, .string, .text [], [], true⟩]

def standard : OptionStore where
  globals := standardDeclarations.map (·.definition .global)
  locals := (standardDeclarations.filter (·.isLocal)).map (·.definition .local)

theorem standard_eq_ofDeclarations : ofDeclarations standardDeclarations = .ok standard := rfl

theorem partition_update_same (s : OptionStore) (scope : Scope)
    (f : List Definition → List Definition) :
    (s.update scope f).partition scope = f (s.partition scope) := by
  cases scope <;> rfl

theorem partition_update_other (s : OptionStore) {scope other : Scope} (h : other ≠ scope)
    (f : List Definition → List Definition) :
    (s.update scope f).partition other = s.partition other := by
  cases scope <;> cases other <;> first | rfl | exact absurd rfl h

theorem lookup_name {s : OptionStore} {scope : Scope} {name : Text} {d : Definition}
    (h : s.lookup scope name = some d) : d.name = name := by
  simpa using List.find?_some h

theorem partition_assign (s : OptionStore) (scope other : Scope) (name : Text) (v : OptionValue) :
    (s.assign scope name v).partition other =
      (s.partition other).map fun d =>
        if other = scope ∧ d.name = name then { d with value := v } else d := by
  by_cases h : other = scope
  · subst h
    rw [assign, partition_update_same]
    simp
  · rw [assign, partition_update_other s h]
    simp [h]

theorem lookup_assign (s : OptionStore) (scope other : Scope) (name sought : Text)
    (v : OptionValue) :
    (s.assign scope name v).lookup other sought =
      (s.lookup other sought).map fun d =>
        if other = scope ∧ d.name = name then { d with value := v } else d := by
  have hn : ∀ d : Definition,
      (if other = scope ∧ d.name = name then { d with value := v } else d).name = d.name := by
    intro d
    split <;> rfl
  rw [lookup, lookup, partition_assign, List.find?_map]
  congr 2
  funext d
  simp only [Function.comp_apply, hn]

theorem change_error {s : OptionStore} {d : Definition} {how : Change} {t : Text}
    {e : Failure OptionError} (h : (s.change d how t).2 = .error e) :
    (s.change d how t).1 = s := by
  unfold change at h ⊢
  split
  · rename_i v hv
    rw [hv] at h
    cases h
  · rfl

end OptionStore

end LetShell
