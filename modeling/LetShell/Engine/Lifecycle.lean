import LetShell.Engine.Basic

/-!
# Records and their lifetime

At startup every entry of the table becomes an inherited record. A record that
was not inherited is erased when it is discarded; an inherited one is only
marked, since its first value is still needed. Teardown gives every inherited
name its first value back, unsets every other name, and gives up all slots.
-/

set_option autoImplicit false

namespace LetShell.Engine

def obtain (e : Engine) (name : Text) : Engine × Option Record :=
  match e.registry.find? name with
  | some r => (e, some r)
  | none =>
    if e.registry.refuses name then (e, none)
    else
      ({ e with registry := e.registry.add name }.note .debug registrySource
          ("created ".toList ++ name),
        some (.fresh e.registry.next name))

/-- Discarding a record that was erased before changes nothing. -/
def discard (e : Engine) (serial : Nat) : Engine :=
  match e.registry.record? serial with
  | none => e
  | some r =>
    if r.inherited then
      { e with registry := e.registry.modify serial fun r => { r with removed := true } }.note
        .debug registrySource ("tombstoned ".toList ++ r.name)
    else if e.registry.isLive serial then
      { e with registry := e.registry.erase serial }.note
        .debug registrySource ("erased ".toList ++ r.name)
    else e

/-- The name and value of a `NAME=VALUE` text; the name is not empty. -/
def entry? (t : Text) : Option (Text × Text) :=
  (Text.cutAt '=' t).filter fun p => p.1 ≠ []

def inherit (e : Engine) (entry : Text) : Engine × Bool :=
  match entry? entry with
  | none =>
    (e.note .warning registrySource ("skipping malformed entry ".toList ++ entry.quoted), false)
  | some (name, value) =>
    let name := Text.upTo e.nameMax name
    match e.obtain name with
    | (e, none) =>
      (e.note .warning registrySource ("dropping ".toList ++ name ++ ": not enough memory".toList),
        false)
    | (e, some r) =>
      ({ e with registry := e.registry.modify r.serial fun r =>
          { r with inherited := true, initial := value, value := value } }, true)

def inheritAll (e : Engine) : List Text → Engine × Nat
  | [] => (e, 0)
  | entry :: entries =>
    let (e, loaded) := e.inherit entry
    let (e, n) := inheritAll e entries
    (e, if loaded then n + 1 else n)

def bootstrap (e : Engine) (entries : List Text) : Engine :=
  let (e, n) := e.inheritAll entries
  e.note .info registrySource
    ("bootstrapped ".toList ++ Text.ofNat n ++ " variables".toList)

def start (e : Engine) : Engine := e.bootstrap e.table.entries

/-- Writes records back, up to the first write that the table refuses. -/
def restore (t : Table) : List Record → Table × Option Fault
  | [] => (t, none)
  | r :: rs =>
    if r.inherited then
      match t.set r.name r.initial with
      | .ok t => restore t rs
      | .error f => (t, some f)
    else restore (t.unset r.name) rs

def teardown (e : Engine) : Engine × Except Fault Unit :=
  match restore e.table e.registry.records with
  | (t, some f) => ({ e with table := t }, .error f)
  | (t, none) =>
    ({ e with table := t, registry := e.registry.clear }.note .info registrySource
      ("restored environment (".toList ++ Text.ofNat e.registry.size ++ " records)".toList), .ok ())

theorem restore_ofMemory {t : Table} (h : t.kind = .ofMemory) (rs : List Record) :
    (restore t rs).2 = none := by
  induction rs generalizing t with
  | nil => rfl
  | cons r rs ih =>
    simp only [restore]
    split
    · rw [Table.set_ofMemory h]
      exact ih h
    · exact ih h

theorem table_teardown (e : Engine) :
    (e.teardown).1.table = (restore e.table e.registry.records).1 := by
  unfold teardown
  split <;> rename_i h <;> rw [h]
  rfl

theorem teardown_ofMemory {e : Engine} (h : e.table.kind = .ofMemory) :
    (e.teardown).2 = .ok () := by
  have hr := restore_ofMemory h e.registry.records
  unfold teardown
  split
  · rename_i t f hf
    rw [hf] at hr
    cases hr
  · rfl

theorem slots_teardown {e : Engine} (h : e.table.kind = .ofMemory) :
    (e.teardown).1.registry.slots = [] := by
  have hr := restore_ofMemory h e.registry.records
  unfold teardown
  split
  · rename_i t f hf
    rw [hf] at hr
    cases hr
  · rfl

end LetShell.Engine
