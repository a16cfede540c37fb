import LetShell.Text.Fold

/-!
# The registry of variables

A record tracks one variable: its present value, and, if it was inherited, the
value it came with. Records stand in slots. A new record takes the first free
slot, or a new one at the end, and an erased record leaves its slot free, so
the slots show the order in which names are listed.

Every record has a serial number of its own. Whoever keeps one can still refer
to the record after it has left its slot; such records are kept as retired.
Names are compared as they are or by their folded form.
-/

set_option autoImplicit false

namespace LetShell

structure Record where
  serial : Nat
  name : Text
  value : Text
  initial : Text
  inherited : Bool
  removed : Bool
  deriving DecidableEq, Repr

def Record.fresh (serial : Nat) (name : Text) : Record := ⟨serial, name, [], [], false, false⟩

/-- Names in `refused` cannot be given a record. -/
structure Registry where
  caseSensitive : Bool
  refused : List Text
  slots : List (Option Record)
  retired : List Record
  next : Nat
  deriving DecidableEq, Repr

namespace Registry

def empty (caseSensitive : Bool) (refused : List Text) : Registry :=
  ⟨caseSensitive, refused, [], [], 0⟩

def refuses (g : Registry) (name : Text) : Bool := g.refused.contains name

def key (g : Registry) (name : Text) : Text := if g.caseSensitive then name else name.fold

/-- The live records, removed ones included, in slot order. -/
def records (g : Registry) : List Record := g.slots.filterMap id

def visible (g : Registry) : List Record := g.records.filter (!·.removed)

def size (g : Registry) : Nat := g.records.length

def find? (g : Registry) (name : Text) : Option Record :=
  g.records.find? fun r => g.key r.name = g.key name

def read (g : Registry) (name : Text) : Text :=
  match g.find? name with
  | some r => if r.removed then [] else r.value
  | none => []

def names (g : Registry) (start : Text) : List Text :=
  (g.visible.map (·.name)).filter fun n => (g.key start).isPrefixOf (g.key n)

def items (g : Registry) : List (Text × Text) := g.visible.map fun r => (r.name, r.value)

def place (r : Record) : List (Option Record) → List (Option Record)
  | [] => [some r]
  | none :: s => some r :: s
  | some x :: s => some x :: place r s

def add (g : Registry) (name : Text) : Registry :=
  { g with slots := place (.fresh g.next name) g.slots, next := g.next + 1 }

/-- The record of a serial number, live or retired. -/
def record? (g : Registry) (serial : Nat) : Option Record :=
  (g.records ++ g.retired).find? (·.serial = serial)

def isLive (g : Registry) (serial : Nat) : Bool := g.records.any (·.serial = serial)

def modify (g : Registry) (serial : Nat) (f : Record → Record) : Registry :=
  let change := fun r : Record => if r.serial = serial then f r else r
  { g with slots := g.slots.map (·.map change), retired := g.retired.map change }

def erase (g : Registry) (serial : Nat) : Registry :=
  { g with
    slots := g.slots.map fun s => s.filter (·.serial ≠ serial)
    retired := g.retired ++ g.records.filter (·.serial = serial) }

def clear (g : Registry) : Registry :=
  { g with slots := [], retired := g.retired ++ g.records }

theorem records_place (r : Record) (slots : List (Option Record)) :
    ∃ front back : List Record, slots.filterMap id = front ++ back ∧
      (place r slots).filterMap id = front ++ r :: back := by
  induction slots with
  | nil => exact ⟨[], [], rfl, rfl⟩
  | cons s slots ih =>
    cases s with
    | none => exact ⟨[], slots.filterMap id, rfl, rfl⟩
    | some x =>
      obtain ⟨front, back, h1, h2⟩ := ih
      exact ⟨x :: front, back, by simpa using h1, by simpa [place] using h2⟩

theorem mem_records_add {g : Registry} {name : Text} {r : Record} :
    r ∈ (g.add name).records ↔ r = .fresh g.next name ∨ r ∈ g.records := by
  obtain ⟨front, back, h1, h2⟩ := records_place (.fresh g.next name) g.slots
  have h : r ∈ front ++ Record.fresh g.next name :: back ↔
      r = .fresh g.next name ∨ r ∈ front ++ back := by
    simp only [List.mem_append, List.mem_cons]
    constructor
    · rintro (h | h | h)
      · exact .inr (.inl h)
      · exact .inl h
      · exact .inr (.inr h)
    · rintro (h | h | h)
      · exact .inr (.inl h)
      · exact .inl h
      · exact .inr (.inr h)
  rw [← h1, ← h2] at h
  exact h

theorem records_modify (g : Registry) (serial : Nat) (f : Record → Record) :
    (g.modify serial f).records =
      g.records.map fun r => if r.serial = serial then f r else r := by
  simp only [records, modify]
  induction g.slots with
  | nil => rfl
  | cons s slots ih => cases s <;> simpa using ih

theorem records_erase (g : Registry) (serial : Nat) :
    (g.erase serial).records = g.records.filter (·.serial ≠ serial) := by
  simp only [records, erase]
  induction g.slots with
  | nil => rfl
  | cons s slots ih =>
    cases s with
    | none => simpa using ih
    | some r => by_cases h : r.serial = serial <;> simpa [h, Option.filter] using ih

theorem length_place (r : Record) (slots : List (Option Record)) :
    (place r slots).length = if none ∈ slots then slots.length else slots.length + 1 := by
  induction slots with
  | nil => rfl
  | cons s slots ih =>
    cases s with
    | none => simp [place]
    | some x => by_cases h : none ∈ slots <;> simp [place, ih, h]

theorem length_erase_slots (g : Registry) (serial : Nat) :
    (g.erase serial).slots.length = g.slots.length := by
  simp [erase]

theorem find?_mem {g : Registry} {name : Text} {r : Record} (h : g.find? name = some r) :
    r ∈ g.records ∧ g.key r.name = g.key name := by
  have hk := List.find?_some h
  exact ⟨List.mem_of_find?_eq_some h, by simpa using hk⟩

end Registry

end LetShell
