import LetShell.Fault

/-!
# Environment tables

A table holds a value for each of its names, in the order in which the names
came in. Setting a name that is present keeps its place. A private table takes
every name and value. The table of a process refuses the null character, an
empty name, and an equals sign in a name; removal never fails.
-/

set_option autoImplicit false

namespace LetShell

inductive TableKind where
  | ofMemory
  | ofProcess
  deriving DecidableEq, Repr

structure Table where
  kind : TableKind
  pairs : List (Text × Text)
  deriving DecidableEq, Repr

namespace Table

def empty : Table := ⟨.ofMemory, []⟩

def valueOf (name : Text) : List (Text × Text) → Option Text
  | [] => none
  | p :: ps => if p.1 = name then some p.2 else valueOf name ps

def get? (t : Table) (name : Text) : Option Text := valueOf name t.pairs

def insert (name value : Text) : List (Text × Text) → List (Text × Text)
  | [] => [(name, value)]
  | p :: ps => if p.1 = name then (name, value) :: ps else p :: insert name value ps

def objection (t : Table) (name value : Text) : Option Fault :=
  match t.kind with
  | .ofMemory => none
  | .ofProcess =>
    if '\x00' ∈ name ∨ '\x00' ∈ value then some .embeddedNul
    else if '=' ∈ name then some .illegalName
    else if name = [] then some .emptyName
    else none

def set (t : Table) (name value : Text) : Except Fault Table :=
  match t.objection name value with
  | some f => .error f
  | none => .ok { t with pairs := insert name value t.pairs }

def unset (t : Table) (name : Text) : Table :=
  { t with pairs := t.pairs.filter (·.1 ≠ name) }

def size (t : Table) : Nat := t.pairs.length

def copy (t : Table) : Table := ⟨.ofMemory, t.pairs⟩

/-- The content as `NAME=VALUE` texts. -/
def entries (t : Table) : List Text := t.pairs.map fun p => p.1 ++ '=' :: p.2

def ofPairs (kind : TableKind) (ps : List (Text × Text)) : Except Fault Table :=
  ps.foldlM (fun t p => t.set p.1 p.2) ⟨kind, []⟩

theorem valueOf_insert (name value other : Text) (ps : List (Text × Text)) :
    valueOf other (insert name value ps) =
      if other = name then some value else valueOf other ps := by
  induction ps with
  | nil => by_cases h : name = other <;> simp [insert, valueOf, h, eq_comm]
  | cons p ps ih =>
    by_cases hn : p.1 = name
    · by_cases h : name = other <;> simp [insert, valueOf, hn, h, eq_comm]
    · by_cases h : p.1 = other
      · have ho : other ≠ name := fun e => hn (h.trans e)
        simp [insert, valueOf, h, ho]
      · simp [insert, valueOf, hn, h, ih]

theorem valueOf_filter (name other : Text) (ps : List (Text × Text)) :
    valueOf other (ps.filter (·.1 ≠ name)) = if other = name then none else valueOf other ps := by
  induction ps with
  | nil => simp [valueOf]
  | cons p ps ih =>
    by_cases hn : p.1 = name
    · by_cases h : other = name
      · simpa [hn, h] using ih
      · have ho : p.1 ≠ other := fun e => h (e.symm.trans hn)
        simpa [hn, h, valueOf, Ne.symm h] using ih
    · by_cases h : p.1 = other
      · have ho : other ≠ name := fun e => hn (h.trans e)
        simp [valueOf, h, ho]
      · simpa [hn, valueOf, h] using ih

theorem valueOf_eq_some_iff {name value : Text} {ps : List (Text × Text)}
    (h : (ps.map Prod.fst).Nodup) : valueOf name ps = some value ↔ (name, value) ∈ ps := by
  induction ps with
  | nil => simp [valueOf]
  | cons p ps ih =>
    obtain ⟨hp, hps⟩ := List.nodup_cons.mp h
    by_cases hn : p.1 = name
    · have hout : (name, value) ∉ ps := fun hm => hp (hn ▸ List.mem_map_of_mem hm)
      rw [valueOf, if_pos hn, List.mem_cons]
      constructor
      · intro hv
        exact .inl (Prod.ext hn.symm (Option.some.inj hv).symm)
      · rintro (he | hm)
        · rw [← he]
        · exact absurd hm hout
    · rw [valueOf, if_neg hn, ih hps, List.mem_cons]
      constructor
      · exact .inr
      · rintro (he | hm)
        · exact absurd (congrArg Prod.fst he).symm hn
        · exact hm

theorem set_ofMemory {t : Table} (h : t.kind = .ofMemory) (name value : Text) :
    t.set name value = .ok { t with pairs := insert name value t.pairs } := by
  simp [set, objection, h]

theorem get?_set {t u : Table} {name value : Text} (h : t.set name value = .ok u) (other : Text) :
    u.get? other = if other = name then some value else t.get? other := by
  unfold set at h
  split at h
  · cases h
  · cases h
    exact valueOf_insert name value other t.pairs

theorem kind_set {t u : Table} {name value : Text} (h : t.set name value = .ok u) :
    u.kind = t.kind := by
  unfold set at h
  split at h
  · cases h
  · cases h
    rfl

theorem get?_unset (t : Table) (name other : Text) :
    (t.unset name).get? other = if other = name then none else t.get? other :=
  valueOf_filter name other t.pairs

end Table

end LetShell
