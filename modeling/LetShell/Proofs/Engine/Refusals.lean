import LetShell.Proofs.Engine.Atomic
import LetShell.Proofs.Engine.Effects
import LetShell.Proofs.Engine.Faults
import LetShell.Proofs.Engine.Writes
import LetShell.Proofs.Text.Caseless

/-!
# Writes that the process refuses

The table of a process takes no value with a null character, and a variable is
given its value before the table is told. So an assignment that the table
refuses is kept by the registry: the table is as it was, and the record holds
what is not in it. Whatever else an assignment to a variable fails with, the
registry and the table are both left alone.
-/

set_option autoImplicit false

namespace LetShell

namespace Alphabet

theorem ascii_of_other {c : Char} (h : environment.other c = true) : c.toNat < 128 := by
  have hranges : ((decide (65 ≤ c.val ∧ c.val ≤ 90) || (decide (97 ≤ c.val) && decide (c.val ≤ 122)))
      || (decide (48 ≤ c.val) && decide (c.val ≤ 57)) || c == '_') = true := h
  simp only [Bool.or_eq_true, Bool.and_eq_true, decide_eq_true_eq, beq_iff_eq,
    UInt32.le_iff_toNat_le] at hranges
  change (((65 ≤ c.toNat ∧ c.toNat ≤ 90) ∨ (97 ≤ c.toNat ∧ c.toNat ≤ 122)) ∨
    (48 ≤ c.toNat ∧ c.toNat ≤ 57)) ∨ c = '_' at hranges
  rcases hranges with hrange | rfl
  · omega
  · decide

theorem other_of_accepts {name : Text} (h : environment.Accepts name) :
    ∀ c ∈ name, environment.other c = true := by
  cases name with
  | nil => exact h.elim
  | cons c s =>
    refine List.forall_mem_cons.mpr ⟨?_, h.2⟩
    have hfirst : (c.isAlpha || c == '_') = true := h.1
    change (c.isAlphanum || c == '_') = true
    rw [Char.isAlphanum, Bool.or_assoc, Bool.or_comm c.isDigit, ← Bool.or_assoc, hfirst,
      Bool.true_or]

end Alphabet

namespace Registry

theorem not_mem_of_key {g : Registry} {m n : Text} {c : Char}
    (hn : Alphabet.environment.Accepts n) (hk : g.key m = g.key n)
    (hc : Text.foldChar c = [c]) (hno : Alphabet.environment.other c = false) : c ∉ m := by
  have hother := Alphabet.other_of_accepts hn
  intro hm
  unfold key at hk
  split at hk
  · rw [hother c (hk ▸ hm)] at hno
    cases hno
  · have hfold : c ∈ n.fold := by
      rw [← hk]
      exact List.mem_flatMap.mpr ⟨c, hm, by rw [hc]; exact List.mem_singleton.mpr rfl⟩
    obtain ⟨d, hd, hcd⟩ := List.mem_flatMap.mp hfold
    rw [Text.foldChar_ascii (Alphabet.ascii_of_other (hother d hd)), List.mem_singleton] at hcd
    rw [hcd, Text.caseBlind_other, hother d hd] at hno
    cases hno

theorem ne_nil_of_key {g : Registry} {m n : Text} (hn : Alphabet.environment.Accepts n)
    (hk : g.key m = g.key n) : m ≠ [] := by
  rintro rfl
  cases n with
  | nil => exact hn.elim
  | cons c s =>
    have hc := Alphabet.other_of_accepts hn c (List.mem_cons_self ..)
    unfold key at hk
    split at hk
    · cases hk
    · rw [Text.fold_nil, Text.fold_cons, Text.foldChar_ascii (Alphabet.ascii_of_other hc)] at hk
      cases hk

end Registry

namespace Engine
open Registry

def given (e : Engine) (a : Assignment) : Text :=
  if a.operator = .append then e.read a.target.name ++ a.text else a.text

/-- The engine `e` after the variable `name` has been given a value that the
table does not take. -/
structure Strayed (e : Engine) (name v : Text) (r : Record) (e' : Engine) : Prop where
  held : Held e name v r e'
  null : '\x00' ∈ v
  table : e'.table = e.table
  apart : e'.table.get? r.name ≠ some v

/-- How giving a variable a value can end where null characters are refused. -/
inductive Ends (e : Engine) (name v : Text) : Outcome Unit → Prop
  | written (e' : Engine) : Ends e name v (e', .ok ())
  | unmade (e' : Engine) (h : e.Unchanged e') : Ends e name v (e', .error (.error .allocation))
  | strayed (e' : Engine) {r : Record} (h : Strayed e name v r e') :
      Ends e name v (e', .error (.fault .embeddedNul))

section
variable {e e₁ : Engine} {name v : Text} {r : Record}

theorem ends_store (ht : e.table.Strict) (ha : Alphabet.environment.Accepts name)
    (h : Obtained e name r e₁) (message : Text) : Ends e name v (e₁.store r v message) := by
  have hkey := key_obtained h
  have hnull : '\x00' ∉ r.name := not_mem_of_key ha hkey (by decide) (by decide)
  have hequals : '=' ∉ r.name := not_mem_of_key ha hkey (by decide) (by decide)
  have hempty : r.name ≠ [] := ne_nil_of_key ha hkey
  have hobjection := Table.objection_ofProcess (t := e₁.table) (h.table ▸ ht.process) r.name v
  have hheld := held_store h v message
  rw [if_neg hequals, if_neg hempty] at hobjection
  unfold store at hheld ⊢
  by_cases hv : '\x00' ∈ v
  · rw [if_pos (.inr hv)] at hobjection
    simp only [Table.set, hobjection] at hheld ⊢
    refine .strayed _ ⟨hheld, hv, h.table, ?_⟩
    intro hget
    rw [h.table] at hget
    exact ht.clean _ _ hget hv
  · rw [if_neg (by simp [hnull, hv])] at hobjection
    simp only [Table.set, hobjection]
    exact .written _

theorem ends_setVariable (hs : e.registry.Sound) (ht : e.table.Strict)
    (ha : Alphabet.environment.Accepts name) : Ends e name v (e.setVariable name v) := by
  unfold setVariable
  rcases obtain_cases e name with ⟨r, ho⟩ | ho | ⟨e₁, -, -, ho⟩
  · rw [ho]
    exact ends_store ht ha (obtained_obtain hs ho) _
  · rw [ho]
    exact .unmade _ ⟨rfl, rfl, rfl⟩
  · rw [ho]
    exact ends_store ht ha (obtained_obtain hs ho) _

theorem ends_appendVariable (hs : e.registry.Sound) (ht : e.table.Strict)
    (ha : Alphabet.environment.Accepts name) :
    Ends e name (e.read name ++ v) (e.appendVariable name v) := by
  rcases appendVariable_cases e name v with ⟨hread, heq⟩ | ⟨r, message, ho, heq⟩
  · rw [heq, hread]
    exact ends_setVariable hs ht ha
  · rw [heq]
    exact ends_store ht ha (obtained_obtain hs ho) message

theorem ends_execute (hs : e.registry.Sound) (ht : e.table.Strict) {a : Assignment}
    (hk : a.target.kind = .environment) (ha : Alphabet.environment.Accepts a.target.name) :
    Ends e a.target.name (e.given a) (e.execute a.target a.operator a.text) := by
  unfold execute given
  simp only [hk]
  split
  · exact ends_appendVariable hs ht ha
  · exact ends_setVariable hs ht ha

theorem not_embeddedNul_of_cause {ctx : Expression.Context} {t : Text} {f : Fault}
    (h : Expression.Cause ctx t f) : f ≠ .embeddedNul := by
  cases h with
  | numeral hu hi hf =>
    unfold Numeral.readOrFault at hf
    split at hf <;> cases hf <;> exact nofun
  | option ho hl => exact nofun

theorem kind_of_sigil {t rest : Text} {a : Assignment} (h : e.plan t = .ok a)
    (hd : t.trimStart = '$' :: rest) : a.target.kind = .environment := by
  obtain ⟨left, -, -, hread, -⟩ := plan_stages.mp h
  rw [hd, Target.read] at hread
  split at hread
  · rw [← (Prod.mk.inj (Except.ok.inj hread)).1]
  · cases hread

end

/-- From any state that an engine over the table of a process can come to: an
assignment to a variable that fails leaves table and options as they were. It
leaves the registry as it was, except if the table refused a null character.
Then the record, new or removed as it may have been, holds the refused value and
is visible, and the table has another for it or none. -/
theorem failed_assignment {pairs : List (Text × Text)} {table : Table}
    (ht : Table.ofPairs .ofProcess pairs = .ok table) (options : OptionStore) (caseSensitive : Bool)
    (nameMax : Int) (refused : List Text) (as : List Action) {t rest : Text}
    (hd : t.trimStart = '$' :: rest) {f : Failure VariableError}
    (hf : (((ofParts table options caseSensitive nameMax refused).acts as).assign t).2 = .error f) :
    let e := (ofParts table options caseSensitive nameMax refused).acts as
    let e' := (e.assign t).1
    e'.table = e.table ∧ e'.options = e.options ∧
      ((f ≠ .fault .embeddedNul ∧ e'.registry = e.registry) ∨
        (f = .fault .embeddedNul ∧ ∃ a r, e.plan t = .ok a ∧
          Strayed e a.target.name (e.given a) r e')) := by
  intro e e'
  have hsound : e.registry.Sound := (accounts_acts _ as (sound_empty caseSensitive refused)).1
  have hstrict : e.table.Strict := Table.strict_writes (Table.strict_ofPairs ht)
    (writes_acts (ofParts table options caseSensitive nameMax refused) as)
  change (e.assign t).2 = .error f at hf
  cases hp : e.plan t with
  | error x =>
    have hrun := assign_of_plan_error hp
    have hsame : e' = e := congrArg Prod.fst hrun
    rw [hrun] at hf
    cases hf
    refine ⟨by rw [hsame], by rw [hsame], .inl ⟨?_, by rw [hsame]⟩⟩
    rintro rfl
    exact not_embeddedNul_of_cause (plan_fault hp) rfl
  | ok a =>
    have hrun := assign_of_plan_ok hp
    have hk := kind_of_sigil hp hd
    obtain ⟨x, ⟨ha, -⟩, -⟩ := plan_sound hp
    rw [hk] at ha
    have hends := ends_execute hsound hstrict hk ha
    rw [← hrun] at hends
    obtain ⟨e₂, hout⟩ : ∃ e₂, e.assign t = (e₂, .error f) := ⟨_, Prod.ext rfl hf⟩
    have hstate : e' = e₂ := congrArg Prod.fst hout
    rw [hout] at hends
    rw [hstate]
    cases hends with
    | unmade _ h => exact ⟨h.table, h.options, .inl ⟨nofun, h.registry⟩⟩
    | strayed _ h => exact ⟨h.table, h.held.options, .inr ⟨rfl, a, _, rfl, h⟩⟩

def lone : Engine :=
  (ofParts ⟨.ofProcess, [(['A'], ['1'])]⟩ .standard true 64 []).acts [.start]

theorem failed_assignment_sample :
    Table.ofPairs .ofProcess [(['A'], ['1'])] = .ok ⟨.ofProcess, [(['A'], ['1'])]⟩ ∧
      Text.trimStart " $A .= '\x00'".toList = '$' :: "A .= '\x00'".toList ∧
      (lone.assign " $A .= '\x00'".toList).2 = .error (.fault .embeddedNul) ∧
      (lone.assign " $A .= '\x00'".toList).1.table = lone.table ∧
      ∃ r, Strayed lone ['A'] ['1', '\x00'] r (lone.assign " $A .= '\x00'".toList).1 := by
  have ht : Table.ofPairs .ofProcess [(['A'], ['1'])] = .ok ⟨.ofProcess, [(['A'], ['1'])]⟩ := rfl
  have hd : Text.trimStart " $A .= '\x00'".toList = '$' :: "A .= '\x00'".toList := by
    decide +kernel
  have hf : (lone.assign " $A .= '\x00'".toList).2 = .error (.fault .embeddedNul) := by
    decide +kernel
  have hplan : lone.plan " $A .= '\x00'".toList =
      .ok ⟨⟨.environment, ['A']⟩, .append, ['\x00']⟩ := by decide +kernel
  have hgiven : lone.given ⟨⟨.environment, ['A']⟩, .append, ['\x00']⟩ = ['1', '\x00'] := by
    decide +kernel
  obtain ⟨htable, -, hcase⟩ := failed_assignment ht .standard true 64 [] [.start] hd hf
  refine ⟨ht, hd, hf, htable, ?_⟩
  rcases hcase with ⟨hne, -⟩ | ⟨-, a, r, hp, hstrayed⟩
  · exact absurd rfl hne
  · cases Except.ok.inj (hplan.symm.trans hp)
    rw [← hgiven]
    exact ⟨r, hstrayed⟩

/-- The registry keeps what the table refused, of a variable that is there, of
one that was removed and of one that is new. -/
theorem refused_value_is_kept :
    (lone.assign "$A = 'x\x00'".toList).2 = .error (.fault .embeddedNul) ∧
      lone.registry.items = [(['A'], ['1'])] ∧
      (lone.assign "$A = 'x\x00'".toList).1.registry.items = [(['A'], ['x', '\x00'])] ∧
      (lone.assign "$A = 'x\x00'".toList).1.table.pairs = [(['A'], ['1'])] ∧
      ((lone.act (.statement (.remove "$A".toList))).assign "$A = '\x00'".toList).1.registry.items =
        [(['A'], ['\x00'])] ∧
      ((lone.act (.statement (.remove "$A".toList))).assign "$A = '\x00'".toList).1.table.pairs =
        [] ∧
      (lone.assign "$B = '\x00'".toList).1.registry.items = [(['A'], ['1']), (['B'], ['\x00'])] ∧
      (lone.assign "$B = '\x00'".toList).1.table.pairs = [(['A'], ['1'])] := by
  decide +kernel

end Engine

end LetShell
