import LetShell.Proofs.Expression.Decimal
import LetShell.Proofs.Options.Algebra
import LetShell.Proofs.Options.Canonical

/-!
# Values set again

A proper value has a text, unless it is an integer too long to be written, and
setting that text gives the value back. Each type has its own way there: truth
values are written as 0 and 1, integers in decimal, lists and sets as the items
that they were normalised to. So a store is left as it was.
-/

set_option autoImplicit false

namespace LetShell

namespace Definition

section
variable {d : Definition} {t : Text}

theorem format_ok_or_long (h : d.Proper) :
    (∃ t, d.format = .ok t) ∨ ∃ n, d.value = .int n ∧ Numeral.Long n := by
  obtain ⟨name, type, value, scope, values⟩ := d
  cases h with
  | bool b => exact .inl ⟨_, rfl⟩
  | int n =>
    by_cases hn : Numeral.Long n
    · exact .inr ⟨n, rfl, hn⟩
    · exact .inl ⟨_, Numeral.write_eq_ok_iff.mpr ⟨Nat.le_of_not_lt hn, rfl⟩⟩
  | string => exact .inl ⟨_, rfl⟩
  | stringList => exact .inl ⟨_, rfl⟩
  | enum => exact .inl ⟨_, rfl⟩
  | set => exact .inl ⟨_, rfl⟩

theorem readBool_format (d : Definition) (b : Bool) :
    d.readBool (if b then ['1'] else ['0']) = .ok b := by
  cases b with
  | true => rw [readBool, if_pos rfl, if_pos (by decide)]
  | false => rw [readBool, if_neg Bool.false_ne_true, if_neg (by decide), if_pos (by decide)]

theorem readInt_write {n : Int} (h : Numeral.write n = .ok t) : d.readInt t = .ok n := by
  obtain ⟨hl, rfl⟩ := Numeral.write_eq_ok_iff.mp h
  rw [readInt, Numeral.read_ofInt hl]

theorem set_format (hp : d.Proper) (ht : d.Told) (h : d.format = .ok t) :
    d.set t = .ok d.value := by
  obtain ⟨name, type, value, scope, values⟩ := d
  cases hp with
  | bool b =>
    cases h
    exact congrArg (Except.map OptionValue.bool) (readBool_format _ b)
  | int n => exact congrArg (Except.map OptionValue.int) (readInt_write h)
  | string =>
    cases h
    rfl
  | stringList hx =>
    cases h
    simp only [set, Text.items_ofItems hx]
  | enum hm =>
    cases h
    exact if_pos hm
  | @set xs hx hs =>
    cases h
    have hnone : xs.filter (· ∉ values) = [] := by
      simpa [List.filter_eq_nil_iff] using fun x hm => hs.mem hm
    have hsame := Text.filter_mem_sublist (ht (.inr rfl)).nodup hs
    simp only [set, readItems, Text.items_ofItems hx, hnone, if_true, Except.map, arranged, hsame]

end

end Definition

namespace OptionStore

section
variable {s : OptionStore} {d : Definition}

theorem assign_value (h : s.Valued) (hd : s.lookup d.scope d.name = some d) :
    s.assign d.scope d.name d.value = s := by
  have hkeep : (s.partition d.scope).map
      (fun x => if x.name = d.name then { x with value := d.value } else x) =
        s.partition d.scope := by
    refine (List.map_congr_left ?_).trans (List.map_id _)
    intro x hx
    split
    · rename_i hname
      rw [List.inj_on_of_nodup_map (h.names d.scope) hx (mem_of_lookup hd) hname]
      rfl
    · rfl
  unfold assign update
  split <;> rename_i hscope <;> rw [hscope] at hkeep
  · exact congrArg (fun ds => { s with globals := ds }) hkeep
  · exact congrArg (fun ds => { s with locals := ds }) hkeep

theorem change_format (h : s.Valued) (hd : s.lookup d.scope d.name = some d) {t : Text}
    (hf : d.format = .ok t) : s.change d .set t = (s, .ok ()) := by
  have hm := mem_of_lookup hd
  have hset : d.changed .set t = .ok d.value := by
    have hset := Definition.set_format (h.proper _ d hm) (h.told _ d hm) hf
    simp only [Definition.changed, hset, Definition.lift]
  simp only [change, hset, assign_value h hd]

end

end OptionStore

end LetShell
