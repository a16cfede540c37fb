import LetShell.Proofs.Text.Trim

/-!
# Readers of tokens

The four readers of tokens are of one kind: what they read is a spelling that
ends with no blank, and it ends where the text does not continue it. So they
read the same in front of any text that begins with something else. Blanks are
such a text, and no token ends in them: whether a token is read does not depend
on the blanks behind it.
-/

set_option autoImplicit false

namespace LetShell.Expression
open Text

/-- A reader takes the spellings of its tokens, wherever the text does not continue them. -/
structure Takes (read : Text → Option (Text × Text)) (spells : Text → Text → Prop)
    (continues : Char → Bool) : Prop where
  read_iff : ∀ t v rest, read t = some (v, rest) ↔
    ∃ c, spells v c ∧ t = c ++ rest ∧ Free continues rest
  closed : ∀ v c, spells v c → Closed c
  stops : ∀ c, isBlank c = true → continues c = false

section
variable {s t v rest w : Text} {p : Char → Bool} {read : Text → Option (Text × Text)}
  {spells : Text → Text → Prop}

theorem read_append (h : Takes read spells p) (hs : Free p s) (hr : read t = some (v, rest)) :
    read (t ++ s) = some (v, rest ++ s) := by
  obtain ⟨c, hc, rfl, hfree⟩ := (h.read_iff t v rest).mp hr
  exact (h.read_iff _ _ _).mpr ⟨c, hc, List.append_assoc .., free_append hfree hs⟩

theorem read_blank (h : Takes read spells p) (hw : Blank w) (t : Text) :
    read (t ++ w) = (read t).map fun q => (q.1, q.2 ++ w) := by
  cases hr : read t with
  | some q => exact read_append h (free_of_forall fun c hc => h.stops c (hw c hc)) hr
  | none =>
    cases hr' : read (t ++ w) with
    | none => rfl
    | some q =>
      obtain ⟨c, hc, ht, hfree⟩ := (h.read_iff (t ++ w) q.1 q.2).mp hr'
      obtain ⟨r, rfl, hrest⟩ := closed_prefix (h.closed _ c hc) hw ht
      rw [hrest] at hfree
      have hsome := (h.read_iff (c ++ r) q.1 r).mpr ⟨c, hc, rfl, free_prefix hfree⟩
      rw [hr] at hsome
      cases hsome

theorem takes_singleQuoted :
    Takes singleQuoted (fun v c => c = doubled v ++ ['\'']) (· == '\'') where
  read_iff t v rest := by
    constructor
    · intro h
      obtain ⟨ht, hfree⟩ := singleQuoted_sound h
      exact ⟨_, rfl, by simpa using ht, hfree⟩
    · rintro ⟨c, rfl, rfl, hfree⟩
      rw [List.append_assoc]
      exact singleQuoted_complete v hfree
  closed v c h := ⟨doubled v, '\'', h, by decide⟩
  stops c h := (blank_continues_nothing h).1

theorem takes_doubleQuoted :
    Takes doubleQuoted (fun v c => ∃ written, Escaped v written ∧ c = written ++ ['"'])
      (fun _ => false) where
  read_iff t v rest := by
    constructor
    · intro h
      obtain ⟨written, hv, ht⟩ := doubleQuoted_sound h
      exact ⟨_, ⟨written, hv, rfl⟩, by simpa using ht, fun _ _ => rfl⟩
    · rintro ⟨c, ⟨written, hv, rfl⟩, rfl, -⟩
      rw [List.append_assoc]
      exact doubleQuoted_complete hv rest
  closed := by
    rintro v c ⟨written, -, rfl⟩
    exact ⟨written, '"', rfl, by decide⟩
  stops _ _ := rfl

theorem takes_name? {a : Alphabet} (hfirst : ∀ c, a.first c = true → a.other c = true)
    (hother : ∀ c, isBlank c = true → a.other c = false) :
    Takes a.name? (fun v c => a.Accepts v ∧ c = v) a.other where
  read_iff t v rest := by
    constructor
    · intro h
      obtain ⟨ha, ht⟩ := Alphabet.name?_eq_some h
      exact ⟨v, ⟨ha, rfl⟩, ht, name?_free h⟩
    · rintro ⟨c, ⟨ha, rfl⟩, rfl, hfree⟩
      exact name?_complete ha hfree
  closed := by
    rintro v c ⟨ha, rfl⟩
    have hne : c ≠ [] := by
      rintro rfl
      exact ha
    exact closed_of_solid hne (solid_of_accepts hfirst hother ha)
  stops := hother

theorem takes_environment :
    Takes Alphabet.environment.name? (fun v c => Alphabet.environment.Accepts v ∧ c = v)
      Alphabet.environment.other :=
  takes_name? (fun _ => environment_other_of_first) fun _ h => (blank_continues_nothing h).2.2.1

theorem takes_option :
    Takes Alphabet.option.name? (fun v c => Alphabet.option.Accepts v ∧ c = v)
      Alphabet.option.other :=
  takes_name? (fun _ => option_other_of_first) fun _ h => (blank_continues_nothing h).2.2.2

theorem takes_numeral? :
    Takes numeral?
      (fun v c => c = v ∧ ∃ negative digits, v = signed negative digits ∧ digits ≠ [] ∧
        ∀ d ∈ digits, isDigit d = true) isDigit where
  read_iff t v rest := by
    constructor
    · intro h
      obtain ⟨negative, digits, hv, hne, hd, ht, hfree⟩ := numeral?_sound h
      exact ⟨v, ⟨rfl, negative, digits, hv, hne, hd⟩, ht, hfree⟩
    · rintro ⟨c, ⟨rfl, negative, digits, rfl, hne, hd⟩, rfl, hfree⟩
      exact numeral?_complete hne hd hfree
  closed := by
    rintro v c ⟨rfl, negative, digits, rfl, hne, hd⟩
    have hdigits := closed_of_solid hne fun d hm => not_blank_of_digit (hd d hm)
    cases negative with
    | true => exact closed_append hdigits ['-']
    | false => exact hdigits
  stops c h := (blank_continues_nothing h).2.1

end

end LetShell.Expression
