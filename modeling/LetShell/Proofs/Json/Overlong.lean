import LetShell.Proofs.Expression.Tokens
import LetShell.Proofs.Json.Progress

/-!
# Integers that are too long

The JSON reader refuses an integer with more digits than an integer may have,
and this is not an error in the JSON. It does so when it comes to the integer,
after it has read all that stands before: nothing after it matters, and an
error before it is found first.
-/

set_option autoImplicit false

namespace LetShell.Json
open Expression

/-- The text begins with an integer, after a sign or none, that has too many
digits: no further digit follows, nor a fraction, nor an exponent. -/
structure LongInteger (digits left t : Text) : Prop where
  spelled : t = digits ++ left ∨ t = '-' :: (digits ++ left)
  long : digitLimit < digits.length
  digit : ∀ c ∈ digits, c.isDigit = true
  lead : digits.head? ≠ some '0'
  ended : Free Char.isDigit left
  point : (fraction left).1 = []
  power : exponent? left = none

inductive Place where
  | value
  | element
  | member

/-- Reading on from this place comes to an integer of `n` digits that is too long. -/
inductive Meets (n : Nat) : Place → Text → Prop
  | integer {digits left t : Text} (h : LongInteger digits left t) (hn : digits.length = n) :
      Meets n .value t
  | array {s : Text} (h : Meets n .element (skip s)) : Meets n .value ('[' :: s)
  | object {s : Text} (h : Meets n .member (skip s)) : Meets n .value ('\x7b' :: s)
  | element {t : Text} (h : Meets n .value t) : Meets n .element t
  | nextElement {t left more : Text} {v : Json} (hv : start t = .ok (v, left))
      (hcomma : skip left = ',' :: more) (h : Meets n .element (skip more)) : Meets n .element t
  | member {s left body : Text} {key : Key} (hk : readString s = .ok (key, left))
      (hcolon : skip left = ':' :: body) (h : Meets n .value (skip body)) :
      Meets n .member ('"' :: s)
  | nextMember {s left body tail more : Text} {key : Key} {v : Json}
      (hk : readString s = .ok (key, left)) (hcolon : skip left = ':' :: body)
      (hv : start (skip body) = .ok (v, tail)) (hcomma : skip tail = ',' :: more)
      (h : Meets n .member (skip more)) : Meets n .member ('"' :: s)

section
variable {n : Nat} {t s digits left : Text}

theorem ok_ne_tooLong {α : Type} (a : α) : (.ok a : Outcome α) ≠ .error (.tooLong n) := by
  rintro ⟨⟩

theorem malformed_ne_tooLong {α : Type} :
    (.error .malformed : Outcome α) ≠ .error (.tooLong n) := by
  rintro ⟨⟩

theorem fraction_of_no_places (h : (fraction left).1 = []) : (fraction left).2 = left := by
  unfold fraction at h ⊢
  split
  · split
    · rename_i hc
      simp only [hc, if_true] at h
      cases h
    · rfl
  · rfl

theorem whole?_long_iff (hl : 1 < digits.length) : whole? t = some (digits, left) ↔
    t = digits ++ left ∧ (∀ c ∈ digits, c.isDigit = true) ∧ digits.head? ≠ some '0' ∧
      Free Char.isDigit left := by
  constructor
  · intro h
    unfold whole? at h
    split at h
    · cases h
      simp at hl
    · rename_i c s hc
      split at h
      · rename_i hd
        cases h
        refine ⟨?_, ?_, ?_, free_dropWhile _ _⟩
        · rw [List.cons_append, List.takeWhile_append_dropWhile]
        · exact List.forall_mem_cons.mpr ⟨hd, List.all_eq_true.mp List.all_takeWhile⟩
        · rintro ⟨⟩
          exact hc rfl
      · cases h
    · cases h
  · rintro ⟨rfl, hd, hlead, hfree⟩
    cases digits with
    | nil => simp at hl
    | cons c ds =>
      obtain ⟨hc, hds⟩ := List.forall_mem_cons.mp hd
      have hzero : c ≠ '0' := by
        rintro rfl
        exact hlead rfl
      have htake := takeWhile_run hds hfree
      have hdrop := dropWhile_run hds hfree
      rw [List.cons_append, whole?]
      · rw [if_pos hc, htake, hdrop]
      · exact fun h => hzero h

theorem longInteger_of_readNumber (h : readNumber t = .error (.tooLong n)) :
    ∃ digits left, LongInteger digits left t ∧ digits.length = n := by
  have hcases := numbered_readNumber t
  rw [h] at hcases
  cases hcases with
  | @overlong digits left hsigned hp he hl =>
    obtain ⟨body, hbody, hw⟩ := hsigned
    have hlong : 1 < digits.length := Nat.lt_trans (by decide) hl
    obtain ⟨rfl, hd, hlead, hfree⟩ := (whole?_long_iff hlong).mp hw
    rw [fraction_of_no_places hp] at he
    exact ⟨digits, left, ⟨hbody, hl, hd, hlead, hfree, hp, he⟩, rfl⟩

theorem digits_of_longInteger (h : LongInteger digits left t) :
    ∃ d ds, digits = d :: ds ∧ d.isDigit = true := by
  cases hds : digits with
  | nil => exact absurd h.long (by simp [hds])
  | cons d ds => exact ⟨d, ds, rfl, h.digit d (hds ▸ List.mem_cons_self ..)⟩

theorem readNumber_of_longInteger (h : LongInteger digits left t) :
    readNumber t = .error (.tooLong digits.length) := by
  have hlong : 1 < digits.length := Nat.lt_trans (by decide) h.long
  have hw : whole? (digits ++ left) = some (digits, left) :=
    (whole?_long_iff hlong).mpr ⟨rfl, h.digit, h.lead, h.ended⟩
  have hf : fraction left = ([], left) := Prod.ext h.point (fraction_of_no_places h.point)
  rcases h.spelled with rfl | rfl
  · rw [readNumber]
    · simp only [hw, hf, h.power, if_pos h.long]
    · intro s hsign
      obtain ⟨d, ds, rfl, hd⟩ := digits_of_longInteger h
      rw [(List.cons.inj hsign).1] at hd
      exact absurd hd (by decide)
  · rw [readNumber]
    simp only [hw, hf, h.power, if_pos h.long]

theorem ne_of_longInteger (h : LongInteger digits left t) {c : Char} (hc : c.isDigit = false)
    (hminus : c ≠ '-') (s : Text) : t ≠ c :: s := by
  obtain ⟨d, ds, hdigits, hd⟩ := digits_of_longInteger h
  have hspelled := h.spelled
  rintro rfl
  rw [hdigits] at hspelled
  rcases hspelled with hs | hs
  · rw [(List.cons.inj hs).1, hd] at hc
    cases hc
  · exact hminus (List.cons.inj hs).1

theorem start_of_longInteger (h : LongInteger digits left t) :
    start t = .error (.tooLong digits.length) := by
  obtain ⟨d, ds, hdigits, hd⟩ := digits_of_longInteger h
  have hspelled := h.spelled
  have hnumber := readNumber_of_longInteger h
  rw [start, value.eq_def]
  simp only
  split
  · exact absurd rfl (ne_of_longInteger (c := '"') h (by decide) (by decide) _)
  · exact absurd rfl (ne_of_longInteger (c := '\x7b') h (by decide) (by decide) _)
  · exact absurd rfl (ne_of_longInteger (c := '[') h (by decide) (by decide) _)
  · exact absurd rfl (ne_of_longInteger (c := 'n') h (by decide) (by decide) _)
  · exact absurd rfl (ne_of_longInteger (c := 't') h (by decide) (by decide) _)
  · exact absurd rfl (ne_of_longInteger (c := 'f') h (by decide) (by decide) _)
  · exact absurd rfl (ne_of_longInteger (c := 'N') h (by decide) (by decide) _)
  · exact absurd rfl (ne_of_longInteger (c := 'I') h (by decide) (by decide) _)
  · rw [hdigits] at hspelled
    rcases hspelled with hs | hs
    · rw [← (List.cons.inj hs).1] at hd
      exact absurd hd (by decide)
    · rw [← (List.cons.inj (List.cons.inj hs).2).1] at hd
      exact absurd hd (by decide)
  · exact hnumber

theorem longInteger_of_start (harray : ∀ s, t ≠ '[' :: s) (hobject : ∀ s, t ≠ '\x7b' :: s)
    (h : start t = .error (.tooLong n)) :
    ∃ digits left, LongInteger digits left t ∧ digits.length = n := by
  rw [start, value.eq_def] at h
  simp only at h
  split at h
  · rename_i s
    unfold readString at h
    split at h <;> cases h
  · exact absurd rfl (hobject _)
  · exact absurd rfl (harray _)
  iterate 6 cases h
  · exact longInteger_of_readNumber h

/-- Values up to the length of `t` are read to a long integer where they meet one. -/
def Known (n : Nat) (t : Text) : Prop :=
  ∀ u : Text, u.length ≤ t.length → (start u = .error (.tooLong n) ↔ Meets n .value u)

theorem elements_tooLong_iff {fuel : Nat} (read : List Json) (hk : Known n t)
    (hl : t.length < fuel) :
    elements start fuel read t = .error (.tooLong n) ↔ Meets n .element t := by
  induction fuel generalizing read t with
  | zero => cases hl
  | succ fuel ih =>
    rw [elements]
    cases hs : start t with
    | error e =>
      have hvalue := hk t (Nat.le_refl _)
      rw [hs] at hvalue
      constructor
      · intro h
        exact .element (hvalue.mp (by simpa using h))
      · intro h
        cases h with
        | element h => simpa using hvalue.mpr h
        | nextElement hv =>
          rw [hs] at hv
          cases hv
    | ok p =>
      obtain ⟨v, left⟩ := p
      have hleft := shrinks_start t v left hs
      have hnext : Meets n .element t ↔
          ∃ more, skip left = ',' :: more ∧ Meets n .element (skip more) := by
        constructor
        · intro h
          cases h with
          | element h =>
            have herror := (hk t (Nat.le_refl _)).mpr h
            rw [hs] at herror
            cases herror
          | nextElement hv hcomma h =>
            cases Except.ok.inj (hs.symm.trans hv)
            exact ⟨_, hcomma, h⟩
        · rintro ⟨more, hcomma, h⟩
          exact .nextElement hs hcomma h
      rw [hnext]
      simp only
      split
      · rename_i more hcomma
        have hafter := length_after_skip hcomma
        have hskip := length_skip_le more
        rw [ih _ (fun u hu => hk u (by omega)) (by omega)]
        constructor
        · exact fun h => ⟨more, hcomma, h⟩
        · rintro ⟨more', hcomma', h⟩
          cases hcomma.symm.trans hcomma'
          exact h
      · rename_i more hclose
        refine iff_of_false (ok_ne_tooLong _) ?_
        rintro ⟨more', hcomma, -⟩
        cases hclose.symm.trans hcomma
      · rename_i hno _
        refine iff_of_false malformed_ne_tooLong ?_
        rintro ⟨more', hcomma, -⟩
        exact absurd hcomma (hno more')

theorem member_iff {key : Key} {body : Text} (hkey : readString s = .ok (key, left))
    (hcolon : skip left = ':' :: body) : Meets n .member ('"' :: s) ↔
      Meets n .value (skip body) ∨ ∃ v tail more, start (skip body) = .ok (v, tail) ∧
        skip tail = ',' :: more ∧ Meets n .member (skip more) := by
  constructor
  · intro h
    cases h with
    | member hk hc h =>
      cases Except.ok.inj (hkey.symm.trans hk)
      cases hcolon.symm.trans hc
      exact .inl h
    | nextMember hk hc hv hcomma h =>
      cases Except.ok.inj (hkey.symm.trans hk)
      cases hcolon.symm.trans hc
      exact .inr ⟨_, _, _, hv, hcomma, h⟩
  · rintro (h | ⟨v, tail, more, hv, hcomma, h⟩)
    · exact .member hkey hcolon h
    · exact .nextMember hkey hcolon hv hcomma h

theorem members_tooLong_iff {fuel : Nat} (read : List (Key × Json)) (hk : Known n t)
    (hl : t.length < fuel) :
    members start fuel read t = .error (.tooLong n) ↔ Meets n .member t := by
  induction fuel generalizing read t with
  | zero => cases hl
  | succ fuel ih =>
    rw [members.eq_def]
    simp only
    split
    · rename_i s
      rw [List.length_cons] at hl
      split
      · rename_i e hs
        constructor
        · rintro ⟨⟩
          unfold readString at hs
          split at hs <;> cases hs
        · intro h
          cases h with
          | member hkey => cases hs.symm.trans hkey
          | nextMember hkey => cases hs.symm.trans hkey
      · rename_i key left hs
        have hkey := length_readString hs
        split
        · rename_i body hcolon
          have hafter := length_after_skip hcolon
          have hskip := length_skip_le body
          have hvalue := hk (skip body) (by rw [List.length_cons]; omega)
          rw [member_iff hs hcolon, ← hvalue]
          cases hv : start (skip body) with
          | error e =>
            constructor
            · exact fun h => .inl (by simpa using h)
            · rintro (h | ⟨v, tail, more, hv', -⟩)
              · simpa using h
              · cases hv'
          | ok p =>
            obtain ⟨v, tail⟩ := p
            have htail := shrinks_start _ v tail hv
            simp only
            split
            · rename_i more hcomma
              have hafter' := length_after_skip hcomma
              have hskip' := length_skip_le more
              rw [ih _ (fun u hu => hk u (by rw [List.length_cons]; omega)) (by omega)]
              constructor
              · exact fun h => .inr ⟨v, tail, more, rfl, hcomma, h⟩
              · rintro (h | ⟨v', tail', more', hv', hcomma', h⟩)
                · cases h
                · cases hv'
                  cases hcomma.symm.trans hcomma'
                  exact h
            · rename_i more hclose
              refine iff_of_false (ok_ne_tooLong _) ?_
              rintro (h | ⟨v', tail', more', hv', hcomma', h⟩)
              · cases h
              · cases hv'
                cases hclose.symm.trans hcomma'
            · rename_i hno _
              refine iff_of_false malformed_ne_tooLong ?_
              rintro (h | ⟨v', tail', more', hv', hcomma', h⟩)
              · cases h
              · cases hv'
                exact absurd hcomma' (hno more')
        · rename_i hno
          refine iff_of_false malformed_ne_tooLong ?_
          intro h
          cases h with
          | member hkey hcolon =>
            cases Except.ok.inj (hs.symm.trans hkey)
            exact absurd hcolon (hno _)
          | nextMember hkey hcolon =>
            cases Except.ok.inj (hs.symm.trans hkey)
            exact absurd hcolon (hno _)
    · rename_i hno
      refine iff_of_false malformed_ne_tooLong ?_
      intro h
      cases h with
      | member => exact absurd rfl (hno _)
      | nextMember => exact absurd rfl (hno _)

theorem array_iff : Meets n .value ('[' :: s) ↔ Meets n .element (skip s) := by
  constructor
  · intro h
    generalize ht : '[' :: s = t at h
    cases h with
    | integer h => exact absurd ht.symm (ne_of_longInteger h (by decide) (by decide) s)
    | array h => rwa [(List.cons.inj ht).2]
    | object h => exact absurd (List.cons.inj ht).1 (by decide)
  · exact .array

theorem object_iff : Meets n .value ('\x7b' :: s) ↔ Meets n .member (skip s) := by
  constructor
  · intro h
    generalize ht : '\x7b' :: s = t at h
    cases h with
    | integer h => exact absurd ht.symm (ne_of_longInteger h (by decide) (by decide) s)
    | array h => exact absurd (List.cons.inj ht).1 (by decide)
    | object h => rwa [(List.cons.inj ht).2]
  · exact .object

theorem value_iff (harray : ∀ s, t ≠ '[' :: s) (hobject : ∀ s, t ≠ '\x7b' :: s) :
    Meets n .value t ↔ ∃ digits left, LongInteger digits left t ∧ digits.length = n := by
  constructor
  · intro h
    cases h with
    | integer h hn => exact ⟨_, _, h, hn⟩
    | array => exact absurd rfl (harray _)
    | object => exact absurd rfl (hobject _)
  · rintro ⟨digits, left, h, hn⟩
    exact .integer h hn

theorem map_tooLong_iff {α β : Type} {f : α → β} {x : Outcome α} :
    x.map f = .error (.tooLong n) ↔ x = .error (.tooLong n) := by
  cases x with
  | error e =>
    exact ⟨fun h => by simpa [Except.map] using h, fun h => by simpa [Except.map] using h⟩
  | ok a => exact iff_of_false (ok_ne_tooLong _) (ok_ne_tooLong _)

/-- Exactly where the reader meets a long integer it ends with one. -/
theorem start_tooLong_iff (t : Text) : start t = .error (.tooLong n) ↔ Meets n .value t := by
  induction hlength : t.length using Nat.strongRecOn generalizing t with
  | ind length ih =>
    have hknown : ∀ {c : Char} {s : Text}, t = c :: s → Known n (skip s) := by
      rintro c s rfl u hu
      have hskip := length_skip_le s
      rw [List.length_cons] at hlength
      exact ih u.length (by omega) u rfl
    by_cases harray : ∃ s, t = '[' :: s
    · obtain ⟨s, rfl⟩ := harray
      have hiff := elements_tooLong_iff [] (hknown rfl) (Nat.lt_add_one _)
      rw [array_iff, ← hiff]
      by_cases hclose : ∃ rest, skip s = ']' :: rest
      · obtain ⟨rest, hclose⟩ := hclose
        have hempty : start (']' :: rest) = .error .malformed := rfl
        rw [start_array_closed hclose, hclose, elements, hempty]
        exact iff_of_false (ok_ne_tooLong _) malformed_ne_tooLong
      · rw [start_array fun rest h => hclose ⟨rest, h⟩, map_tooLong_iff]
    · by_cases hobject : ∃ s, t = '\x7b' :: s
      · obtain ⟨s, rfl⟩ := hobject
        have hiff := members_tooLong_iff [] (hknown rfl) (Nat.lt_add_one _)
        rw [object_iff, ← hiff]
        by_cases hclose : ∃ rest, skip s = '\x7d' :: rest
        · obtain ⟨rest, hclose⟩ := hclose
          have hempty : ∀ fuel, members start (fuel + 1) [] ('\x7d' :: rest) = .error .malformed :=
            fun _ => rfl
          rw [start_object_closed hclose, hclose, hempty]
          exact iff_of_false (ok_ne_tooLong _) malformed_ne_tooLong
        · rw [start_object fun rest h => hclose ⟨rest, h⟩, map_tooLong_iff]
      · rw [not_exists] at harray hobject
        rw [value_iff harray hobject]
        constructor
        · exact longInteger_of_start harray hobject
        · rintro ⟨digits, left, h, rfl⟩
          exact start_of_longInteger h

theorem read_tooLong_iff (t : Text) : read t = .error (.tooLong n) ↔ Meets n .value (skip t) := by
  have hskip := length_skip_le t
  rw [← start_tooLong_iff, read, value_eq_start (by omega)]
  cases start (skip t) with
  | error e => exact ⟨fun h => by simpa using h, fun h => by simpa using h⟩
  | ok p =>
    simp only
    split
    · exact iff_of_false (ok_ne_tooLong _) (ok_ne_tooLong _)
    · exact iff_of_false malformed_ne_tooLong (ok_ne_tooLong _)

end

end LetShell.Json
