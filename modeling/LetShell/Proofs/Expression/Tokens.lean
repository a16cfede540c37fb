import LetShell.Proofs.Expression.Tree

/-!
# Tokens

Each reader of a token reads exactly what the token may be written as, and
stops where the text no longer continues it. A run of digits gives a value if
all of them are decimal and they are not too many, and no value otherwise.
-/

set_option autoImplicit false

namespace LetShell.Expression

section
variable {p : Char → Bool} {s rest : Text}

theorem free_dropWhile (p : Char → Bool) (t : Text) : Free p (t.dropWhile p) := by
  induction t with
  | nil => exact free_nil p
  | cons c t ih =>
    by_cases hc : p c = true
    · rw [List.dropWhile_cons_of_pos hc]
      exact ih
    · rw [List.dropWhile_cons_of_neg hc]
      exact free_cons (Bool.not_eq_true _ ▸ hc) t

theorem dropWhile_free (h : Free p rest) : rest.dropWhile p = rest := by
  cases rest with
  | nil => rfl
  | cons c t => exact List.dropWhile_cons_of_neg (by simp [h c rfl])

theorem takeWhile_free (h : Free p rest) : rest.takeWhile p = [] := by
  cases rest with
  | nil => rfl
  | cons c t => exact List.takeWhile_cons_of_neg (by simp [h c rfl])

theorem free_of_forall (h : ∀ c ∈ s, p c = false) : Free p s :=
  fun c hc => h c (List.mem_of_mem_head? hc)

theorem trim_of_free {t : Text} (hfront : Free Text.isBlank t) (hback : Free Text.isBlank t.reverse) :
    t.trim = t := by
  rw [Text.trim, trimStart_eq_self_iff.mpr hfront, Text.trimEnd, dropWhile_free hback,
    List.reverse_reverse]

theorem dropWhile_run (hs : ∀ c ∈ s, p c = true) (h : Free p rest) :
    (s ++ rest).dropWhile p = rest := by
  rw [List.dropWhile_append_of_pos hs, dropWhile_free h]

theorem takeWhile_run (hs : ∀ c ∈ s, p c = true) (h : Free p rest) :
    (s ++ rest).takeWhile p = s := by
  rw [List.takeWhile_append_of_pos hs, takeWhile_free h, List.append_nil]

end

section
variable {t v rest : Text}

theorem doubled_cons {c : Char} (h : c ≠ '\'') (content : Text) :
    doubled (c :: content) = c :: doubled content := by
  simp [doubled, h]

theorem doubled_quote (content : Text) :
    doubled ('\'' :: content) = '\'' :: '\'' :: doubled content := rfl

theorem singleQuoted_sound (h : singleQuoted t = some (v, rest)) :
    t = doubled v ++ '\'' :: rest ∧ Free (· == '\'') rest := by
  induction t using singleQuoted.induct generalizing v with
  | case1 => cases h
  | case2 s ih =>
    simp only [singleQuoted, Option.map_eq_some_iff] at h
    obtain ⟨⟨w, r⟩, hw, he⟩ := h
    cases he
    obtain ⟨hs, hfree⟩ := ih hw
    refine ⟨?_, hfree⟩
    rw [doubled_quote, List.cons_append, List.cons_append, ← hs]
  | case3 s hs =>
    rw [singleQuoted] at h
    · cases h
      refine ⟨rfl, ?_⟩
      cases rest with
      | nil => exact free_nil _
      | cons d s =>
        apply free_cons
        by_cases hd : d = '\''
        · exact (hs s (by rw [hd])).elim
        · simp [hd]
    · exact hs
  | case4 c s h1 h2 ih =>
    rw [singleQuoted] at h
    · simp only [Option.map_eq_some_iff] at h
      obtain ⟨⟨w, r⟩, hw, he⟩ := h
      cases he
      obtain ⟨hs, hfree⟩ := ih hw
      refine ⟨?_, hfree⟩
      rw [doubled_cons h2, List.cons_append, ← hs]
    · exact h1
    · exact h2

theorem singleQuoted_complete (v : Text) (h : Free (· == '\'') rest) :
    singleQuoted (doubled v ++ '\'' :: rest) = some (v, rest) := by
  induction v with
  | nil =>
    cases rest with
    | nil => rfl
    | cons d rest =>
      have hd : d ≠ '\'' := by simpa using h d rfl
      change singleQuoted ('\'' :: d :: rest) = _
      rw [singleQuoted]
      intro s hs
      cases hs
      exact hd rfl
  | cons c v ih =>
    by_cases hc : c = '\''
    · rw [hc, doubled_quote, List.cons_append, List.cons_append, singleQuoted, ih]
      rfl
    · rw [doubled_cons hc, List.cons_append, singleQuoted, ih]
      · rfl
      · intro s hs
        exact absurd hs hc
      · exact hc

theorem doubleQuoted_sound (h : doubleQuoted t = some (v, rest)) :
    ∃ written, Escaped v written ∧ t = written ++ '"' :: rest := by
  induction t using doubleQuoted.induct generalizing v with
  | case1 => cases h
  | case2 s =>
    rw [doubleQuoted] at h
    cases h
    exact ⟨[], .nil, rfl⟩
  | case3 c s ih =>
    simp only [doubleQuoted, Option.map_eq_some_iff] at h
    obtain ⟨⟨w, r⟩, hw, he⟩ := h
    cases he
    obtain ⟨written, hv, rfl⟩ := ih hw
    exact ⟨'\\' :: c :: written, .escape hv, rfl⟩
  | case4 c s h1 h2 ih =>
    rw [doubleQuoted] at h
    · simp only [Option.map_eq_some_iff] at h
      obtain ⟨⟨w, r⟩, hw, he⟩ := h
      cases he
      obtain ⟨written, hv, rfl⟩ := ih hw
      -- a backslash at the very end would leave no closing quote
      have hb : c ≠ '\\' := by
        intro hc
        cases written with
        | nil => exact h2 _ _ hc rfl
        | cons d written => exact h2 _ _ hc rfl
      exact ⟨c :: written, .plain h1 hb hv, rfl⟩
    · exact h1
    · exact h2

theorem doubleQuoted_complete {written : Text} (h : Escaped v written) (rest : Text) :
    doubleQuoted (written ++ '"' :: rest) = some (v, rest) := by
  induction h with
  | nil => rfl
  | plain hq hb _ ih =>
    rw [List.cons_append, doubleQuoted, ih]
    · rfl
    · exact hq
    · intro c s hc
      exact absurd hc hb
  | escape _ ih =>
    rw [List.cons_append, List.cons_append, doubleQuoted, ih]
    rfl

theorem name?_free {a : Alphabet} {name : Text} (h : a.name? t = some (name, rest)) :
    Free a.other rest := by
  cases t with
  | nil => cases h
  | cons c t =>
    simp only [Alphabet.name?] at h
    split at h
    · cases h
      exact free_dropWhile a.other t
    · cases h

theorem solid_of_accepts {a : Alphabet} (hfirst : ∀ c, a.first c = true → a.other c = true)
    (hblank : ∀ c, Text.isBlank c = true → a.other c = false) {name : Text}
    (hn : a.Accepts name) : ∀ c ∈ name, Text.isBlank c = false := by
  have hother : ∀ c ∈ name, a.other c = true := by
    cases name with
    | nil => exact hn.elim
    | cons c s => exact List.forall_mem_cons.mpr ⟨hfirst c hn.1, hn.2⟩
  intro c hc
  cases hb : Text.isBlank c with
  | false => rfl
  | true =>
    rw [← hother c hc]
    exact hblank c hb

theorem environment_other_of_first {c : Char} (h : Alphabet.environment.first c = true) :
    Alphabet.environment.other c = true := by
  simp only [Alphabet.environment, Char.isAlphanum, Bool.or_eq_true] at h ⊢
  rcases h with h | h
  · exact .inl (.inl h)
  · exact .inr h

theorem option_other_of_first {c : Char} (h : Alphabet.option.first c = true) :
    Alphabet.option.other c = true := by
  have hlower : c.isLower = true := h
  change (c.isUpper || c.isLower || c.isDigit) = true
  rw [hlower, Bool.or_true, Bool.true_or]

theorem name?_complete {a : Alphabet} {name : Text} (hn : a.Accepts name)
    (h : Free a.other rest) : a.name? (name ++ rest) = some (name, rest) := by
  cases name with
  | nil => exact hn.elim
  | cons c s =>
    obtain ⟨hc, hs⟩ := hn
    rw [List.cons_append, Alphabet.name?, if_pos hc, takeWhile_run hs h, dropWhile_run hs h]

end

section
variable {t rest : Text} {negative : Bool} {digits : Text} {n : Int}

theorem numeral?_sound {token : Text} (h : numeral? t = some (token, rest)) :
    ∃ negative digits, token = signed negative digits ∧ digits ≠ [] ∧
      (∀ c ∈ digits, Text.isDigit c = true) ∧ t = token ++ rest ∧ Free Text.isDigit rest := by
  have hall : ∀ {c : Char} {s : Text}, Text.isDigit c = true →
      ∀ d ∈ c :: s.takeWhile Text.isDigit, Text.isDigit d = true := by
    intro c s hc d hd
    rcases List.mem_cons.mp hd with rfl | hd
    · exact hc
    · exact List.all_eq_true.mp List.all_takeWhile d hd
  unfold numeral? at h
  split at h
  · split at h
    · rename_i c s hc
      cases h
      exact ⟨true, _, rfl, by simp, hall hc, by simp, free_dropWhile _ s⟩
    · cases h
  · split at h
    · rename_i c s _ hc
      cases h
      exact ⟨false, _, rfl, by simp, hall hc, by simp, free_dropWhile _ s⟩
    · cases h
  · cases h

theorem not_digit_minus : Text.isDigit '-' = false := by decide +kernel

theorem numeral?_complete (hne : digits ≠ []) (hd : ∀ c ∈ digits, Text.isDigit c = true)
    (h : Free Text.isDigit rest) :
    numeral? (signed negative digits ++ rest) = some (signed negative digits, rest) := by
  cases digits with
  | nil => exact absurd rfl hne
  | cons c s =>
    have hc := hd c (List.mem_cons_self ..)
    have hs : ∀ d ∈ s, Text.isDigit d = true := fun d hm => hd d (List.mem_cons_of_mem c hm)
    cases negative with
    | true =>
      change numeral? ('-' :: c :: (s ++ rest)) = _
      rw [numeral?, if_pos hc, takeWhile_run hs h, dropWhile_run hs h]
      rfl
    | false =>
      change numeral? (c :: (s ++ rest)) = _
      rw [numeral?]
      · rw [if_pos hc, takeWhile_run hs h, dropWhile_run hs h]
        rfl
      · intro d u hminus
        rw [hminus, not_digit_minus] at hc
        cases hc

theorem not_blank_of_digit {c : Char} (h : Text.isDigit c = true) : Text.isBlank c = false := by
  cases hb : Text.isBlank c with
  | false => rfl
  | true =>
    rw [(blank_continues_nothing hb).2.1] at h
    cases h

theorem not_padding_of_digit {c : Char} (h : Text.isDigit c = true) :
    Numeral.isPadding c = false := by
  rw [Numeral.isPadding, not_blank_of_digit h, Bool.false_and]

theorem isPart_of_digit {c : Char} (h : Text.isDigit c = true) :
    Numeral.isPart c = Text.isDecimal c := by
  have hne : (c == '_') = false := by
    rw [beq_eq_false_iff_ne]
    rintro rfl
    revert h
    decide +kernel
  rw [Numeral.isPart, hne, Bool.or_false]

theorem split_signed (hne : digits ≠ []) (hd : ∀ c ∈ digits, Text.isDigit c = true) :
    Numeral.split ((signed negative digits).dropWhile Numeral.isPadding) = (negative, digits) := by
  cases digits with
  | nil => exact absurd rfl hne
  | cons c s =>
    have hc := hd c (List.mem_cons_self ..)
    cases negative with
    | true => rfl
    | false =>
      have hp : (c :: s).dropWhile Numeral.isPadding = c :: s :=
        dropWhile_free (free_cons (not_padding_of_digit hc) s)
      have hsign : ∀ d : Char, Text.isDigit d = false → c ≠ d := by
        rintro d hd rfl
        rw [hd] at hc
        cases hc
      change Numeral.split ((c :: s).dropWhile Numeral.isPadding) = _
      rw [hp, Numeral.split]
      · intro u hu
        exact hsign '-' not_digit_minus (List.cons.inj hu).1
      · intro u hu
        exact hsign '+' (by decide +kernel) (List.cons.inj hu).1

theorem grouped_decimal (hne : digits ≠ []) (hd : ∀ c ∈ digits, Text.isDecimal c = true) :
    Numeral.grouped digits = true := by
  induction digits with
  | nil => exact absurd rfl hne
  | cons c s ih =>
    have hc := hd c (List.mem_cons_self ..)
    have hs : ∀ d ∈ s, Text.isDecimal d = true := fun d hm => hd d (List.mem_cons_of_mem c hm)
    cases s with
    | nil => exact hc
    | cons d s =>
      have hscore : d ≠ '_' := by
        rintro rfl
        exact absurd (hs '_' (List.mem_cons_self ..)) (by decide +kernel)
      rw [Numeral.grouped, hc, ih (by simp) hs]
      · rfl
      · intro hnil
        cases hnil
      · intro u hu
        exact hscore (List.cons.inj hu).1

theorem length_places (hd : ∀ c ∈ digits, Text.isDecimal c = true) :
    (Numeral.places digits).length = digits.length := by
  induction digits with
  | nil => rfl
  | cons c s ih =>
    obtain ⟨d, hc⟩ := Option.isSome_iff_exists.mp (hd c (List.mem_cons_self ..))
    have hs := ih fun x hm => hd x (List.mem_cons_of_mem c hm)
    rw [Numeral.places, List.filterMap_cons_some hc, List.length_cons, List.length_cons, ← hs]
    rfl

theorem readOrFault_signed (hne : digits ≠ []) (hd : ∀ c ∈ digits, Text.isDecimal c = true)
    (hl : digits.length ≤ digitLimit) :
    Numeral.readOrFault (signed negative digits) = .ok (signedValue negative digits) := by
  have hdigit : ∀ c ∈ digits, Text.isDigit c = true := fun c hc =>
    Text.isDigit_of_isDecimal (hd c hc)
  have hpart : ∀ c ∈ digits, Numeral.isPart c = true := by
    intro c hc
    rw [isPart_of_digit (hdigit c hc)]
    exact hd c hc
  have htake : digits.takeWhile Numeral.isPart = digits := by
    simpa using takeWhile_run hpart (free_nil _)
  have hdrop : digits.dropWhile Numeral.isPart = [] := by
    simpa using dropWhile_run hpart (free_nil _)
  have hlong : ¬ digitLimit < (Numeral.places digits).length := by
    rw [length_places hd]
    omega
  simp only [Numeral.readOrFault, Numeral.read, split_signed hne hdigit, htake, hdrop,
    grouped_decimal hne hd, hlong, List.all_nil, Bool.not_true, Bool.false_eq_true, if_false,
    signedValue]

theorem decimal_of_readOrFault (hne : digits ≠ []) (hd : ∀ c ∈ digits, Text.isDigit c = true)
    (h : Numeral.readOrFault (signed negative digits) = .ok n) :
    (∀ c ∈ digits, Text.isDecimal c = true) ∧ digits.length ≤ digitLimit := by
  have hdrop : (digits.dropWhile Numeral.isPart).all Numeral.isPadding = true ∧
      (Numeral.places (digits.takeWhile Numeral.isPart)).length ≤ digitLimit := by
    simp only [Numeral.readOrFault, Numeral.read, split_signed hne hd] at h
    split at h
    · rename_i hread
      split at hread
      · cases hread
      · split at hread
        · cases hread
        · rename_i hlong
          split at hread
          · cases hread
          · rename_i hall
            exact ⟨by simpa using hall, by omega⟩
    · cases h
    · cases h
  obtain ⟨hpad, hlong⟩ := hdrop
  have hnil : digits.dropWhile Numeral.isPart = [] := by
    cases hrest : digits.dropWhile Numeral.isPart with
    | nil => rfl
    | cons c s =>
      have hmem : c ∈ digits := by
        apply (List.dropWhile_sublist Numeral.isPart).mem
        rw [hrest]
        exact List.mem_cons_self ..
      rw [hrest, List.all_cons, not_padding_of_digit (hd c hmem), Bool.false_and] at hpad
      cases hpad
  have htake : digits.takeWhile Numeral.isPart = digits := by
    have happ := List.takeWhile_append_dropWhile (p := Numeral.isPart) (l := digits)
    rw [hnil, List.append_nil] at happ
    exact happ
  have hdecimal : ∀ c ∈ digits, Text.isDecimal c = true := by
    intro c hc
    rw [← isPart_of_digit (hd c hc)]
    rw [← htake] at hc
    exact List.all_eq_true.mp List.all_takeWhile c hc
  rw [htake, length_places hdecimal] at hlong
  exact ⟨hdecimal, hlong⟩

end

end LetShell.Expression
