import LetShell.Proofs.Statement.Form
import LetShell.Proofs.Text.Words
import LetShell.Statement.Removal

/-!
# Removals word by word

A removal is read without ever being cut into words: a name is taken up to the
longest length, a token without the sign up to the next blank, and blanks are
skipped in between. It meets one token for each word all the same, up to a word
in which the sign is followed by more than a name can hold.
-/

set_option autoImplicit false

namespace LetShell.Removal
open Expression

/-- What a word by itself comes to, if it does not end the walk. -/
def token : Text → Except ParseError Text
  | ['$'] => .error .emptyName
  | '$' :: name => .ok name
  | w => .error (.unsupportedToken w)

/-- The word ends the walk: after the sign there is a character that is foreign
to names, or there are too many. -/
def isFatal (nameMax : Int) : Text → Bool
  | '$' :: c :: s => (c :: s).any (fun d => !Alphabet.environment.other d) ||
      decide (nameMax < ((c :: s).length : Int))
  | _ => false

def ofWords (nameMax : Int) (ws : List Text) : Removal where
  tokens := (ws.takeWhile fun w => !isFatal nameMax w).map token
  fatal := if ws.any (isFatal nameMax) then some .trailingName else none

section
variable {nameMax : Int} {w s : Text}

theorem ofWords_cons (h : isFatal nameMax w = false) (ws : List Text) :
    ofWords nameMax (w :: ws) = push (token w) (ofWords nameMax ws) := by
  simp [ofWords, push, h]

theorem ofWords_fatal (h : isFatal nameMax w = true) (ws : List Text) :
    ofWords nameMax (w :: ws) = ⟨[], some .trailingName⟩ := by
  simp [ofWords, h]

theorem token_name (s : Text) : token ('$' :: s) = ofName s := by
  cases s <;> simp [token, ofName]

theorem token_other {c : Char} (h : c ≠ '$') (s : Text) :
    token (c :: s) = .error (.unsupportedToken (c :: s)) := by
  simp [token, h]

theorem isFatal_name : isFatal nameMax ('$' :: s) = false ↔
    s = [] ∨ (∀ c ∈ s, Alphabet.environment.other c = true) ∧ (s.length : Int) ≤ nameMax := by
  cases s <;> simp [isFatal]

theorem isFatal_other {c : Char} (h : c ≠ '$') (s : Text) : isFatal nameMax (c :: s) = false := by
  simp [isFatal, h]

end

section
variable {nameMax : Int} {s t : Text}

theorem startsBlank_iff : startsBlank t = true ↔ Free Text.isSolid t := by
  cases t <;> simp [startsBlank, Free, Text.isSolid]

theorem isSolid_of_other {c : Char} (h : Alphabet.environment.other c = true) :
    Text.isSolid c = true := by
  cases hc : Text.isBlank c with
  | false => simp [Text.isSolid, hc]
  | true =>
    obtain ⟨-, -, hother, -⟩ := blank_continues_nothing hc
    rw [hother] at h
    cases h

theorem free_other (h : Free Text.isSolid t) : Free Alphabet.environment.other t := by
  intro c hc
  rw [← Bool.not_eq_true]
  intro hother
  exact absurd (isSolid_of_other hother) (by simp [h c hc])

theorem run_word
    (h : isFatal nameMax ('$' :: s.takeWhile Text.isSolid) = false) :
    Name.run Alphabet.environment.other nameMax s =
      (s.takeWhile Text.isSolid, s.dropWhile Text.isSolid) := by
  have hfree := free_other (free_dropWhile Text.isSolid s)
  have hsplit : s.takeWhile Text.isSolid ++ s.dropWhile Text.isSolid = s :=
    List.takeWhile_append_dropWhile
  rcases isFatal_name.mp h with hempty | ⟨hname, hlength⟩
  · rw [hempty, List.nil_append] at hsplit
    rw [hempty, hsplit]
    rw [hsplit] at hfree
    simp [Name.run, takeWhile_free (free_take hfree _)]
  · have hrun := Name.run_complete hname hlength hfree
    rwa [hsplit] at hrun

theorem isFatal_of_run
    (h : startsBlank (Name.run Alphabet.environment.other nameMax s).2 = true) :
    isFatal nameMax ('$' :: s.takeWhile Text.isSolid) = false := by
  have hname := Name.run_all Alphabet.environment.other nameMax s
  have hword := takeWhile_run (fun c hc => isSolid_of_other (hname c hc)) (startsBlank_iff.mp h)
  rw [Name.run_append] at hword
  have hlength : (s.takeWhile Text.isSolid).length ≤ nameMax.toNat := by
    rw [hword]
    exact Nat.le_trans (List.takeWhile_prefix _).length_le (List.length_take_le _ _)
  rw [isFatal_name]
  by_cases hempty : s.takeWhile Text.isSolid = []
  · exact .inl hempty
  · have hpos := List.length_pos_iff.mpr hempty
    exact .inr ⟨hword ▸ hname, by omega⟩

end

theorem read_eq_ofWords (nameMax : Int) (t : Text) :
    read nameMax t = ofWords nameMax (Text.words t) := by
  -- On the length, since the walk goes on from what a whole word leaves.
  induction hn : t.length using Nat.strongRecOn generalizing t with
  | ind n ih =>
    subst hn
    have hle := Text.length_trimStart_le t
    rw [← Text.words_trimStart]
    cases ht : t.trimStart with
    | nil =>
      rw [read_blank ht]
      rfl
    | cons c s =>
      have hc := Text.head_trimStart ht
      rw [ht, List.length_cons] at hle
      have hshort : (s.dropWhile Text.isSolid).length < t.length :=
        Nat.lt_of_le_of_lt (List.dropWhile_sublist _).length_le hle
      have hrest := ih _ hshort _ rfl
      have hsolid : Text.isSolid c = true := by simp [Text.isSolid, hc]
      rw [Text.words_of_not_blank hc, List.takeWhile_cons_of_pos hsolid,
        List.dropWhile_cons_of_pos hsolid]
      by_cases hsign : c = '$'
      · subst hsign
        rw [read_name ht]
        cases hfatal : isFatal nameMax ('$' :: s.takeWhile Text.isSolid) with
        | false =>
          have hblank := startsBlank_iff.mpr (free_dropWhile Text.isSolid s)
          rw [ofWords_cons hfatal, token_name, run_word hfatal, if_pos hblank, hrest]
        | true =>
          rw [ofWords_fatal hfatal, if_neg]
          intro hblank
          rw [isFatal_of_run hblank] at hfatal
          cases hfatal
      · rw [read_other ht hsign, ofWords_cons (isFatal_other hsign _), token_other hsign]
        exact congrArg _ hrest

/-- A removal is read as its words are, one token for each up to the first that
ends the walk. A word without the sign is rejected whole, and the bare sign for
its empty name. What follows the sign is a name if it has only the characters
of one and not too many of them, and ends the walk otherwise. -/
theorem removal_walks_words (nameMax : Int) (t : Text) :
    read nameMax t = ofWords nameMax (Text.words t) ∧
    (∀ w : Text, w.head? ≠ some '$' → isFatal nameMax w = false ∧ ∃ e, token w = .error e ∧
      e.kind = .unsupportedKind ∧ e.message = "Unsupported variable type: ".toList ++ w) ∧
    (isFatal nameMax ['$'] = false ∧ ∃ e, token ['$'] = .error e ∧ e.kind = .emptyName) ∧
    (∀ s : Text, s ≠ [] → token ('$' :: s) = .ok s ∧ (isFatal nameMax ('$' :: s) = false ↔
      (∀ c ∈ s, Alphabet.environment.other c = true) ∧ (s.length : Int) ≤ nameMax)) ∧
    (∀ e ∈ (read nameMax t).fatal, e.kind = .trailingCharacters) := by
  refine ⟨read_eq_ofWords nameMax t, ?_, ⟨rfl, _, rfl, rfl⟩, ?_, ?_⟩
  · intro w hw
    cases w with
    | nil => exact ⟨rfl, _, rfl, rfl, rfl⟩
    | cons c s =>
      have hc : c ≠ '$' := by simpa using hw
      exact ⟨isFatal_other hc s, _, token_other hc s, rfl, rfl⟩
  · intro s hs
    rw [token_name, ofName, if_neg hs, isFatal_name, or_iff_right hs]
    exact ⟨rfl, Iff.rfl⟩
  · intro e he
    rw [read_eq_ofWords] at he
    simp only [ofWords] at he
    split at he <;> cases he
    rfl

example : read 3 "$ab x$y $  $abcd $e".toList =
    ⟨[.ok "ab".toList, .error (.unsupportedToken "x$y".toList), .error .emptyName],
      some .trailingName⟩ := by
  cbv

end LetShell.Removal
