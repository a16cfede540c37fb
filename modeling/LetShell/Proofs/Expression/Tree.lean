import LetShell.Expression

/-!
# Expression trees

A tree says what an expression means, and its spellings are the ways to write
it. Blanks stand inside parentheses and around dots, nowhere else. A single
quoted text, a number and a name have no end of their own: they end where the
text does not go on with another quote, digit or name character.
-/

set_option autoImplicit false

namespace LetShell

/-- The text of a value, however large it is. -/
def Value.form : Value → Text
  | .int n => Text.ofInt n
  | .text t => t

theorem Value.form_of_toText {v : Value} {t : Text} (h : v.toText = .ok t) : t = v.form := by
  cases v with
  | int n => exact (Numeral.write_eq_ok_iff.mp h).2
  | text s =>
    cases h
    rfl

namespace Expression

inductive Tree where
  | single (content : Text)
  | double (content : Text)
  | number (negative : Bool) (digits : Text)
  | env (name : Text)
  | option (name : Text)
  | group (inner : Tree)
  | concat (left right : Tree)
  deriving DecidableEq, Repr

def Blank (w : Text) : Prop := ∀ c ∈ w, Text.isBlank c = true

def Free (p : Char → Bool) (t : Text) : Prop := ∀ c ∈ t.head?, p c = false

def signedValue (negative : Bool) (digits : Text) : Int :=
  let n : Int := Numeral.positional (Numeral.places digits)
  if negative then -n else n

def signed (negative : Bool) (digits : Text) : Text :=
  if negative then '-' :: digits else digits

def doubled (content : Text) : Text :=
  content.flatMap fun c => if c = '\'' then ['\'', '\''] else [c]

/-- A content and a way to write it between double quotes. -/
inductive Escaped : Text → Text → Prop
  | nil : Escaped [] []
  | plain {c : Char} {content written : Text} (hq : c ≠ '"') (hb : c ≠ '\\')
      (h : Escaped content written) : Escaped (c :: content) (c :: written)
  | escape {c : Char} {content written : Text} (h : Escaped content written) :
      Escaped (unescape c :: content) ('\\' :: c :: written)

namespace Tree

/-- What a tree stands for, if it names no unknown option. Parentheses keep a
value as it is, a dot joins two texts. -/
def value (ctx : Context) : Tree → Option Value
  | .single content => some (.text content)
  | .double content => some (.text content)
  | .number negative digits => some (.int (signedValue negative digits))
  | .env name => some (.text (ctx.env name))
  | .option name => ctx.option name
  | .group inner => inner.value ctx
  | .concat left right => do
    let l ← left.value ctx
    let r ← right.value ctx
    return .text (l.form ++ r.form)

def IsTerm : Tree → Prop
  | .concat _ _ => False
  | _ => True

/-- Whether the last token of a tree is over where a text begins. -/
def Ends : Tree → Text → Prop
  | .single _ => Free (· == '\'')
  | .double _ => fun _ => True
  | .number _ _ => Free Text.isDigit
  | .env _ => Free Alphabet.environment.other
  | .option _ => Free Alphabet.option.other
  | .group _ => fun _ => True
  | .concat _ right => right.Ends

end Tree

inductive Spelling : Tree → Text → Prop
  | single (content : Text) : Spelling (.single content) ('\'' :: (doubled content ++ ['\'']))
  | double {content written : Text} (h : Escaped content written) :
      Spelling (.double content) ('"' :: (written ++ ['"']))
  | number (negative : Bool) {digits : Text} (hne : digits ≠ [])
      (hd : ∀ c ∈ digits, Text.isDecimal c = true) (hl : digits.length ≤ digitLimit) :
      Spelling (.number negative digits) (signed negative digits)
  | env {name : Text} (h : Alphabet.environment.Accepts name) :
      Spelling (.env name) ('$' :: name)
  | option {name : Text} (h : Alphabet.option.Accepts name) : Spelling (.option name) ('&' :: name)
  | group {inner : Tree} {before c after : Text} (hb : Blank before) (ha : Blank after)
      (h : Spelling inner c) : Spelling (.group inner) ('(' :: (before ++ c ++ after ++ [')']))
  | concat {left right : Tree} {before after c d : Text} (hb : Blank before) (ha : Blank after)
      (hl : Spelling left c) (hr : Spelling right d) :
      Spelling (.concat left right) (c ++ before ++ '.' :: (after ++ d))

theorem free_nil (p : Char → Bool) : Free p [] := by
  intro c hc
  cases hc

theorem free_cons {p : Char → Bool} {c : Char} (h : p c = false) (t : Text) : Free p (c :: t) := by
  intro d hd
  rw [← Option.some.inj hd]
  exact h

theorem free_append {p : Char → Bool} {s t : Text} (hs : Free p s) (ht : Free p t) :
    Free p (s ++ t) := by
  cases s with
  | nil => exact ht
  | cons c s => exact free_cons (hs c rfl) _

def separates (c : Char) : Bool := Text.isBlank c || c == '.' || c == ')'

def blankCodes : List Nat :=
  [9, 10, 11, 12, 13, 28, 29, 30, 31, 32, 0x85, 0xa0, 0x1680, 0x2000, 0x2001, 0x2002, 0x2003,
    0x2004, 0x2005, 0x2006, 0x2007, 0x2008, 0x2009, 0x200a, 0x2028, 0x2029, 0x202f, 0x205f, 0x3000]

theorem mem_blankCodes {c : Char} (h : Text.isBlank c = true) : c.toNat ∈ blankCodes := by
  simp only [Text.isBlank, Bool.or_eq_true, Bool.and_eq_true, decide_eq_true_eq,
    beq_iff_eq] at h
  simp only [blankCodes, List.mem_cons, List.not_mem_nil, or_false]
  omega

theorem separates_continues_nothing {c : Char} (h : separates c = true) :
    (c == '\'') = false ∧ Text.isDigit c = false ∧ Alphabet.environment.other c = false ∧
      Alphabet.option.other c = false := by
  have hcode : c.toNat ∈ '.'.toNat :: ')'.toNat :: blankCodes := by
    simp only [separates, Bool.or_eq_true, beq_iff_eq] at h
    rcases h with (h | rfl) | rfl
    · exact List.mem_cons_of_mem _ (List.mem_cons_of_mem _ (mem_blankCodes h))
    · exact List.mem_cons_self ..
    · exact List.mem_cons_of_mem _ (List.mem_cons_self ..)
  have hall : ∀ n ∈ '.'.toNat :: ')'.toNat :: blankCodes,
      (Char.ofNat n == '\'') = false ∧ Text.isDigit (Char.ofNat n) = false ∧
        Alphabet.environment.other (Char.ofNat n) = false ∧
        Alphabet.option.other (Char.ofNat n) = false := by
    decide +kernel
  have hc := hall c.toNat hcode
  rw [Char.ofNat_toNat] at hc
  exact hc

theorem blank_continues_nothing {c : Char} (h : Text.isBlank c = true) :
    (c == '\'') = false ∧ Text.isDigit c = false ∧ Alphabet.environment.other c = false ∧
      Alphabet.option.other c = false :=
  separates_continues_nothing (by simp [separates, h])

theorem ends_cons {c : Char} (h : separates c = true) (e : Tree) (t : Text) : e.Ends (c :: t) := by
  obtain ⟨hq, hd, he, ho⟩ := separates_continues_nothing h
  induction e with
  | single => exact free_cons (p := (· == '\'')) hq t
  | double => trivial
  | number => exact free_cons hd t
  | env => exact free_cons he t
  | option => exact free_cons ho t
  | group => trivial
  | concat l r _ ih => exact ih

theorem ends_blank {w : Text} (hw : Blank w) {c : Char} (h : separates c = true) (e : Tree)
    (t : Text) : e.Ends (w ++ c :: t) := by
  cases w with
  | nil => exact ends_cons h e t
  | cons b w =>
    have hb : separates b = true := by simp [separates, hw b (List.mem_cons_self ..)]
    exact ends_cons hb e _

theorem blank_nil : Blank [] := fun _ hc => absurd hc List.not_mem_nil

theorem blank_cons {c : Char} {w : Text} (hc : Text.isBlank c = true) (hw : Blank w) :
    Blank (c :: w) := by
  intro d hd
  rcases List.mem_cons.mp hd with rfl | hd
  · exact hc
  · exact hw d hd

theorem blank_append {w w' : Text} (hw : Blank w) (hw' : Blank w') : Blank (w ++ w') := by
  intro c hc
  rcases List.mem_append.mp hc with hc | hc
  · exact hw c hc
  · exact hw' c hc

theorem trimStart_blank {w : Text} (hw : Blank w) (t : Text) :
    Text.trimStart (w ++ t) = Text.trimStart t :=
  List.dropWhile_append_of_pos hw

theorem trimStart_eq_self_iff {t : Text} : Text.trimStart t = t ↔ Free Text.isBlank t := by
  cases t with
  | nil => simp [Free, Text.trimStart]
  | cons c t =>
    constructor
    · intro h d hd
      rw [← Option.some.inj hd]
      exact Text.head_trimStart h
    · intro h
      exact Text.trimStart_of_not_blank (h c rfl)

end Expression

end LetShell
