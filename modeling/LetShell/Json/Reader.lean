import LetShell.Fault
import LetShell.Json.Basic

/-!
# Reading JSON

A document is one value with blanks around it. Besides JSON's own values the
words `NaN`, `Infinity` and `-Infinity` are numbers. A number with a fraction
or an exponent is rounded to binary floating point; any other is an integer,
with at most as many digits as integers may have. Control characters must not
stand in strings.
-/

set_option autoImplicit false

namespace LetShell.Json

inductive Problem where
  | malformed
  | tooLong (digits : Nat)
  deriving DecidableEq, Repr

abbrev Outcome (α : Type) := Except Problem α

def isBlank (c : Char) : Bool := c == ' ' || c == '\t' || c == '\n' || c == '\r'

def skip (t : Text) : Text := t.dropWhile isBlank

def hexUnit? (a b c d : Char) : Option Nat := do
  let w ← Text.hexDigit? a
  let x ← Text.hexDigit? b
  let y ← Text.hexDigit? c
  let z ← Text.hexDigit? d
  return ((w * 16 + x) * 16 + y) * 16 + z

def escape? : Char → Option Nat
  | '"' => some 0x22
  | '\\' => some 0x5c
  | '/' => some 0x2f
  | 'b' => some 0x08
  | 'f' => some 0x0c
  | 'n' => some 0x0a
  | 'r' => some 0x0d
  | 't' => some 0x09
  | _ => none

def units : Text → Option (List Nat × Text)
  | [] => none
  | '"' :: s => some ([], s)
  | '\\' :: 'u' :: a :: b :: c :: d :: s =>
    match hexUnit? a b c d with
    | some n => (units s).map fun p => (n :: p.1, p.2)
    | none => none
  | '\\' :: c :: s =>
    match escape? c with
    | some n => (units s).map fun p => (n :: p.1, p.2)
    | none => none
  | c :: s => if c.toNat < 0x20 then none else (units s).map fun p => (c.toNat :: p.1, p.2)

def readString (t : Text) : Outcome (Key × Text) :=
  match units t with
  | some (us, rest) => .ok (Text.joinPairs us, rest)
  | none => .error .malformed

def natural (digits : Text) : Nat := digits.foldl (fun n c => 10 * n + (c.toNat - 48)) 0

def whole? : Text → Option (Text × Text)
  | '0' :: s => some (['0'], s)
  | c :: s =>
    if c.isDigit then some (c :: s.takeWhile Char.isDigit, s.dropWhile Char.isDigit) else none
  | [] => none

def fraction : Text → Text × Text
  | '.' :: c :: s =>
    if c.isDigit then (c :: s.takeWhile Char.isDigit, s.dropWhile Char.isDigit)
    else ([], '.' :: c :: s)
  | s => ([], s)

def power? (negative : Bool) (t : Text) : Option (Int × Text) :=
  let digits := t.takeWhile Char.isDigit
  if digits = [] then none
  else
    let n : Int := natural digits
    some (if negative then -n else n, t.dropWhile Char.isDigit)

def exponent? : Text → Option (Int × Text)
  | c :: s =>
    if c = 'e' ∨ c = 'E' then
      match s with
      | '-' :: s => power? true s
      | '+' :: s => power? false s
      | s => power? false s
    else none
  | [] => none

def readNumber (t : Text) : Outcome (Json × Text) :=
  let (negative, body) := match t with
    | '-' :: s => (true, s)
    | s => (false, s)
  match whole? body with
  | none => .error .malformed
  | some (digits, rest) =>
    let (places, rest) := fraction rest
    match places, exponent? rest with
    | [], none =>
      if digitLimit < digits.length then .error (.tooLong digits.length)
      else
        let n : Int := natural digits
        .ok (.int (if negative then -n else n), rest)
    | places, power =>
      let (e, rest) := power.getD (0, rest)
      .ok (.float (.ofDecimal negative (natural (digits ++ places)) (e - places.length)), rest)

def elements (value : Text → Outcome (Json × Text)) :
    Nat → List Json → Text → Outcome (List Json × Text)
  | 0, _, _ => .error .malformed
  | fuel + 1, read, t =>
    match value t with
    | .error e => .error e
    | .ok (v, rest) =>
      match skip rest with
      | ',' :: rest => elements value fuel (read ++ [v]) (skip rest)
      | ']' :: rest => .ok (read ++ [v], rest)
      | _ => .error .malformed

def members (value : Text → Outcome (Json × Text)) :
    Nat → List (Key × Json) → Text → Outcome (List (Key × Json) × Text)
  | 0, _, _ => .error .malformed
  | fuel + 1, read, t =>
    match t with
    | '"' :: t =>
      match readString t with
      | .error e => .error e
      | .ok (key, rest) =>
        match skip rest with
        | ':' :: rest =>
          match value (skip rest) with
          | .error e => .error e
          | .ok (v, rest) =>
            match skip rest with
            | ',' :: rest => members value fuel (read ++ [(key, v)]) (skip rest)
            | '\x7d' :: rest => .ok (read ++ [(key, v)], rest)
            | _ => .error .malformed
        | _ => .error .malformed
    | _ => .error .malformed

/-- The value at the start of a text, with fewer than `depth` brackets open. -/
def value : Nat → Text → Outcome (Json × Text)
  | 0, _ => .error .malformed
  | depth + 1, t =>
    match t with
    | '"' :: s => (readString s).map fun p => (.string p.1, p.2)
    | '\x7b' :: s =>
      match skip s with
      | '\x7d' :: rest => .ok (.object [], rest)
      | s => (members (value depth) (s.length + 1) [] s).map fun p => (ofMembers p.1, p.2)
    | '[' :: s =>
      match skip s with
      | ']' :: rest => .ok (.array [], rest)
      | s => (elements (value depth) (s.length + 1) [] s).map fun p => (.array p.1, p.2)
    | 'n' :: 'u' :: 'l' :: 'l' :: s => .ok (.null, s)
    | 't' :: 'r' :: 'u' :: 'e' :: s => .ok (.bool true, s)
    | 'f' :: 'a' :: 'l' :: 's' :: 'e' :: s => .ok (.bool false, s)
    | 'N' :: 'a' :: 'N' :: s => .ok (.float .nan, s)
    | 'I' :: 'n' :: 'f' :: 'i' :: 'n' :: 'i' :: 't' :: 'y' :: s => .ok (.float (.infinite false), s)
    | '-' :: 'I' :: 'n' :: 'f' :: 'i' :: 'n' :: 'i' :: 't' :: 'y' :: s =>
      .ok (.float (.infinite true), s)
    | t => readNumber t

def read (t : Text) : Outcome Json :=
  match value (t.length + 1) (skip t) with
  | .error e => .error e
  | .ok (v, rest) => if skip rest = [] then .ok v else .error .malformed

end LetShell.Json
