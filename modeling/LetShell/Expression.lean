import LetShell.Name
import LetShell.Value

/-!
# Expressions

An expression is a chain of terms joined by dots. A term is a quoted text, an
integer, a variable, an option or an expression in parentheses. Evaluation
stops at the first character that cannot go on and hands back the rest of the
input, without leading blanks.

A failure carries the text from the point where it arose. A failure inside
parentheses is reported at the opening one, except for a missing quote, which
keeps its own place.
-/

set_option autoImplicit false

namespace LetShell

namespace Expression

/-- What variables and options stand for. An unknown variable is empty, an
unknown option is an error. -/
structure Context where
  env : Text → Text
  option : Text → Option Value

def Context.ofReaders (env : Text → Text) (option : Text → Option OptionValue) : Context where
  env := env
  option := fun name => (option name).bind (·.toValue?)

abbrev Outcome (α : Type) := Except (Failure ExpressionError) α

def fail {α : Type} (kind : ExpressionErrorKind) (position : Text) : Outcome α :=
  .error (.error ⟨kind, position⟩)

def singleQuoted : Text → Option (Text × Text)
  | [] => none
  | '\'' :: '\'' :: s => (singleQuoted s).map fun p => ('\'' :: p.1, p.2)
  | '\'' :: s => some ([], s)
  | c :: s => (singleQuoted s).map fun p => (c :: p.1, p.2)

def unescape : Char → Char
  | 'n' => '\n'
  | 't' => '\t'
  | c => c

def doubleQuoted : Text → Option (Text × Text)
  | [] => none
  | '"' :: s => some ([], s)
  | '\\' :: c :: s => (doubleQuoted s).map fun p => (unescape c :: p.1, p.2)
  | c :: s => (doubleQuoted s).map fun p => (c :: p.1, p.2)

def numeral? : Text → Option (Text × Text)
  | '-' :: c :: s =>
    if Text.isDigit c then
      some ('-' :: c :: s.takeWhile Text.isDigit, s.dropWhile Text.isDigit)
    else none
  | c :: s =>
    if Text.isDigit c then some (c :: s.takeWhile Text.isDigit, s.dropWhile Text.isDigit) else none
  | [] => none

def term (ctx : Context) (inner : Text → Outcome (Value × Text)) (t : Text) :
    Outcome (Value × Text) :=
  match t with
  | '\'' :: s =>
    match singleQuoted s with
    | some (v, rest) => .ok (.text v, rest)
    | none => fail .missingQuote t
  | '"' :: s =>
    match doubleQuoted s with
    | some (v, rest) => .ok (.text v, rest)
    | none => fail .missingQuote t
  | '$' :: s =>
    match Alphabet.environment.name? s with
    | some (name, rest) => .ok (.text (ctx.env name), rest)
    | none => fail .invalidExpression s
  | '&' :: s =>
    match Alphabet.option.name? s with
    | some (name, rest) =>
      match ctx.option name with
      | some v => .ok (v, rest)
      | none => fail .invalidExpression t
    | none => fail .invalidExpression s
  | '(' :: s =>
    match inner s with
    | .ok (v, rest) =>
      match rest.trimStart with
      | ')' :: rest => .ok (v, rest)
      | _ => fail .invalidSubexpression t
    | .error (.error e) =>
      if e.kind = .missingQuote then .error (.error e) else fail .invalidSubexpression t
    | .error (.fault f) => .error (.fault f)
  | t =>
    match numeral? t with
    | some (token, rest) =>
      match Numeral.readOrFault token with
      | .ok n => .ok (.int n, rest)
      | .error f => .error (.fault f)
    | none => fail .invalidExpression t

/-- The dots and terms that follow a value. The text of the value is taken
before the next term is read. A dot before an equals sign is no concatenation. -/
def chain (term : Text → Outcome (Value × Text)) : Nat → Value → Text → Outcome (Value × Text)
  | 0, _, t => fail .internal t
  | fuel + 1, v, t =>
    match t.trimStart with
    | '.' :: '=' :: s => .ok (v, '.' :: '=' :: s)
    | '.' :: s =>
      match v.toText with
      | .error f => .error (.fault f)
      | .ok left =>
        match term (Text.trimStart s) with
        | .error e => .error e
        | .ok (w, rest) =>
          match w.toText with
          | .error f => .error (.fault f)
          | .ok right => chain term fuel (.text (left ++ right)) rest
    | rest => .ok (v, rest)

def expression (ctx : Context) : Nat → Text → Outcome (Value × Text)
  | 0, t => fail .internal t
  | depth + 1, t =>
    match term ctx (expression ctx depth) t.trimStart with
    | .error e => .error e
    | .ok (v, rest) => chain (term ctx (expression ctx depth)) (rest.length + 1) v rest

end Expression

/-- The value at the start of a text, and the rest of the text. Neither the
parentheses nor the dots can outnumber the characters. -/
def evaluate (ctx : Expression.Context) (t : Text) : Expression.Outcome (Value × Text) :=
  Expression.expression ctx (t.length + 1) t

end LetShell
