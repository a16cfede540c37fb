import LetShell.Fault

/-!
# Errors

Every error that a statement reports is kept as its cause. The wording of its
diagnostic line is one function of the cause, so two errors with one message
may still be told apart.
-/

set_option autoImplicit false

namespace LetShell

inductive ParseErrorKind where
  | unsupportedKind
  | invalidName
  | emptyName
  | missingEquals
  | trailingCharacters
  deriving DecidableEq, Repr

inductive ParseError where
  | noSigil
  | unsupportedToken (token : Text)
  | emptyName
  | invalidName
  | missingEquals (rest : Text)
  | trailingValue
  | trailingName
  | leftover (rest : Text)
  deriving DecidableEq, Repr

namespace ParseError

def kind : ParseError → ParseErrorKind
  | .noSigil | .unsupportedToken _ => .unsupportedKind
  | .emptyName => .emptyName
  | .invalidName => .invalidName
  | .missingEquals _ => .missingEquals
  | .trailingValue | .trailingName | .leftover _ => .trailingCharacters

def message : ParseError → Text
  | .noSigil => "Incorrect variable type".toList
  | .unsupportedToken token => "Unsupported variable type: ".toList ++ token
  | .emptyName => "Unsupported variable name: empty name".toList
  | .invalidName => "Incorrect variable name".toList
  | .missingEquals rest => "Incorrect :let statement: '=' expected at ".toList ++ rest
  | .trailingValue => "Incorrect :let statement: trailing characters".toList
  | .trailingName => "Trailing characters".toList
  | .leftover rest => "Trailing characters: ".toList ++ rest

end ParseError

inductive ExpressionErrorKind where
  | invalidExpression
  | invalidSubexpression
  | missingQuote
  | internal
  deriving DecidableEq, Repr

/-- The position is the text from the point of failure to the end. -/
structure ExpressionError where
  kind : ExpressionErrorKind
  position : Text
  deriving DecidableEq, Repr

def ExpressionError.message (e : ExpressionError) : Text :=
  match e.kind with
  | .invalidExpression => "Invalid expression: ".toList ++ e.position
  | .invalidSubexpression => "Invalid subexpression: ".toList ++ e.position
  | .missingQuote => "Invalid :let expression (missing quote): ".toList ++ e.position
  | .internal => "Internal error".toList

inductive Scope where
  | global
  | local
  deriving DecidableEq, Repr

def Scope.name : Scope → Text
  | .global => "global".toList
  | .local => "local".toList

inductive OptionError where
  | alreadyDefined (name : Text)
  | invalidValue (name text : Text)
  | invalidNumber (name text : Text)
  | unsupported (operator name : Text)
  | unknown (name : Text)
  deriving DecidableEq, Repr

def OptionError.message : OptionError → Text
  | .alreadyDefined name => "Option already defined: ".toList ++ name
  | .invalidValue name text => "Invalid value for ".toList ++ name ++ ": ".toList ++ text
  | .invalidNumber name text => "Invalid number for ".toList ++ name ++ ": ".toList ++ text
  | .unsupported operator name =>
    "Operation ".toList ++ operator ++ " is not supported by ".toList ++ name
  | .unknown name => "Unknown option: ".toList ++ name

inductive VariableError where
  | parse (e : ParseError)
  | expression (e : ExpressionError)
  | operatorType
  | unknownOption (name : Text) (scope : Scope)
  | allocation
  | notFound (name : Text)
  | option (e : OptionError)
  deriving DecidableEq, Repr

def VariableError.message : VariableError → Text
  | .parse e => e.message
  | .expression e => e.message
  | .operatorType => "Wrong variable type for this operation".toList
  | .unknownOption name scope =>
    "Unknown ".toList ++ scope.name ++ " option name: ".toList ++ name
  | .allocation => "Not enough memory".toList
  | .notFound name => "No such variable: ".toList ++ name
  | .option e => e.message

end LetShell
