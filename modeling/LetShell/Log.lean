import LetShell.Text.Capital

/-!
# The audit log

Entries stand in the order in which they were written. The log only grows,
except that it may be cleared.
-/

set_option autoImplicit false

namespace LetShell

inductive Level where
  | debug
  | info
  | warning
  | error
  deriving DecidableEq, Repr

namespace Level

def rank : Level → Nat
  | .debug => 0
  | .info => 1
  | .warning => 2
  | .error => 3

def name : Level → Text
  | .debug => "DEBUG".toList
  | .info => "INFO".toList
  | .warning => "WARNING".toList
  | .error => "ERROR".toList

def all : List Level := [.debug, .info, .warning, .error]

def ofWord? (word : Text) : Option Level := all.find? (·.name = word.capitals)

end Level

structure Entry where
  level : Level
  message : Text
  source : Text
  deriving DecidableEq, Repr

def Entry.line (e : Entry) : Text :=
  ['['] ++ e.level.name ++ [']', ' '] ++ e.source ++ [':', ' '] ++ e.message

abbrev Log := List Entry

namespace Log

def filtered (log : Log) (least : Option Level) (source : Option Text) : Log :=
  log.filter fun e =>
    least.all (·.rank ≤ e.level.rank) && source.all (· = e.source)

end Log

end LetShell
