import LetShell.Text.Hexadecimal
import LetShell.Text.Printable

/-!
# Quoted text

The quoted form of a text stands between single quotes, or between double
quotes if the text holds a single quote and no double one. The quote, the
backslash and everything that does not print are escaped. The form is defined
on code points, since a JSON string may hold half of a surrogate pair.
-/

set_option autoImplicit false

namespace LetShell.Text

def escapePoint (quote : Char) (n : Nat) : Text :=
  if n = '\\'.toNat ∨ n = quote.toNat then ['\\', Char.ofNat n]
  else if n = '\t'.toNat then ['\\', 't']
  else if n = '\n'.toNat then ['\\', 'n']
  else if n = '\r'.toNat then ['\\', 'r']
  else if isPrintable n then [Char.ofNat n]
  else if n < 0x100 then ['\\', 'x'] ++ hex 2 n
  else if n < 0x10000 then ['\\', 'u'] ++ hex 4 n
  else ['\\', 'U'] ++ hex 8 n

def quotePoints (points : List Nat) : Text :=
  let quote := if '\''.toNat ∈ points ∧ '"'.toNat ∉ points then '"' else '\''
  [quote] ++ points.flatMap (escapePoint quote) ++ [quote]

def quoted (t : Text) : Text := quotePoints (t.map Char.toNat)

end LetShell.Text
