import LetShell.Text.Basic

/-!
# Hexadecimal digits

Numbers are written with a fixed count of lower-case digits. A digit is read in
either case.
-/

set_option autoImplicit false

namespace LetShell.Text

def hex : Nat → Nat → Text
  | 0, _ => []
  | width + 1, n => hex width (n / 16) ++ [Nat.digitChar (n % 16)]

def hexDigit? (c : Char) : Option Nat :=
  if c.isDigit then some (c.toNat - 48)
  else if 'a' ≤ c ∧ c ≤ 'f' then some (c.toNat - 87)
  else if 'A' ≤ c ∧ c ≤ 'F' then some (c.toNat - 55)
  else none

end LetShell.Text
