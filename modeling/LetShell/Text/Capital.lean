import LetShell.Text.Basic

/-!
# Capitals

Words that are matched without regard to case are raised to capitals first.
The letters of ASCII have their capitals there, and so have the dotless i, the
long s and the ligatures, some of which become two or three letters. All other
characters are left alone: their capitals stand outside ASCII.
-/

set_option autoImplicit false

namespace LetShell.Text

def capital (c : Char) : Text :=
  match c with
  | 'ı' => ['I']
  | 'ſ' => ['S']
  | 'ß' => ['S', 'S']
  | 'ﬀ' => ['F', 'F']
  | 'ﬁ' => ['F', 'I']
  | 'ﬂ' => ['F', 'L']
  | 'ﬃ' => ['F', 'F', 'I']
  | 'ﬄ' => ['F', 'F', 'L']
  | 'ﬅ' | 'ﬆ' => ['S', 'T']
  | c => [c.toUpper]

def capitals (t : Text) : Text := t.flatMap capital

end LetShell.Text
