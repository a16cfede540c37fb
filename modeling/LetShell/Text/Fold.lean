import LetShell.Text.Fold.Table

/-!
# Case folding

Two texts that differ only in case have one folded form. ASCII letters fold to
their lower case, and no other character folds to something through them.
-/

set_option autoImplicit false

namespace LetShell.Text

def FoldRun.covers (r : FoldRun) (n : Nat) : Bool :=
  r.first ≤ n && n ≤ r.last && (n - r.first) % r.step == 0

def foldChar (c : Char) : Text :=
  let n := c.toNat
  if n < 128 then [c.toLower]
  else match foldRuns.find? (·.covers n) with
    | some r => [Char.ofNat (r.target + (n - r.first))]
    | none => match foldSpread.find? (·.1 == n) with
      | some (_, letters) => letters.map Char.ofNat
      | none => [c]

def fold (t : Text) : Text := t.flatMap foldChar

theorem fold_nil : fold [] = [] := rfl

theorem fold_cons (c : Char) (t : Text) : fold (c :: t) = foldChar c ++ fold t := by
  simp [fold]

theorem foldChar_ascii {c : Char} (h : c.toNat < 128) : foldChar c = [c.toLower] := by
  simp [foldChar, h]

end LetShell.Text
