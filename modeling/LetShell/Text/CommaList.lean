import LetShell.Text.Basic

/-!
# Comma lists

A comma list is the text form of a list of items: reading it drops empty items
and repetitions and keeps the order of first occurrence.
-/

set_option autoImplicit false

namespace LetShell.Text

def items (t : Text) : List Text := distinct ((pieces ',' t).filter (· ≠ []))

def ofItems (xs : List Text) : Text := joined [','] xs

theorem items_nodup (t : Text) : (items t).Nodup := distinct_nodup _

theorem ne_nil_of_mem_items {t x : Text} (h : x ∈ items t) : x ≠ [] := by
  simpa using (List.mem_filter.mp (mem_distinct.mp h)).2

end LetShell.Text
