import LetShell.Decimal.Shortest
import LetShell.Text.Quoted
import LetShell.Text.Utf

/-!
# JSON values

A string is kept as code points, since an escape may leave half of a surrogate
pair in it. The members of an object stand in the order in which their keys
came in, each key once. Besides JSON itself a value has a display form, in
which a string that stands alone is shown as it is and all others are quoted.
-/

set_option autoImplicit false

namespace LetShell

inductive Json where
  | null
  | bool (b : Bool)
  | int (n : Int)
  | float (x : Binary64)
  | string (points : List Nat)
  | array (elements : List Json)
  | object (members : List (List Nat × Json))

namespace Json

abbrev Key := List Nat

def keyOf (name : Text) : Key := name.map Char.toNat

def ofText (t : Text) : Json := .string (keyOf t)

/-- A later value of a key takes the place of the earlier one. -/
def insertMember (key : Key) (value : Json) : List (Key × Json) → List (Key × Json)
  | [] => [(key, value)]
  | m :: ms => if m.1 = key then (key, value) :: ms else m :: insertMember key value ms

def ofMembers (members : List (Key × Json)) : Json :=
  .object (members.foldl (fun ms m => insertMember m.1 m.2 ms) [])

def member? (members : List (Key × Json)) (name : Text) : Option Json :=
  (members.find? (·.1 = keyOf name)).map (·.2)

mutual

def shown : Json → Text
  | .null => "None".toList
  | .bool true => "True".toList
  | .bool false => "False".toList
  | .int n => Text.ofInt n
  | .float x => x.toText
  | .string points => Text.quotePoints points
  | .array elements => ['['] ++ Text.joined [',', ' '] (shownAll elements) ++ [']']
  | .object members => ['\x7b'] ++ Text.joined [',', ' '] (shownMembers members) ++ ['\x7d']

def shownAll : List Json → List Text
  | [] => []
  | v :: vs => shown v :: shownAll vs

def shownMembers : List (Key × Json) → List Text
  | [] => []
  | (key, v) :: ms => (Text.quotePoints key ++ [':', ' '] ++ shown v) :: shownMembers ms

end

def display : Json → Text
  | .string points => Text.ofPoints points
  | v => v.shown

end Json

end LetShell
