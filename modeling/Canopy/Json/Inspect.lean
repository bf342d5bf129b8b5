import Canopy.Json.Write
import Canopy.Text.Quoted

/-!
# Inspection text of JSON values

The text diagnostics show for a value: its kind by name with the content in parentheses
(`Null`, `Bool(true)`, `Number(5)`, `Number(2.5)`, `String("s")`), an array as `Array` and its
items in brackets, an object as `Object` and its fields in braces, keys quoted, each field as
`key: value`, items and fields separated by a comma and a blank.
-/

namespace Canopy

namespace Value

mutual
/-- The inspection text of a value. -/
def inspect : Value → String
  | .null => "Null"
  | .bool b => if b then "Bool(true)" else "Bool(false)"
  | .int n => "Number(" ++ toString n ++ ")"
  | .float bits => "Number(" ++ NumberLayout.json.double bits ++ ")"
  | .str s => "String(" ++ Text.quote s ++ ")"
  | .arr xs => "Array [" ++ inspectItems xs ++ "]"
  | .obj fs => "Object \x7b" ++ inspectFields fs ++ "\x7d"

/-- The inspection texts of items, separated by a comma and a blank. -/
def inspectItems : List Value → String
  | [] => ""
  | [x] => inspect x
  | x :: xs => inspect x ++ ", " ++ inspectItems xs

/-- The inspection texts of fields, separated by a comma and a blank. -/
def inspectFields : List (String × Value) → String
  | [] => ""
  | [(k, x)] => Text.quote k ++ ": " ++ inspect x
  | (k, x) :: xs => Text.quote k ++ ": " ++ inspect x ++ ", " ++ inspectFields xs
end

end Value

end Canopy
