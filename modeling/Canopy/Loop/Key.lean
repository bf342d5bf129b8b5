import Canopy.Json.Write
import Canopy.Text.Quoted

/-!
# Loop keys

Every item of a keyed loop carries a key, which names the item across passes. A key is a
signed 64-bit integer or a string; any other value (a double, even an integral one, an integer
beyond the signed range, a bool, null, an array or an object) is refused.
-/

namespace Canopy

/-- The key of a loop item. -/
inductive Key where
  | int (n : Int)
  | str (s : String)
  deriving DecidableEq, Repr, Inhabited

/-- A value that cannot serve as a loop key. -/
structure InvalidKey where
  /-- The refused value. -/
  value : Value

/-- The message of a refused key, with the value as compact JSON. -/
def InvalidKey.message (e : InvalidKey) : String :=
  "Value " ++ e.value.compact ++ " cannot be used as a loop key"

namespace Key

/-- The key a value stands for. -/
def ofValue : Value → Except InvalidKey Key
  | .int n => if Value.inI64 n then .ok (.int n) else .error ⟨.int n⟩
  | .str s => .ok (.str s)
  | v => .error ⟨v⟩

/-- The text of a key in messages: an integer in decimal, a string quoted. -/
def display : Key → String
  | .int n => toString n
  | .str s => Text.quote s

end Key

end Canopy
