import Canopy.Json.Write

/-!
# Scripts

The functions a program carries (computed values, tests, loop projections, lifecycle hooks,
event handlers, state updaters) are scripts: JSON expressions evaluated in a frame. A value
that is not an array is a literal; an array `[head, args...]` with a string head is a form.

A frame holds what a script may read: the props in effect, the owning component instance and
its state, and the variables of the call (the loop item and its index, the previous and next
props, the event's name and detail). A variable the frame does not hold reads as null.
-/

namespace Canopy

/-- A script: a JSON expression. -/
structure Script where
  /-- The expression. -/
  body : Value
  deriving Inhabited

/-- The identity of a component instance. -/
structure InstanceId where
  /-- The raw number. -/
  raw : Nat
  deriving DecidableEq, Repr, Inhabited

/-- What a script can read while it runs. -/
structure Frame where
  /-- The props in effect. -/
  props : Value := .null
  /-- The owning component instance, if any. -/
  owner : Option InstanceId := none
  /-- The state the script reads: an updater's state argument or the owner's state. -/
  state : Option Value := none
  /-- The loop item being projected. -/
  item : Option Value := none
  /-- The position of the loop item. -/
  index : Option Nat := none
  /-- The props of an item's previous pass. -/
  prev : Option Value := none
  /-- The props of an item's next pass. -/
  next : Option Value := none
  /-- The detail of the event being handled. -/
  detail : Option Value := none
  /-- The name of the event being handled. -/
  event : Option String := none
  deriving Inhabited

/-- Why a script failed. -/
inductive ScriptError where
  /-- Forms nested deeper than the limit. -/
  | depthLimit
  /-- An array whose head is not a string. -/
  | badExpression
  /-- A head that names no form. -/
  | unknownForm (head : String)
  /-- A state update with nothing to set. -/
  | missingOperand (head : String)
  /-- A form whose name operand is not a literal string. -/
  | nameNotString (head : String)
  /-- Arithmetic on something other than 64-bit integers. -/
  | notIntegers (head : String)
  /-- Arithmetic beyond the 64-bit range. -/
  | overflow (head : String)
  /-- An object form with a key that is not a string. -/
  | keysNotStrings
  /-- A length asked of a value that has none. -/
  | noLength (v : Value)
  /-- A range of more than ten thousand integers. -/
  | rangeTooLong
  /-- A map over something other than an array. -/
  | notAnArray (v : Value)
  /-- A failure raised by the script itself, with its text. -/
  | raised (text : String)
  /-- A call of a procedure that is not defined. -/
  | unknownProcedure (name : String)
  /-- A state update outside any component instance. -/
  | noInstance (head : String)

/-- The text of a script failure. -/
def ScriptError.message : ScriptError → String
  | .depthLimit => "expression depth limit"
  | .badExpression => "bad expression"
  | .unknownForm h => "unknown form " ++ h
  | .missingOperand h => h ++ ": missing operand"
  | .nameNotString h => h ++ ": name must be a string"
  | .notIntegers h => h ++ ": operands must be integers"
  | .overflow h => h ++ ": overflow"
  | .keysNotStrings => "obj: keys must be strings"
  | .noLength v => "len: no length for " ++ v.compact
  | .rangeTooLong => "range: too long"
  | .notAnArray v => "map: not an array: " ++ v.compact
  | .raised t => t
  | .unknownProcedure n => "call: unknown procedure " ++ n
  | .noInstance h => h ++ ": no component instance"

end Canopy
