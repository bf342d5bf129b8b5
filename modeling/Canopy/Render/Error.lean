import Canopy.Script.Basic
import Canopy.Loop.Key
import Canopy.Opcode

/-!
# Render errors

Why a render, dispatch or flush stopped. A binding error names the instruction whose function
failed; a callback error names the kind of callback.
-/

namespace Canopy

/-- Why a program's function failed. -/
inductive BindingFailure where
  /-- The script failed. -/
  | script (e : ScriptError)
  /-- A test gave something other than a bool. -/
  | notBool (v : Value)
  /-- A collection function gave something other than an array. -/
  | notArray (v : Value)
  /-- A key function gave a value that is no key. -/
  | invalidKey (e : InvalidKey)

/-- The message of a failed function. -/
def BindingFailure.message : BindingFailure → String
  | .script e => e.message
  | .notBool v => "test result is not a bool: " ++ v.compact
  | .notArray v => "collection is not an array: " ++ v.compact
  | .invalidKey e => e.message

/-- The kinds of callback. -/
inductive CallbackKind where
  | didMount
  | didUpdate
  | stateSettled
  | stateUpdater
  | eventHandler
  deriving DecidableEq, Repr

/-- The name of a callback kind in messages. -/
def CallbackKind.name : CallbackKind → String
  | .didMount => "did-mount"
  | .didUpdate => "did-update"
  | .stateSettled => "set_state callback"
  | .stateUpdater => "state updater"
  | .eventHandler => "event handler"

/-- Why a render, dispatch or flush stopped. -/
inductive RenderError where
  /-- A program's function failed. -/
  | binding (op : Opcode) (why : BindingFailure)
  /-- A callback failed. -/
  | callback (kind : CallbackKind) (why : ScriptError)
  /-- Two items of one loop pass share a key. -/
  | duplicateKey (key : Key)
  /-- The update queue was still not empty after the allowed flush rounds. -/
  | updateLoop (rounds : Nat)
  /-- A slot that holds another kind of slot than an instruction expects. -/
  | slotMismatch (slot : Nat) (expected : String)
  /-- A state the renderer never reaches with decoded programs. -/
  | invariant (reason : String)
  /-- A container without a mounted root. -/
  | unknownRoot

/-- The message of a render error. -/
def RenderError.message : RenderError → String
  | .binding op why => "Binding error in " ++ op.name ++ ": " ++ why.message
  | .callback k why => "Callback error in " ++ k.name ++ ": " ++ why.message
  | .duplicateKey k => "Duplicate key " ++ k.display ++ " in one loop pass"
  | .updateLoop n => "Update queue did not settle after " ++ toString n ++ " flush rounds"
  | .slotMismatch s e => "Slot " ++ toString s ++ " does not hold a " ++ e ++ " slot"
  | .invariant r => "Runtime invariant violated: " ++ r
  | .unknownRoot => "No mounted root for this container"

end Canopy
