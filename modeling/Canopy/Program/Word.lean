import Canopy.Opcode
import Canopy.Script.Basic
import Canopy.Text.Quoted

/-!
# Wire words

A program travels as a flat list of words: an opcode word starts each instruction and the
words after it, up to the next opcode word, are its operands. An operand is a string, a signed
64-bit integer, null, a function (a script of one of nine kinds) or a nested list of words,
the sub-program of a ternary, loop or component.
-/

namespace Canopy

/-- The kinds of function an operand can carry. -/
inductive FunctionKind where
  | compute
  | test
  | collection
  | key
  | props
  | shouldUpdate
  | factory
  | lifecycle
  | handler
  deriving DecidableEq, Repr, Inhabited

/-- The name of a function kind in messages. -/
def FunctionKind.name : FunctionKind → String
  | .compute => "compute function"
  | .test => "test function"
  | .collection => "collection function"
  | .key => "key function"
  | .props => "props function"
  | .shouldUpdate => "should-update function"
  | .factory => "factory function"
  | .lifecycle => "lifecycle function"
  | .handler => "handler function"

/-- A word of a wire program. An opcode word holds a tag below 256, known or not; an integer
word lies in the signed 64-bit range. -/
inductive Word where
  | op (tag : Nat)
  | str (s : String)
  | int (n : Int)
  | null
  | function (kind : FunctionKind) (script : Script)
  | program (words : List Word)
  deriving Inhabited

namespace Word

/-- The opcode word of an opcode. -/
def ofOpcode (op : Opcode) : Word :=
  .op op.tag

/-- The word of a slot index: an integer word, saturating at the largest signed 64-bit
integer. -/
def slot (n : Nat) : Word :=
  .int (min n 9223372036854775807)

/-- The kind of a word, as messages name it. -/
def kind : Word → String
  | .op _ => "opcode"
  | .str _ => "string"
  | .int _ => "integer"
  | .null => "null"
  | .function k _ => k.name
  | .program _ => "sub-program"

mutual
/-- The inspection text of a word: an opcode by name (or `Op(tag)` when unknown), a string
quoted, an integer in decimal, a function by its kind in angle brackets, a sub-program as a
bracketed list. -/
def inspect : Word → String
  | .op t => match Opcode.ofTag? t with
    | some code => code.name
    | none => "Op(" ++ toString t ++ ")"
  | .str s => Text.quote s
  | .int n => toString n
  | .null => "null"
  | .function k _ => "<" ++ k.name ++ ">"
  | .program ws => "[" ++ inspectList ws ++ "]"

/-- The inspection texts of words, separated by a comma and a blank. -/
def inspectList : List Word → String
  | [] => ""
  | [w] => inspect w
  | w :: ws => inspect w ++ ", " ++ inspectList ws
end

end Word

end Canopy
