import Canopy.Program.Plan
import Canopy.Text.Quoted

/-!
# Inspection texts of programs and plans

Diagnostics show a record as its name followed by its fields in braces, `name: value`,
separated by a comma and a blank (a record without fields is its bare name), and a list as its
items in brackets. An instruction is the record named by its opcode's upper-case name; a
program shows its instructions, its slot count and whether it has been planned; a plan shows
the mixed-case opcode names of its update ops and its unmount ops as records.
-/

namespace Canopy

namespace Inspect

/-- A record: its name, then its fields in braces, or the bare name without fields. -/
def record (name : String) (fields : List (String × String)) : String :=
  match fields with
  | [] => name
  | _ => name ++ " \x7b " ++ ", ".intercalate (fields.map fun (k, v) => k ++ ": " ++ v) ++ " \x7d"

/-- A list: its items in brackets. -/
def list (items : List String) : String :=
  "[" ++ ", ".intercalate items ++ "]"

/-- A truth value. -/
def bool (b : Bool) : String :=
  if b then "true" else "false"

end Inspect

/-- The inspection text of a binding. -/
def Binding.inspect : Binding → String
  | .compute _ => "Compute(..)"
  | .prop n => "Prop(" ++ Text.quote n ++ ")"
  | .sibling s => "Sibling(" ++ toString s ++ ")"

/-- The inspection text of an instruction: its opcode's record with the instruction's own
fields, then its slot. -/
def Instruction.inspect (i : Instruction) : String :=
  let own : List (String × String) := match i with
    | .openElement tag => [("tag", Text.quote tag.name)]
    | .staticProperty _ v | .staticText v | .staticTextNode v => [("value", Text.quote v)]
    | .staticAttribute n v => [("name", Text.quote n), ("value", Text.quote v)]
    | .dynamicAttribute n b _ => [("name", Text.quote n), ("binding", b.inspect)]
    | .dynamicProperty _ b _ | .dynamicText b _ | .dynamicTextNode b _ => [("binding", b.inspect)]
    | .loop l => [("template", toString l.template.length), ("sole_child", Inspect.bool l.soleChild)]
    | .event n _ _ _ => [("event", Text.quote n)]
    | _ => []
  let slot := match i.slot? with
    | some s => [("slot", toString s)]
    | none => []
  Inspect.record i.opcode.name (own ++ slot)

/-- The inspection text of a program, given whether it has been planned. -/
def Program.inspect (p : Program) (planned : Bool) : String :=
  Inspect.record "Program"
    [("instructions", Inspect.list (p.instructions.map Instruction.inspect)),
     ("slot_count", toString p.slotCount), ("planned", Inspect.bool planned)]

/-- The inspection text of an unmount op. -/
def UnmountOp.inspect : UnmountOp → String
  | .releaseEvent n s => Inspect.record "ReleaseEvent" [("name", Text.quote n), ("slot", toString s)]
  | .ternary s => Inspect.record "Ternary" [("slot", toString s)]
  | .loop s => Inspect.record "Loop" [("slot", toString s)]
  | .component s => Inspect.record "Component" [("slot", toString s)]

/-- The inspection text of a plan. -/
def Plan.inspect (p : Plan) : String :=
  Inspect.record "Plan"
    [("update", Inspect.list (p.update.map fun u => u.opcode.camelName)),
     ("unmount", Inspect.list (p.unmount.map UnmountOp.inspect))]

end Canopy
