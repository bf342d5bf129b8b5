import Canopy.Component.Queue

/-!
# Evaluating scripts

`Script.run` evaluates a script in a frame. Evaluation may log values and queue state updates
for the frame's owner; both stay done when a later part of the script fails. The forms:

* `lit v` is `v` unevaluated; `props`, `state`, `item`, `index`, `prev`, `next`, `detail`,
  `event`, `has_instance`, `instance_id` and `state_field k` read the frame (`k` a literal
  string);
* `get e k…` walks object fields and array positions, null on a miss;
* `eq`, `ne`, `not`, `and`, `or`, `if` (the last three short-circuit; only `true` is true);
* `add`, `sub`, `lt` on signed 64-bit integers, with overflow refused;
* `concat`, `arr`, `obj`, `len`, `range`, `map`, `fail`, `log`, `seq`, `call`;
* `set_state e [cb]` queues the value of `e`, `set_state_fn e [cb]` queues `e` as an updater.

A form missing an operand it needs fails with `missing operand` when it comes to that operand,
so `["if", true, 1]` is 1 while `["if", false, 1]` fails. Three operands may be left out and
read as null: the value of `lit`, the body of `map` and the updater of `set_state_fn`. `obj`
takes its operands two by two and ignores a last one left over, unevaluated. `call` and
`state_field` take a literal string name. The integer forms check each operand as soon as it
is evaluated, so a bad first operand stops them before the second is looked at. The state
updates check for an instance before anything else.

The whole expression is at depth 0, each operand one deeper than its form and a called
procedure's body one deeper than the call; anything below depth 200 fails, operands that are
plain values included. The depth bound is also what makes evaluation terminate.
-/

namespace Canopy

/-- Named scripts that `call` can run. -/
abbrev Procedures := List (String × Value)

/-- What running scripts leaves behind: the values they logged and the updates they queued. -/
structure Effects where
  /-- Logged values, oldest first. -/
  log : Array Value := #[]
  /-- Queued state updates, oldest first. -/
  queue : UpdateQueue := {}

/-- Evaluation of scripts: it fails with a script error, and keeps its effects either way. -/
abbrev ScriptM := EStateM ScriptError Effects

namespace Script

/-- The deepest an expression may be evaluated. -/
def depthLimit : Nat := 200

/-- The `i`-th operand of a form, which the form `head` cannot do without. -/
def operand (head : String) (args : List Value) (i : Nat) : ScriptM Value :=
  match args[i]? with
  | some a => pure a
  | none => throw (.missingOperand head)

/-- The `i`-th operand of a form that reads a missing operand as null. -/
def operandOrNull (args : List Value) (i : Nat) : Value :=
  args[i]?.getD .null

/-- A value as a signed 64-bit integer, for the arithmetic of the form `head`. -/
def integer (head : String) (v : Value) : ScriptM Int :=
  match v.asI64? with
  | some n => pure n
  | none => throw (.notIntegers head)

/-- The literal name a form takes as its first operand. -/
def literalName (head : String) (args : List Value) : ScriptM String :=
  match (args[0]? : Option Value) with
  | some (.str name) => pure name
  | _ => throw (.nameNotString head)

/-- One step of a `get` walk: a literal string key selects an object field, a literal
non-negative integer an array element; anything else misses and gives null. -/
def step (v : Value) (k : Value) : Value :=
  match v, k with
  | .obj fs, .str s => (fs.lookup s).getD .null
  | .arr xs, .int n => if 0 ≤ n then xs[n.toNat]?.getD .null else .null
  | _, _ => .null

/-- The owner a state update is queued for. -/
def owner (head : String) (frame : Frame) : ScriptM InstanceId :=
  match frame.owner with
  | some id => pure id
  | none => throw (.noInstance head)

/-- Queue a state update for an instance. -/
def enqueue (id : InstanceId) (update : StateUpdate) (callback : Option Script) : ScriptM Unit :=
  modify fun fx => { fx with queue := fx.queue.push ⟨id, update, callback⟩ }

/-- The value of a frame variable, null when the frame does not hold it. -/
def readVariable? (frame : Frame) : String → Option Value
  | "props" => some frame.props
  | "state" => some (frame.state.getD .null)
  | "item" => some (frame.item.getD .null)
  | "index" => some ((frame.index.map fun i => Value.int i).getD .null)
  | "prev" => some (frame.prev.getD .null)
  | "next" => some (frame.next.getD .null)
  | "detail" => some (frame.detail.getD .null)
  | "event" => some ((frame.event.map Value.str).getD .null)
  | "has_instance" => some (.bool frame.owner.isSome)
  | "instance_id" => some ((frame.owner.map fun id => Value.int id.raw).getD .null)
  | _ => none

/-- Evaluate an expression at a nesting depth. -/
def eval (procs : Procedures) (frame : Frame) (depth : Nat) (e : Value) : ScriptM Value :=
  if _h : depthLimit < depth then throw .depthLimit
  else
    match e with
    | .arr [] => throw .badExpression
    | .arr (.str head :: args) =>
      match readVariable? frame head with
      | some v => pure v
      | none =>
        match head with
        | "state_field" => do
          let k ← literalName head args
          pure ((frame.state.bind fun s => s.field? k).getD .null)
        | "lit" => pure (operandOrNull args 0)
        | "get" => do
          let v ← eval procs frame (depth + 1) (← operand head args 0)
          pure ((args.drop 1).foldl step v)
        | "eq" => do
          let a ← eval procs frame (depth + 1) (← operand head args 0)
          let b ← eval procs frame (depth + 1) (← operand head args 1)
          pure (.bool (a == b))
        | "ne" => do
          let a ← eval procs frame (depth + 1) (← operand head args 0)
          let b ← eval procs frame (depth + 1) (← operand head args 1)
          pure (.bool !(a == b))
        | "not" => do
          let a ← eval procs frame (depth + 1) (← operand head args 0)
          pure (.bool !a.isTrue)
        | "and" => do
          for a in args do
            if !(← eval procs frame (depth + 1) a).isTrue then return .bool false
          pure (.bool true)
        | "or" => do
          for a in args do
            if (← eval procs frame (depth + 1) a).isTrue then return .bool true
          pure (.bool false)
        | "if" => do
          let c ← eval procs frame (depth + 1) (← operand head args 0)
          if c.isTrue then eval procs frame (depth + 1) (← operand head args 1)
          else eval procs frame (depth + 1) (← operand head args 2)
        | "add" | "sub" | "lt" => do
          let a ← integer head (← eval procs frame (depth + 1) (← operand head args 0))
          let b ← integer head (← eval procs frame (depth + 1) (← operand head args 1))
          if head = "lt" then pure (.bool (decide (a < b)))
          else
            let r := if head = "add" then a + b else a - b
            if Value.inI64 r then pure (.int r) else throw (.overflow head)
        | "concat" => do
          let mut out := ""
          for a in args do
            out := out ++ (← eval procs frame (depth + 1) a).joinText
          pure (.str out)
        | "arr" => do
          let mut out : Array Value := #[]
          for a in args do
            out := out.push (← eval procs frame (depth + 1) a)
          pure (.arr out.toList)
        | "obj" => do
          let mut fields : List (String × Value) := []
          let mut rest := args
          for _ in args do
            match rest with
            | k :: x :: more =>
              rest := more
              match k with
              | .str k => fields := fields ++ [(k, ← eval procs frame (depth + 1) x)]
              | _ => throw .keysNotStrings
            | _ => break
          pure (Value.ofFields fields)
        | "len" => do
          match ← eval procs frame (depth + 1) (← operand head args 0) with
          | .arr xs => pure (.int xs.length)
          | .obj fs => pure (.int fs.length)
          | .str s => pure (.int s.length)
          | v => throw (.noLength v)
        | "range" => do
          let a ← integer head (← eval procs frame (depth + 1) (← operand head args 0))
          let b ← integer head (← eval procs frame (depth + 1) (← operand head args 1))
          let count := (b - a).toNat
          if count > 10000 then throw .rangeTooLong
          else pure (.arr ((List.range count).map fun (i : Nat) => Value.int (a + i)))
        | "map" => do
          match ← eval procs frame (depth + 1) (← operand head args 0) with
          | .arr xs =>
            let mut out : Array Value := #[]
            for (x, i) in xs.zipIdx do
              out := out.push (← eval procs { frame with item := some x, index := some i }
                (depth + 1) (operandOrNull args 1))
            pure (.arr out.toList)
          | v => throw (.notAnArray v)
        | "fail" => do
          let v ← eval procs frame (depth + 1) (← operand head args 0)
          throw (.raised v.joinText)
        | "log" => do
          let v ← eval procs frame (depth + 1) (← operand head args 0)
          modify fun fx => { fx with log := fx.log.push v }
          pure .null
        | "seq" => do
          let mut last := Value.null
          for a in args do
            last ← eval procs frame (depth + 1) a
          pure last
        | "call" => do
          let name ← literalName head args
          match procs.lookup name with
          | some body => eval procs frame (depth + 1) body
          | none => throw (.unknownProcedure name)
        | "set_state" => do
          let id ← owner head frame
          let v ← eval procs frame (depth + 1) (← operand head args 0)
          enqueue id (.patch v) (args[1]?.map Script.mk)
          pure .null
        | "set_state_fn" => do
          let id ← owner head frame
          enqueue id (.updater ⟨operandOrNull args 0⟩) (args[1]?.map Script.mk)
          pure .null
        | _ => throw (.unknownForm head)
    | .arr _ => throw .badExpression
    | v => pure v
termination_by depthLimit + 1 - depth
decreasing_by all_goals omega

/-- Run a script in a frame. -/
def run (procs : Procedures) (frame : Frame) (s : Script) : ScriptM Value :=
  eval procs frame 0 s.body

end Script

end Canopy
