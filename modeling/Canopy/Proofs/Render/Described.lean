import Canopy.Proofs.Document.Trees
import Canopy.Proofs.Render.Bindings

/-!
# The trees a program describes

A program read from the left describes trees, independently of any document: an open/close pair
is an element of its tag; its attribute and `id` writes give its attributes in the order their
names were first written, a later write replacing the value; its class and style are the last
ones written; its children are what its child-producing instructions produce, in order, the
contents of a fragment standing in place of the fragment. Text content makes a text the element's
only child (none for the empty text), and a text-node instruction adds a text child. A dynamic
value is its binding's value written as a string (`Value.contentText`). A ternary produces what
its chosen branch describes, or an empty text when that is nothing; a loop produces what its
template describes for each projected item, with the item's props; a component produces what its
body describes under a new instance, whose first state its factory computes from the props.

`Sketch` is what the instructions read so far have described: the open elements and fragments,
innermost first, the trees finished at the top, the values of the dynamic slots and the id the
next component instance gets. `Sketch.step` reads one instruction and `describe` a whole program;
their results do not depend on any renderer, only on the procedures scripts may call, the
duplicate-key policy of loops and the frame the scripts run in.
-/

namespace Canopy

/-- An element whose close has not been read yet. -/
structure Open where
  /-- Its tag. -/
  tag : String
  /-- Its class, if written. -/
  className : Option String := none
  /-- Its style, if written. -/
  style : Option String := none
  /-- Its attributes, in the order their names were first written. -/
  attributes : List (String × String) := []
  /-- Its children so far. -/
  children : List Tree := []

namespace Open

/-- The tree an element is once closed. -/
def tree (o : Open) : Tree :=
  .element o.tag o.className o.style o.attributes o.children

/-- Write a property: the class, the `id` attribute or the style. -/
def setProperty (o : Open) : Property → String → Open
  | .className, v => { o with className := some v }
  | .id, v => { o with attributes := setEntry "id" v o.attributes }
  | .style, v => { o with style := some v }

/-- Write an attribute. -/
def setAttribute (o : Open) (name value : String) : Open :=
  { o with attributes := setEntry name value o.attributes }

/-- Write the text content: the text becomes the only child, and the empty text none. -/
def setText (o : Open) (text : String) : Open :=
  { o with children := if text.isEmpty then [] else [.text text] }

end Open

/-- What the instructions read so far describe. -/
structure Sketch where
  /-- The open elements and fragments (`none`), innermost first. -/
  stack : List (Option Open) := []
  /-- The trees finished at the top, in order. -/
  top : List Tree := []
  /-- The values of the dynamic slots, last written first. -/
  values : List (Nat × Value) := []
  /-- The id of the next component instance. -/
  next : Nat

namespace Sketch

/-- Add trees as the last children of the innermost open element, fragments looked through;
`none` when no element is open. -/
def addInto (ts : List Tree) : List (Option Open) → Option (List (Option Open))
  | [] => none
  | none :: rest => (addInto ts rest).map (none :: ·)
  | some o :: rest => some (some { o with children := o.children ++ ts } :: rest)

/-- Add finished trees: under the innermost open element, or at the top. -/
def add (k : Sketch) (ts : List Tree) : Sketch :=
  match addInto ts k.stack with
  | some stack => { k with stack }
  | none => { k with top := k.top ++ ts }

/-- Change the innermost open construct, which must be an element. -/
def write (k : Sketch) (f : Open → Open) : Option Sketch :=
  match k.stack with
  | some o :: rest => some { k with stack := some (f o) :: rest }
  | _ => none

/-- Record the value of a dynamic slot. -/
def record (k : Sketch) (s : Nat) (v : Value) : Sketch :=
  { k with values := (s, v) :: k.values }

/-- Whether an element is open, fragments looked through. -/
def inElement (k : Sketch) : Bool :=
  k.stack.any Option.isSome

end Sketch

/-- The value of a binding in a frame, given the values of the slots so far: its script's
result, a field of the props (null when missing), or the value of an earlier slot. -/
def Binding.describe (procs : Procedures) (frame : Frame) (values : List (Nat × Value)) :
    Binding → Option Value
  | .compute s => (Script.outcome procs frame s).toOption
  | .prop name => some ((frame.props.field? name).getD .null)
  | .sibling s => values.lookup s

/-- The result of a ternary's test, which must be a bool. -/
def Script.decision (procs : Procedures) (frame : Frame) (s : Script) : Option Bool :=
  match Script.outcome procs frame s with
  | .ok (.bool b) => some b
  | _ => none

/-- The frame of a component's body: the props, and the new instance with its first state. -/
def Frame.ofInstance (props : Value) (id : Nat) (state : Value) : Frame :=
  { props, owner := some ⟨id⟩, state := some state }

/-- What the trees of a branch are at its place: an empty text when there are none. -/
def Tree.orMarker (ts : List Tree) : List Tree :=
  if ts.isEmpty then [.text ""] else ts

/-- The trees described for projected items, one after another, each in the frame with the item's
props, after the trees `acc.1` already there, with instance ids counted from `acc.2`. -/
def describeItems (desc : Frame → Nat → Option (List Tree × Nat)) (frame : Frame) :
    List Projected → List Tree × Nat → Option (List Tree × Nat)
  | [], acc => some acc
  | p :: ps, (ts, next) => do
    let (us, next) ← desc { frame with props := p.props } next
    describeItems desc frame ps (ts ++ us, next)

section

variable (procs : Procedures) (policy : DuplicateKeyPolicy)

mutual
/-- Read one instruction in a frame. -/
def Sketch.step (frame : Frame) (k : Sketch) : Instruction → Option Sketch
  | .openElement tag => some { k with stack := some { tag := tag.name } :: k.stack }
  | .closeElement =>
    match k.stack with
    | some o :: rest => some ({ k with stack := rest }.add [o.tree])
    | _ => none
  | .openFragment => some { k with stack := none :: k.stack }
  | .closeFragment => some { k with stack := k.stack.drop 1 }
  | .staticProperty p v => k.write (·.setProperty p v)
  | .staticAttribute n v => k.write (·.setAttribute n v)
  | .staticText t => k.write (·.setText t)
  | .staticTextNode t => some (k.add [.text t])
  | .dynamicProperty p b s => do
    let v ← b.describe procs frame k.values
    let k ← k.write (·.setProperty p v.contentText)
    pure (k.record s v)
  | .dynamicAttribute n b s => do
    let v ← b.describe procs frame k.values
    let k ← k.write (·.setAttribute n v.contentText)
    pure (k.record s v)
  | .dynamicText b s => do
    let v ← b.describe procs frame k.values
    let k ← k.write (·.setText v.contentText)
    pure (k.record s v)
  | .dynamicTextNode b s => do
    let v ← b.describe procs frame k.values
    pure ((k.add [.text v.contentText]).record s v)
  | .ternary ⟨test, _, consequent, alternate⟩ => do
    let decision ← Script.decision procs frame test
    let (ts, next) ← if decision then describe frame k.next consequent
      else describe frame k.next alternate
    pure ({ k with next }.add (Tree.orMarker ts))
  | .loop ⟨collection, slot, key, props, shouldUpdate, template, soleChild⟩ => do
    if k.inElement then
      let items ← (Pass.projection procs policy frame
        ⟨collection, slot, key, props, shouldUpdate, template, soleChild⟩).toOption
      let (ts, next) ← describeItems (fun frame next => describe frame next template) frame items
        ([], k.next)
      pure ({ k with next }.add ts)
    else none
  | .component ⟨factory, _, body⟩ => do
    let state ← (Script.outcome procs { props := frame.props } factory).toOption
    let (ts, next) ← describe (Frame.ofInstance frame.props k.next state) (k.next + 1) body
    pure ({ k with next }.add ts)
  | .didMount _ | .didUpdate _ => some k
  | .event .. => k.write id

/-- Read instructions one after another. -/
def Sketch.steps (frame : Frame) (k : Sketch) : List Instruction → Option Sketch
  | [] => some k
  | i :: is => (k.step frame i).bind fun k => k.steps frame is

/-- The trees a program describes in a frame, with the ids of its component instances counted
from `next`, and the id after them. -/
def describe (frame : Frame) (next : Nat) : Program → Option (List Tree × Nat)
  | .mk is _ => ({ next } : Sketch).steps frame is |>.map fun k => (k.top, k.next)
end

theorem Sketch.steps_append (frame : Frame) (k : Sketch) (xs ys : List Instruction) :
    k.steps procs policy frame (xs ++ ys) =
      (k.steps procs policy frame xs).bind fun k => k.steps procs policy frame ys := by
  induction xs generalizing k with
  | nil => simp [Sketch.steps]
  | cons x xs ih => simp [Sketch.steps, ih, Option.bind_assoc]

theorem describe_eq_steps (frame : Frame) (next : Nat) (q : Program) :
    describe procs policy frame next q =
      (({ next } : Sketch).steps procs policy frame q.instructions).map fun k => (k.top, k.next) := by
  cases q
  rw [describe]
  rfl

end

end Canopy
