import Canopy.Json.Value

/-!
# Documents

The document the renderer writes into: an arena of element and text nodes, each with its
parent and its ordered children, and a log of every change made to it. Node ids are arena
positions, handed out in order; containers are created first and are not logged.

The rules of the changes:

* attaching a node detaches it from its old parent first, then puts it before the reference
  node when that is a child of the new parent, and at the end otherwise; the log says `move`
  when the node had a parent, else `insert` when a reference was given, else `append`;
* a removal is always logged, and detaches only when the parent matches;
* attributes keep the order in which their names were first set;
* setting the text content of an element detaches all its children and, for a non-empty text,
  gives it one new text node, which is not logged;
* each container keeps the set of event names it listens to, in the order they were added.
-/

namespace Canopy

/-- The id of a document node: its position in the arena. -/
abbrev NodeId := Nat

/-- What a node is. -/
inductive NodeKind where
  /-- An element, with its class and style if ever set, and its attributes in the order their
  names were first set. -/
  | element (tag : String) (className style : Option String) (attributes : List (String × String))
  /-- A text node. -/
  | text (content : String)
  deriving Inhabited

/-- A node of the arena. -/
structure NodeData where
  /-- What the node is. -/
  kind : NodeKind
  /-- Its parent, if attached. -/
  parent : Option NodeId := none
  /-- Its children, in order. -/
  children : List NodeId := []
  deriving Inhabited

/-- A change made to the document, as the log records it. -/
inductive DocOp where
  | createElement (node : NodeId) (tag : String)
  | createText (node : NodeId) (text : String)
  | append (parent child : NodeId)
  | insert (parent child before : NodeId)
  | move (parent child : NodeId) (before : Option NodeId)
  | remove (parent child : NodeId)
  | setAttribute (node : NodeId) (name value : String)
  | setClassName (node : NodeId) (value : String)
  | setStyle (node : NodeId) (value : String)
  | setTextContent (node : NodeId) (value : String)
  | listen (container : NodeId) (event : String)
  | unlisten (container : NodeId) (event : String)

/-- Whether a change writes a value: an attribute, class, style or text content. -/
def DocOp.isWrite : DocOp → Bool
  | .setAttribute .. | .setClassName .. | .setStyle .. | .setTextContent .. => true
  | _ => false

/-- Whether a change moves a node that was already attached. -/
def DocOp.isMove : DocOp → Bool
  | .move .. => true
  | _ => false

/-- Set `k` to `v` in an ordered list of pairs: in place when `k` is there, at the end
otherwise. -/
def setEntry (k v : String) : List (String × String) → List (String × String)
  | [] => [(k, v)]
  | (k', v') :: rest => if k' = k then (k, v) :: rest else (k', v') :: setEntry k v rest

/-- The document. -/
structure Document where
  /-- The arena. -/
  nodes : Array NodeData := #[]
  /-- The changes made so far, oldest first. -/
  log : Array DocOp := #[]
  /-- For each container that ever listened, the event names it listens to, oldest first. -/
  listeners : List (NodeId × List String) := []
  deriving Inhabited

namespace Document

/-- The node with an id, if allocated. -/
def get? (d : Document) (n : NodeId) : Option NodeData :=
  d.nodes[n]?

/-- The parent of a node. -/
def parent? (d : Document) (n : NodeId) : Option NodeId :=
  (d.get? n).bind (·.parent)

/-- The children of a node. -/
def children (d : Document) (n : NodeId) : List NodeId :=
  ((d.get? n).map (·.children)).getD []

/-- Change the node with an id; nothing happens for an id not allocated. -/
def modifyNode (d : Document) (n : NodeId) (f : NodeData → NodeData) : Document :=
  { d with nodes := d.nodes.modify n f }

/-- Record a change in the log. -/
def record (d : Document) (op : DocOp) : Document :=
  { d with log := d.log.push op }

/-- Allocate a node. -/
def alloc (d : Document) (kind : NodeKind) : NodeId × Document :=
  (d.nodes.size, { d with nodes := d.nodes.push { kind } })

/-- Create a container element, without logging it. -/
def createContainer (d : Document) (tag : String) : NodeId × Document :=
  d.alloc (.element tag none none [])

/-- Create an element. -/
def createElement (d : Document) (tag : String) : NodeId × Document :=
  let (n, d) := d.alloc (.element tag none none [])
  (n, d.record (.createElement n tag))

/-- Create a text node. -/
def createText (d : Document) (text : String) : NodeId × Document :=
  let (n, d) := d.alloc (.text text)
  (n, d.record (.createText n text))

/-- Detach a node from its parent, if it has one. -/
def detach (d : Document) (child : NodeId) : Document :=
  match d.parent? child with
  | none => d
  | some p =>
    let d := d.modifyNode child fun nd => { nd with parent := none }
    d.modifyNode p fun nd => { nd with children := nd.children.filter (· != child) }

/-- Put `child` under `parent`, before `before` when that is one of its children, else last. -/
def attach (d : Document) (parent child : NodeId) (before : Option NodeId) : Document :=
  let moved := (d.parent? child).isSome
  let d := d.detach child
  let siblings := d.children parent
  let index := ((before.bind fun b => siblings.idxOf? b)).getD siblings.length
  let d := d.modifyNode parent fun nd => { nd with children := nd.children.insertIdx index child }
  let d := d.modifyNode child fun nd => { nd with parent := some parent }
  let op := if moved then DocOp.move parent child before
    else match before with
      | some b => .insert parent child b
      | none => .append parent child
  d.record op

/-- Append a child. -/
def appendChild (d : Document) (parent child : NodeId) : Document :=
  d.attach parent child none

/-- Insert a child before a reference node, or last without one. -/
def insertBefore (d : Document) (parent child : NodeId) (before : Option NodeId) : Document :=
  d.attach parent child before

/-- Remove a child from a parent; the change is logged even when the parent does not match. -/
def removeChild (d : Document) (parent child : NodeId) : Document :=
  let d := if d.parent? child = some parent then d.detach child else d
  d.record (.remove parent child)

/-- Change an element; a text node stays as it is. -/
def modifyElement (d : Document) (n : NodeId)
    (f : Option String → Option String → List (String × String) →
      Option String × Option String × List (String × String)) : Document :=
  d.modifyNode n fun nd => match nd.kind with
    | .element tag c s attrs =>
      let (c, s, attrs) := f c s attrs
      { nd with kind := .element tag c s attrs }
    | .text _ => nd

/-- Set an attribute of an element. -/
def setAttribute (d : Document) (n : NodeId) (name value : String) : Document :=
  (d.modifyElement n fun c s attrs => (c, s, setEntry name value attrs)).record
    (.setAttribute n name value)

/-- Set the class of an element. -/
def setClassName (d : Document) (n : NodeId) (value : String) : Document :=
  (d.modifyElement n fun _ s attrs => (some value, s, attrs)).record (.setClassName n value)

/-- Set the style of an element. -/
def setStyle (d : Document) (n : NodeId) (value : String) : Document :=
  (d.modifyElement n fun c _ attrs => (c, some value, attrs)).record (.setStyle n value)

/-- Set the text content of a node: a text node takes the text; an element loses all its
children and, for a non-empty text, gets one new text node. -/
def setTextContent (d : Document) (n : NodeId) (text : String) : Document :=
  let d := match d.get? n with
    | some { kind := .text _, .. } => d.modifyNode n fun nd => { nd with kind := .text text }
    | some nd =>
      let d := nd.children.foldl (fun (d : Document) c => d.modifyNode c fun cd => { cd with parent := none }) d
      let d := d.modifyNode n fun nd => { nd with children := [] }
      if text.isEmpty then d
      else
        let (t, d) := d.alloc (.text text)
        let d := d.modifyNode t fun td => { td with parent := some n }
        d.modifyNode n fun nd => { nd with children := [t] }
    | none => d
  d.record (.setTextContent n text)

/-- The event names a container listens to, oldest first. -/
def listenersOf (d : Document) (c : NodeId) : List String :=
  (d.listeners.lookup c).getD []

/-- Set the event names of a container. -/
def setListeners (d : Document) (c : NodeId) (names : List String) : Document :=
  let rest := d.listeners.filter (·.1 != c)
  { d with listeners := rest ++ [(c, names)] }

/-- Listen to an event on a container; a name already listened to keeps its place. -/
def addListener (d : Document) (c : NodeId) (event : String) : Document :=
  let names := d.listenersOf c
  let d := if names.contains event then d else d.setListeners c (names ++ [event])
  d.record (.listen c event)

/-- Stop listening to an event on a container; the other names keep their order. -/
def removeListener (d : Document) (c : NodeId) (event : String) : Document :=
  let d := match d.listeners.lookup c with
    | some names => d.setListeners c (names.erase event)
    | none => d
  d.record (.unlisten c event)

/-- The node after a node among its parent's children. -/
def nextSibling? (d : Document) (n : NodeId) : Option NodeId := do
  let p ← d.parent? n
  let siblings := d.children p
  let i ← siblings.idxOf? n
  siblings[i + 1]?

/-- The tag of an element; none for a text node. -/
def tag? (d : Document) (n : NodeId) : Option String :=
  match d.get? n with
  | some { kind := .element t .., .. } => some t
  | _ => none

/-- An attribute of an element. -/
def attribute? (d : Document) (n : NodeId) (name : String) : Option String :=
  match d.get? n with
  | some { kind := .element _ _ _ attrs, .. } => attrs.lookup name
  | _ => none

/-- The class of an element, if ever set. -/
def className? (d : Document) (n : NodeId) : Option String :=
  match d.get? n with
  | some { kind := .element _ c _ _, .. } => c
  | _ => none

/-- The style of an element, if ever set. -/
def style? (d : Document) (n : NodeId) : Option String :=
  match d.get? n with
  | some { kind := .element _ _ s _, .. } => s
  | _ => none

end Document

end Canopy
