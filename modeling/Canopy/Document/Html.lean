import Canopy.Document.Basic

/-!
# Reading a document back

The HTML text of a node and its subtree, its text content, and the searches by id and by tag.
An element is written as `<tag`, its attributes in order as ` name="value"`, then its class and
its style the same way when they have been set, `>`, its children and `</tag>`; a text node is
its text. Nothing is escaped.

Every walk goes down at most as many levels as the document has nodes, which bounds the walk
in a forest; the bound is its fuel.
-/

namespace Canopy

namespace Document

/-- An attribute as HTML writes it. -/
def htmlAttribute (name value : String) : String :=
  " " ++ name ++ "=\"" ++ value ++ "\""

/-- The HTML text of a node, walking at most `fuel` levels. -/
def htmlWith (d : Document) : Nat → NodeId → String
  | 0, _ => ""
  | fuel + 1, n =>
    match d.get? n with
    | none => ""
    | some { kind := .text t, .. } => t
    | some { kind := .element tag c s attrs, children, .. } =>
      let open_ := "<" ++ tag ++ String.join (attrs.map fun (k, v) => htmlAttribute k v)
        ++ ((c.map (htmlAttribute "class")).getD "") ++ ((s.map (htmlAttribute "style")).getD "")
        ++ ">"
      open_ ++ String.join (children.map (d.htmlWith fuel)) ++ "</" ++ tag ++ ">"

/-- The HTML text of a node. -/
def toHtml (d : Document) (n : NodeId) : String :=
  d.htmlWith (d.nodes.size + 1) n

/-- The HTML text of a node's children. -/
def innerHtml (d : Document) (n : NodeId) : String :=
  String.join ((d.children n).map (d.htmlWith d.nodes.size))

/-- The text of a node's text nodes, in document order, walking at most `fuel` levels. -/
def textWith (d : Document) : Nat → NodeId → String
  | 0, _ => ""
  | fuel + 1, n =>
    match d.get? n with
    | some { kind := .text t, .. } => t
    | some { children, .. } => String.join (children.map (d.textWith fuel))
    | none => ""

/-- The text content of a node. -/
def textContent (d : Document) (n : NodeId) : String :=
  d.textWith (d.nodes.size + 1) n

/-- The first node in document order, the node itself included, whose `id` attribute is the
given one, walking at most `fuel` levels. -/
def findIdWith (d : Document) (id : String) : Nat → NodeId → Option NodeId
  | 0, _ => none
  | fuel + 1, n =>
    if d.attribute? n "id" = some id then some n
    else (d.children n).findSome? (d.findIdWith id fuel)

/-- The first node under a root, the root included, with the given id. -/
def queryId (d : Document) (root : NodeId) (id : String) : Option NodeId :=
  d.findIdWith id (d.nodes.size + 1) root

/-- The elements with a tag strictly under a node, in document order, walking at most `fuel`
levels. -/
def byTagWith (d : Document) (tag : String) : Nat → NodeId → List NodeId
  | 0, _ => []
  | fuel + 1, n =>
    (d.children n).flatMap fun c =>
      (if d.tag? c = some tag then [c] else []) ++ d.byTagWith tag fuel c

/-- The elements with a tag strictly under a node, in document order. -/
def elementsByTag (d : Document) (root : NodeId) (tag : String) : List NodeId :=
  d.byTagWith tag (d.nodes.size + 1) root

end Document

end Canopy
