import Canopy.Document.Basic
import Canopy.Script.Basic

/-!
# Delegated events

A mounted root does not give each element a listener of its own. Its container listens once
per event name, and the root keeps, per event name, a table from elements to registrations:
the handler, the props it sees and the component instance it belongs to. A dispatched event
is handed to the registrations found on the target and its ancestors.

A table for a name is made, and the container starts listening, the first time an element
registers for that name; releasing a registration keeps the table, even when it is left empty.
-/

namespace Canopy

/-- What an element registered for an event name. -/
structure Registration where
  /-- The handler. -/
  handler : Script
  /-- The props the handler sees. -/
  props : Value
  /-- The component instance the handler belongs to, if any. -/
  owner : Option InstanceId

/-- The event tables of one mounted root. -/
structure EventTables where
  /-- Per event name, in the order the names were first registered, the registrations by
  element. -/
  tables : List (String × List (NodeId × Registration)) := []

namespace EventTables

/-- The registrations for an event name. -/
def table (t : EventTables) (name : String) : Option (List (NodeId × Registration)) :=
  t.tables.lookup name

/-- Replace the table of a name that has one. -/
def setTable (t : EventTables) (name : String) (rows : List (NodeId × Registration)) :
    EventTables :=
  { tables := t.tables.map fun (n, r) => if n = name then (n, rows) else (n, r) }

/-- Put a row for an element into a table, in place of an earlier one for the same element. -/
def putRow (e : NodeId) (r : Registration) : List (NodeId × Registration) → List (NodeId × Registration)
  | [] => [(e, r)]
  | (e', r') :: rest => if e' = e then (e, r) :: rest else (e', r') :: putRow e r rest

/-- Register an element for an event name; the container starts listening to a name the
tables did not have yet. -/
def register (t : EventTables) (d : Document) (container : NodeId) (name : String)
    (e : NodeId) (r : Registration) : EventTables × Document :=
  match t.table name with
  | some rows => (t.setTable name (putRow e r rows), d)
  | none => ({ tables := t.tables ++ [(name, [(e, r)])] }, d.addListener container name)

/-- Give an element's registration new props, if it has one. -/
def refresh (t : EventTables) (name : String) (e : NodeId) (props : Value) : EventTables :=
  match t.table name with
  | some rows => t.setTable name (rows.map fun (e', r) => if e' = e then (e', { r with props }) else (e', r))
  | none => t

/-- Drop an element's registration for an event name. -/
def release (t : EventTables) (name : String) (e : NodeId) : EventTables :=
  match t.table name with
  | some rows => t.setTable name (rows.filter (·.1 != e))
  | none => t

/-- The registration of an element for an event name. -/
def lookup (t : EventTables) (name : String) (e : NodeId) : Option Registration :=
  (t.table name).bind (·.lookup e)

/-- The number of registrations for an event name. -/
def handlerCount (t : EventTables) (name : String) : Nat :=
  ((t.table name).map List.length).getD 0

/-- The number of event names the root listens to. -/
def listenerCount (t : EventTables) : Nat :=
  t.tables.length

/-- The event names of the tables in byte order. -/
def sortedNames (t : EventTables) : List String :=
  (t.tables.map (·.1)).mergeSort (fun a b => decide (a ≤ b))

/-- Stop the container listening to every name of the tables, in byte order of the names. -/
def detachAll (t : EventTables) (d : Document) (container : NodeId) : Document :=
  t.sortedNames.foldl (fun d name => d.removeListener container name) d

end EventTables

end Canopy
