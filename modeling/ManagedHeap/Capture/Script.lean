import ManagedHeap.Graph.Basic
import ManagedHeap.Heap.View
/-!
What is said about an object while it is read. A handler is given an object and its node and turns
them into a script: a sequence of emissions, each of which asks for an edge, a name or a mark. The
script says from which node an edge shall start; that is up to the handler, which may name any
position in the graph. Between emissions a script may look at how far the graph has grown. What an
emission comes to is decided elsewhere, so scripts are plain data.
-/
namespace ManagedHeap

/-- What an owner says about a container that it refers to. -/
inductive ContainerKind where
  /-- The table of a weak collection: keys are held weakly, values strongly. -/
  | weakCollectionTable
  /-- An array that holds all its elements weakly. -/
  | weakArray
  deriving DecidableEq, Repr, Inhabited

/-- One thing said while an object is read. The node that its edge starts from stands beside it in
the script. A slot, where given, is the one that holds the value; it needs no other explanation
then. -/
inductive Emission where
  | internal (name : String) (value : Value) (slot : Option Nat)
  | weak (name : String) (value : Value) (slot : Option Nat)
  /-- A variable that a scope captured. -/
  | context (name : String) (value : Value) (slot : Nat)
  /-- A property. What leads is written before a key that is a name. -/
  | property (key : PropertyKey) (value : Value) (lead : String) (slot : Option Nat)
  | element (index : Nat) (value : Value) (slot : Option Nat)
  | shortcut (name : String) (value : Value)
  /-- An internal edge to memory outside the heap. -/
  | backingStore (name : String) (store : BackingStore)
  /-- An internal edge to a node of the graph. -/
  | node (name : String) (target : NodeIndex)
  /-- A name for an object that has none. -/
  | tag (value : Value) (name : String)
  /-- What kind of container the value is. -/
  | container (value : Value) (kind : ContainerKind)
  /-- Say nothing about a slot. -/
  | silence (slot : Nat)
  deriving DecidableEq, Repr

/-- What a script can look at. -/
structure Sight where
  containerKind? : Address → Option ContainerKind
  nodeCount : Nat
  edgeCount : Nat

/-- A sequence of emissions, each under a node. Names, marks and what is said of a container have no
use for the node. -/
inductive Script where
  | done
  | emit (parent : NodeIndex) (e : Emission) (rest : Script)
  | look (next : Sight → Script)

namespace Script

/-- Emissions under one node. -/
def ofList (parent : NodeIndex) : List Emission → Script
  | [] => .done
  | e :: es => .emit parent e (ofList parent es)

/-- Emissions under one node first, then another script. -/
def prepend (parent : NodeIndex) (es : List Emission) (rest : Script) : Script :=
  es.foldr (.emit parent) rest

end Script

/-- How objects of a type are read, given the object and its node. -/
abbrev Handler := View → HeapObject → NodeIndex → Script

/-! ## Emissions about a slot

A slot that the object does not have says nothing. -/

namespace HeapObject

def internalSlot (o : HeapObject) (name : String) (slot : Nat) : List Emission :=
  match o.slot? slot with
  | some v => [.internal name v (some slot)]
  | none => []

def internalNumbered (o : HeapObject) (slot : Nat) : List Emission :=
  o.internalSlot (toString slot) slot

def weakSlot (o : HeapObject) (name : String) (slot : Nat) : List Emission :=
  match o.slot? slot with
  | some v => [.weak name v (some slot)]
  | none => []

def weakNumbered (o : HeapObject) (slot : Nat) : List Emission :=
  o.weakSlot (toString slot) slot

def contextSlot (o : HeapObject) (name : String) (slot : Nat) : List Emission :=
  match o.slot? slot with
  | some v => [.context name v slot]
  | none => []

def propertySlot (o : HeapObject) (name : String) (slot : Nat) : List Emission :=
  match o.slot? slot with
  | some v => [.property (.name name) v "" (some slot)]
  | none => []

def tagSlot (o : HeapObject) (slot : Nat) (name : String) : List Emission :=
  match o.slot? slot with
  | some v => [.tag v name]
  | none => []

def containerSlot (o : HeapObject) (slot : Nat) (kind : ContainerKind) : List Emission :=
  match o.slot? slot with
  | some v => [.container v kind]
  | none => []

/-- A name for the slot's object, and an internal edge to it. -/
def taggedSlot (o : HeapObject) (name tag : String) (slot : Nat) : List Emission :=
  o.tagSlot slot tag ++ o.internalSlot name slot

end HeapObject

/-- What is said about a slot that may not exist. -/
def optionally (slot : Option Nat) (f : Nat → List Emission) : List Emission :=
  match slot with
  | some s => f s
  | none => []

end ManagedHeap
