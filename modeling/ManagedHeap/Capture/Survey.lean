import ManagedHeap.Capture.Draft
import ManagedHeap.Capture.Handlers
import ManagedHeap.Capture.Marks
/-!
Reading objects into a draft. Each object is read by the handler of its type; then its shape gets
an edge, and every reference slot that nothing has explained becomes a hidden edge. So each
reference is either explained or hidden, never both.

Containers mean what their owners say, so they are read in a second pass, after all owners.

A handler may ask for an edge from or to a position that is no node. Such an edge is not drawn, and
the survey has a fault from then on. So it has with a slot whose label 32 bits do not hold, and with
more edges than they count.
-/
namespace ManagedHeap

/-- The two passes over the live objects. -/
inductive Pass where
  /-- Everything but containers. -/
  | first
  /-- Containers only. -/
  | second
  deriving DecidableEq, Repr, Inhabited

/-- Whether objects of a type are read in a pass. -/
def Pass.visits (pass : Pass) (tag : Tag) : Bool :=
  tag.isContainer == (pass == .second)

/-- Something that a survey was asked for and cannot do. -/
inductive Survey.Fault where
  /-- An edge that the graph has no place for. -/
  | graph (f : Graph.Fault)
  /-- A number that 32 bits do not hold: the label of a hidden edge, or how many edges there are. -/
  | overflow
  deriving DecidableEq, Repr

def Survey.Fault.message : Survey.Fault → String
  | .graph f => f.message
  | .overflow => "attempt to add with overflow"

/-- A draft and what has been learned while drawing it. -/
structure Survey where
  draft : Draft
  /-- What owners said about containers. -/
  containers : Std.TreeMap Address ContainerKind := {}
  /-- Global objects that the root already leads to. -/
  globals : List Address := []
  /-- Slots of the object being read that are explained. -/
  marks : Marks := {}
  /-- The first fault, if there was one. What comes after it is of no use to anyone. -/
  fault : Option Survey.Fault := none
  deriving Inhabited

namespace Survey

def graph (s : Survey) : Graph := s.draft.graph

def ledger (s : Survey) : Ledger := s.draft.ledger

/-- What a script can look at. -/
def sight (s : Survey) : Sight where
  containerKind? a := s.containers[a]?
  nodeCount := s.graph.nodeCount
  edgeCount := s.graph.edgeCount

/-- The node of a live object. -/
def object? (s : Survey) (sc : Scope) (a : Address) : Option NodeIndex × Survey :=
  let (index, draft) := s.draft.object? sc a
  (index, { s with draft := draft })

/-- Go on with the live object that a value refers to, if it refers to one. -/
def withTarget (s : Survey) (sc : Scope) (value : Value)
    (next : Address → NodeIndex → Survey → Survey) : Survey :=
  match value with
  | .small _ => s
  | .ref a =>
    match s.object? sc a with
    | (some child, s) => next a child s
    | (none, s) => s

def mark (s : Survey) (slot : Nat) : Survey :=
  { s with marks := s.marks.mark slot }

def markIf (s : Survey) (slot : Option Nat) : Survey :=
  match slot with
  | some slot => s.mark slot
  | none => s

/-- Note a fault, unless there was one before. -/
def refuse (s : Survey) (f : Fault) : Survey :=
  { s with fault := s.fault.or (some f) }

/-- Note it if there are more edges than 32 bits count. -/
def countEdges (s : Survey) : Survey :=
  if s.graph.edgeCount < wordLimit 32 then s else s.refuse .overflow

/-- Draw an edge between two positions if both are nodes. -/
def link (s : Survey) (parent child : NodeIndex) (draw : Draft → Draft) : Survey :=
  match s.graph.missingEnd? parent child with
  | some f => s.refuse (.graph f)
  | none => { s with draft := draw s.draft }

theorem draft_link (s : Survey) (parent child : NodeIndex) (draw : Draft → Draft) :
    (s.link parent child draw).draft =
      if parent < s.graph.nodeCount ∧ child < s.graph.nodeCount then draw s.draft else s.draft := by
  unfold link
  cases h : s.graph.missingEnd? parent child with
  | some f =>
    rw [if_neg (by rw [← Graph.missingEnd?_eq_none, h]; simp)]
    rfl
  | none => rw [if_pos (Graph.missingEnd?_eq_none.mp h)]

@[simp] theorem marks_link (s : Survey) (parent child : NodeIndex) (draw : Draft → Draft) :
    (s.link parent child draw).marks = s.marks := by
  unfold link
  split <;> rfl

@[simp] theorem containers_link (s : Survey) (parent child : NodeIndex) (draw : Draft → Draft) :
    (s.link parent child draw).containers = s.containers := by
  unfold link
  split <;> rfl

def linkNamed (s : Survey) (kind : EdgeKind) (parent : NodeIndex) (name : String)
    (child : NodeIndex) : Survey :=
  s.link parent child (·.linkNamed kind parent name child)

def linkIndexed (s : Survey) (kind : EdgeKind) (parent : NodeIndex) (index : Nat)
    (child : NodeIndex) : Survey :=
  s.link parent child (·.linkIndexed kind parent index child)

/-- An edge with a name to an essential object. The slot counts as explained even if the object
is not essential. -/
def linkEssential (s : Survey) (sc : Scope) (kind : EdgeKind) (parent : NodeIndex) (name : String)
    (value : Value) (slot : Option Nat) : Survey :=
  s.withTarget sc value fun a child s =>
    (if sc.view.isEssential a then s.linkNamed kind parent name child else s).markIf slot

/-- Properties with an empty name are the runtime's own. -/
def propertyKind : PropertyKey → EdgeKind
  | .name "" => .internal
  | _ => .property

def propertyName (key : PropertyKey) (lead : String) : String :=
  match key with
  | .name text => lead ++ text
  | .symbol description => description

/-- Do what an emission under the node `parent` asks for. -/
def emit (sc : Scope) (parent : NodeIndex) (s : Survey) : Emission → Survey
  | .internal name value slot => s.linkEssential sc .internal parent name value slot
  | .weak name value slot => s.linkEssential sc .weak parent name value slot
  | .context name value slot =>
    s.withTarget sc value fun _ child s => (s.linkNamed .context parent name child).mark slot
  | .property key value lead slot =>
    s.withTarget sc value fun _ child s =>
      (s.linkNamed (propertyKind key) parent (propertyName key lead) child).markIf slot
  | .element index value slot =>
    s.withTarget sc value fun _ child s =>
      (s.linkIndexed .element parent index child).markIf slot
  | .shortcut name value =>
    s.withTarget sc value fun _ child s => s.linkNamed .shortcut parent name child
  | .backingStore name store =>
    let (child, draft) := s.draft.backingStore store
    { s with draft := draft }.linkNamed .internal parent name child
  | .node name target => s.linkNamed .internal parent name target
  | .tag value name =>
    match value with
    | .small _ => s
    | .ref a =>
      if sc.view.isEssential a then
        s.withTarget sc value fun _ child s =>
          { s with draft := s.draft.nameIfEmpty child name }
      else s
  | .container value kind =>
    match value with
    | .small _ => s
    | .ref a =>
      match sc.view.object? a with
      | some o =>
        if o.tag.isContainer then { s with containers := s.containers.insert a kind } else s
      | none => s
  | .silence slot => s.mark slot

/-- Follow a script. -/
def follow (sc : Scope) : Script → Survey → Survey
  | .done, s => s
  | .emit parent e rest, s => follow sc rest (s.emit sc parent e)
  | .look next, s => follow sc (next s.sight) s

/-- What the hidden edge of a slot bears: the position of the slot, cut to the 32 bits of a label
and then counted from 1. There is none for the last position that 32 bits hold. -/
def hiddenLabel? (slot : Nat) : Option Nat :=
  if slot % wordLimit 32 + 1 < wordLimit 32 then some (slot % wordLimit 32 + 1) else none

/-- Among the first slots, which 32 bits tell apart, a label is the position counted from 1. -/
theorem hiddenLabel?_of_lt {slot : Nat} (h : slot + 1 < wordLimit 32) :
    hiddenLabel? slot = some (slot + 1) := by
  rw [hiddenLabel?, Nat.mod_eq_of_lt (by omega), if_pos h]

example : hiddenLabel? (wordLimit 32) = some 1 ∧ hiddenLabel? (wordLimit 32 - 1) = none := by
  decide +kernel

def linkHidden (s : Survey) (parent : NodeIndex) (slot : Nat) (child : NodeIndex) : Survey :=
  match hiddenLabel? slot with
  | some index => s.linkIndexed .hidden parent index child
  | none => s.refuse .overflow

@[simp] theorem marks_linkHidden (s : Survey) (parent : NodeIndex) (slot : Nat)
    (child : NodeIndex) : (s.linkHidden parent slot child).marks = s.marks := by
  unfold linkHidden
  split
  · exact marks_link ..
  · rfl

@[simp] theorem containers_linkHidden (s : Survey) (parent : NodeIndex) (slot : Nat)
    (child : NodeIndex) : (s.linkHidden parent slot child).containers = s.containers := by
  unfold linkHidden
  split
  · exact containers_link ..
  · rfl

/-- Hidden edges for the references in `values`, which stand in the slots from `slot` on, unless
they are explained. -/
def hide (sc : Scope) (parent : NodeIndex) : Nat → List Value → Survey → Survey
  | _, [], s => s
  | slot, value :: values, s =>
    let (isExplained, marks) := s.marks.take slot
    let s := { s with marks := marks }
    let s :=
      if isExplained then s
      else s.withTarget sc value fun a child s =>
        if sc.view.isEssential a then s.linkHidden parent slot child else s
    hide sc parent (slot + 1) values s

/-- Read one object whose node is `parent`. -/
def read (sc : Scope) (handlers : Handlers) (o : HeapObject) (parent : NodeIndex) (s : Survey) :
    Survey :=
  let s := { s with marks := Marks.reset o.slots.length }
  let s := match handlers.find? o.tag with
    | some handler => follow sc (handler sc.view o parent) s
    | none => s
  let s := match o.shape with
    | some shape => s.linkEssential sc .internal parent "map" (.ref shape) none
    | none => s
  hide sc parent 0 o.slots s

/-- Give an object its node, and read it if the pass visits its type. -/
def visit (sc : Scope) (handlers : Handlers) (pass : Pass) (o : HeapObject) (s : Survey) :
    Survey :=
  match s.object? sc o.address with
  | (some index, s) => if pass.visits o.tag then s.read sc handlers o index else s
  | (none, s) => s

end Survey

end ManagedHeap
