import ManagedHeap.Heap.View
import ManagedHeap.Ledger.Basic
import ManagedHeap.Text.Quoted
/-!
A graph that is being drawn: things stand for nodes, and a thing gets its node when it is first
seen. The ledger gives heap objects and the memory they own their numbers.
-/
namespace ManagedHeap

/-- Whatever can become a node. -/
inductive Thing where
  | object (a : Address)
  /-- Memory outside the heap that an array buffer owns. -/
  | backingStore (a : Address)
  | native (id : ObjectId)
  | nativeGroup (label : String)
  deriving DecidableEq, Repr, Inhabited

def Thing.render : Thing → String
  | .object a => "Object(Address(" ++ toString a.raw ++ "))"
  | .backingStore a => "BackingStore(Address(" ++ toString a.raw ++ "))"
  | .native id => "Native(ObjectId(" ++ toString id.raw ++ "))"
  | .nativeGroup label => "NativeGroup(" ++ Text.quote label ++ ")"

/-- The nodes of things. -/
structure Entries where
  objects : Std.TreeMap Address NodeIndex := {}
  backingStores : Std.TreeMap Address NodeIndex := {}
  natives : Std.TreeMap ObjectId NodeIndex := {}
  nativeGroups : Std.TreeMap String NodeIndex := {}
  deriving Inhabited

namespace Entries

def find? (e : Entries) : Thing → Option NodeIndex
  | .object a => e.objects[a]?
  | .backingStore a => e.backingStores[a]?
  | .native id => e.natives[id]?
  | .nativeGroup label => e.nativeGroups[label]?

def insert (e : Entries) (t : Thing) (index : NodeIndex) : Entries :=
  match t with
  | .object a => { e with objects := e.objects.insert a index }
  | .backingStore a => { e with backingStores := e.backingStores.insert a index }
  | .native id => { e with natives := e.natives.insert id index }
  | .nativeGroup label => { e with nativeGroups := e.nativeGroups.insert label index }

@[simp] theorem find?_empty (t : Thing) : ({} : Entries).find? t = none := by
  cases t <;> simp [find?]

theorem find?_insert (e : Entries) (t u : Thing) (index : NodeIndex) :
    (e.insert t index).find? u = if t = u then some index else e.find? u := by
  cases t <;> cases u <;> simp [insert, find?, Std.TreeMap.getElem?_insert]

end Entries

/-! ## Kind and name of an object's node -/

/-- What a capture knows beside the heap: tags of global objects, and how long names may be. -/
structure Scope where
  view : View
  globalTag? : Address → Option String := fun _ => none
  maxNameLength : Nat := 1024

namespace HeapObject

/-- Name of the constructor, or a name for objects that do not tell. -/
def constructorName (o : HeapObject) : String :=
  match o.layout with
  | some l => if l.constructorName = "" then "Object" else l.constructorName
  | none => "Object"

/-- Kind and name of the object's node. -/
def describe (sc : Scope) (o : HeapObject) : NodeKind × String :=
  match o.tag with
  | .function =>
    match o.detail with
    | .function name .. => (.closure, name)
    | _ => (.closure, "")
  | .boundFunction => (.closure, "native_bind")
  | .regexp =>
    match o.detail with
    | .regexp pattern => (.regexp, pattern)
    | _ => (.regexp, "")
  | .globalObject =>
    match sc.globalTag? o.address with
    | some tag => (.object, o.constructorName ++ " / " ++ tag)
    | none => (.object, o.constructorName)
  | .object | .globalProxy | .collection | .weakCollection | .promise | .arrayBuffer
  | .arrayBufferView => (.object, o.constructorName)
  | .string =>
    match o.detail with
    | .string content => (.string, String.ofList (content.toList.take sc.maxNameLength))
    | _ => (.string, "")
  | .consString => (.concatenatedString, "(concatenated string)")
  | .slicedString => (.slicedString, "(sliced string)")
  | .symbol => (.symbol, "symbol")
  | .privateSymbol => (.hidden, "private symbol")
  | .code => (.code, "")
  | .sharedFunctionInfo =>
    match o.detail with
    | .sharedFunctionInfo name .. => (.code, name)
    | _ => (.code, "")
  | .script =>
    match o.detail with
    | .script name _ => (.code, name.getD "")
    | _ => (.code, "")
  | .nativeContext => (.hidden, "system / NativeContext")
  | .context => (.object, "system / Context")
  | .fixedArray | .byteArray => (.array, "")
  | .heapNumber => (.number, "number")
  | tag => (.hidden, tag.systemLabel)

end HeapObject

/-! ## Drafts -/

/-- A graph that is being drawn, the nodes of things, and the ledger of numbers. -/
structure Draft where
  graph : Graph := Graph.withRoots
  entries : Entries := {}
  ledger : Ledger := {}
  deriving Inhabited

namespace Draft

/-- Add the node of a thing. -/
def addNode (d : Draft) (t : Thing) (n : Node) : NodeIndex × Draft :=
  (d.graph.nodeCount,
    { d with
      graph := d.graph.pushNode n
      entries := d.entries.insert t d.graph.nodeCount })

/-- Add the node of the object at an address. -/
def addObject (d : Draft) (sc : Scope) (a : Address) : NodeIndex × Draft :=
  match sc.view.object? a with
  | some o =>
    let (id, ledger) := d.ledger.track a o.size
    let (kind, name) := o.describe sc
    { d with ledger := ledger }.addNode (.object a)
      { kind := kind, name := name, id := id, selfSize := o.size,
        traceNode := sc.view.traceNode a }
  | none =>
    let (id, ledger) := d.ledger.track a 0
    { d with ledger := ledger }.addNode (.object a)
      { kind := .hidden, name := "(unresolved)", id := id, selfSize := 0 }

/-- Add the node of memory outside the heap. -/
def addBackingStore (d : Draft) (store : BackingStore) : NodeIndex × Draft :=
  let (id, ledger) := d.ledger.track store.address (min store.byteLength maxSize)
  { d with ledger := ledger }.addNode (.backingStore store.address)
    { kind := .native, name := "system / JSArrayBufferData", id := id,
      selfSize := store.byteLength }

/-- The node of a thing, added by `add` if there is none. -/
def ensure (d : Draft) (t : Thing) (add : Draft → NodeIndex × Draft) : NodeIndex × Draft :=
  match d.entries.find? t with
  | some index => (index, d)
  | none => add d

/-- The node of a live object. -/
def object? (d : Draft) (sc : Scope) (a : Address) : Option NodeIndex × Draft :=
  if sc.view.isLive a then
    let (index, d) := d.ensure (.object a) (·.addObject sc a)
    (some index, d)
  else (none, d)

/-- The node of memory outside the heap. -/
def backingStore (d : Draft) (store : BackingStore) : NodeIndex × Draft :=
  d.ensure (.backingStore store.address) (·.addBackingStore store)

/-! ### Edges -/

/-- Number of edges that leave a node so far. -/
def childCount (d : Draft) (index : NodeIndex) : Nat :=
  (d.graph.nodes[index]?.map (·.childCount)).getD 0

def linkIndexed (d : Draft) (kind : EdgeKind) (parent : NodeIndex) (index : Nat)
    (child : NodeIndex) : Draft :=
  { d with graph := d.graph.pushEdge ⟨kind, .index index, parent, child⟩ }

/-- An edge with a name, which enters the table of names. -/
def linkNamed (d : Draft) (kind : EdgeKind) (parent : NodeIndex) (name : String)
    (child : NodeIndex) : Draft :=
  { d with graph := (d.graph.intern name).pushEdge ⟨kind, .name name, parent, child⟩ }

/-- An edge whose index is its position among those of its source, counted from 1. -/
def linkNextIndexed (d : Draft) (kind : EdgeKind) (parent child : NodeIndex) : Draft :=
  d.linkIndexed kind parent (d.childCount parent + 1) child

/-- An edge whose name is its position among those of its source, counted from 1. -/
def linkNextNamed (d : Draft) (kind : EdgeKind) (parent child : NodeIndex) : Draft :=
  d.linkNamed kind parent (toString (d.childCount parent + 1)) child

def nameIfEmpty (d : Draft) (index : NodeIndex) (name : String) : Draft :=
  { d with graph := d.graph.nameIfEmpty index name }

end Draft

/-! ## Checked use

For callers that choose things, descriptions and positions themselves. What was done before a
fault stays done. -/

/-- How the node of a thing is described. -/
inductive Description where
  /-- As an object of the heap. -/
  | object
  /-- As memory outside the heap. -/
  | backingStore (byteLength : Nat)
  /-- As given, for native objects and their groups. -/
  | native (kind : NodeKind) (name : String) (id : ObjectId) (size : Nat)
  deriving DecidableEq, Repr

/-- A use of a draft that makes no sense. -/
inductive Draft.Fault where
  | graph (f : Graph.Fault)
  /-- A description for things of another kind. -/
  | misdescribed (description : Description) (t : Thing)
  deriving DecidableEq, Repr

def Draft.Fault.message : Draft.Fault → String
  | .graph f => f.message
  | .misdescribed .object t =>
    "internal error: entered unreachable code: heap object allocator used for " ++ t.render
  | .misdescribed (.backingStore _) t =>
    "internal error: entered unreachable code: backing store allocator used for " ++ t.render
  | .misdescribed (.native ..) t => "native allocator used for " ++ t.render

namespace Draft

/-- Add the node of a thing as described, even if it has one. -/
def add (d : Draft) (sc : Scope) (t : Thing) (description : Description) :
    Except Fault NodeIndex × Draft :=
  match description, t with
  | .object, .object a => (fun r => (.ok r.1, r.2)) (d.addObject sc a)
  | .backingStore byteLength, .backingStore a =>
    (fun r => (.ok r.1, r.2)) (d.addBackingStore ⟨a, byteLength⟩)
  | .native kind name id size, .native _
  | .native kind name id size, .nativeGroup _ =>
    (fun r => (.ok r.1, r.2))
      (d.addNode t { kind := kind, name := name, id := id, selfSize := size })
  | description, t => (.error (.misdescribed description t), d)

/-- The node of a thing, added as described if it has none. -/
def entry (d : Draft) (sc : Scope) (t : Thing) (description : Description) :
    Except Fault NodeIndex × Draft :=
  match d.entries.find? t with
  | some index => (.ok index, d)
  | none => d.add sc t description

/-- Add an edge to the graph if it allows it. -/
def addEdge (d : Draft) (e : Edge) : Except Fault Unit × Draft :=
  match d.graph.addEdge e with
  | .ok g => (.ok (), { d with graph := g })
  | .error f => (.error (.graph f), d)

def addIndexed (d : Draft) (kind : EdgeKind) (parent : NodeIndex) (index : Nat)
    (child : NodeIndex) : Except Fault Unit × Draft :=
  d.addEdge ⟨kind, .index index, parent, child⟩

/-- The name enters the table even if the edge is refused. -/
def addNamed (d : Draft) (kind : EdgeKind) (parent : NodeIndex) (name : String)
    (child : NodeIndex) : Except Fault Unit × Draft :=
  { d with graph := d.graph.intern name }.addEdge ⟨kind, .name name, parent, child⟩

def addNextIndexed (d : Draft) (kind : EdgeKind) (parent child : NodeIndex) :
    Except Fault Unit × Draft :=
  match d.graph.node parent with
  | .ok n => d.addIndexed kind parent (n.childCount + 1) child
  | .error f => (.error (.graph f), d)

def addNextNamed (d : Draft) (kind : EdgeKind) (parent child : NodeIndex) :
    Except Fault Unit × Draft :=
  match d.graph.node parent with
  | .ok n => d.addNamed kind parent (toString (n.childCount + 1)) child
  | .error f => (.error (.graph f), d)

/-- Name a node that has no name yet. -/
def name (d : Draft) (index : NodeIndex) (name : String) : Except Fault Unit × Draft :=
  match d.graph.nameIfEmptyAt index name with
  | .ok g => (.ok (), { d with graph := g })
  | .error f => (.error (.graph f), d)

end Draft

end ManagedHeap
