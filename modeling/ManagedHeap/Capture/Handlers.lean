import ManagedHeap.Capture.Script
/-!
How objects of the built-in types are read, and tables of handlers by type. A detail that does
not belong to the type says nothing; the slots it would have explained stay unexplained. All that
these handlers say is said under the node of the object.
-/
namespace ManagedHeap

namespace HeapObject

/-- An edge to the getter or the setter of a pair, which is in the given slot, if it is a live
object other than an oddball. -/
def accessorEmissions (v : View) (p : Property) (pair : HeapObject) (lead : String) (slot : Nat) :
    List Emission :=
  match pair.slot? slot with
  | none => []
  | some accessor =>
    match accessor.target?.bind v.object? with
    | some o => if o.tag = .oddball then [] else [.property p.key accessor lead none]
    | none => []

/-- An accessor property is an edge to the pair, and one each to the getter and the setter. A
value that is no such pair says nothing. -/
def pairEmissions (v : View) (p : Property) : List Emission :=
  match p.value.target?.bind v.object? with
  | none => []
  | some pair =>
    match pair.detail with
    | .accessorPair getter setter =>
      .property p.key p.value "" p.slot ::
        (accessorEmissions v p pair "get " getter ++ accessorEmissions v p pair "set " setter)
    | _ => []

def propertyEmissions (v : View) (p : Property) : List Emission :=
  if p.isAccessor then pairEmissions v p else [.property p.key p.value "" p.slot]

/-- The embedder's fields, numbered from `ordinal`. -/
def embedderEmissions (o : HeapObject) : Nat → List Nat → List Emission
  | _, [] => []
  | ordinal, slot :: slots =>
    o.internalSlot (toString ordinal) slot ++ o.embedderEmissions (ordinal + 1) slots

/-- Properties, elements, the embedder's fields, the prototype, and the stores kept outside the
object. -/
def layoutEmissions (v : View) (o : HeapObject) : List Emission :=
  match o.layout with
  | none => []
  | some l =>
    l.properties.flatMap (propertyEmissions v) ++
      l.elements.map (fun e => .element e.index e.value e.slot) ++
      o.embedderEmissions 0 l.embedderFields ++
      l.prototype.toList.map (fun p => .property (.name "__proto__") p "" none) ++
      optionally l.propertiesSlot (o.taggedSlot "properties" "(object properties)") ++
      optionally l.elementsSlot (o.taggedSlot "elements" "(object elements)")

/-- The slots of an array one by one: weakly if an owner said so, otherwise strongly. The table
of a weak collection has its keys weak and its values strong. -/
def arrayEmissions (o : HeapObject) (kind : Option ContainerKind) : List Emission :=
  match kind, o.detail with
  | some .weakCollectionTable, .hashTable entries =>
    entries.flatMap fun (key, value) => o.weakNumbered key ++ o.internalNumbered value
  | some .weakArray, _ => (List.range o.slots.length).flatMap o.weakNumbered
  | _, _ => (List.range o.slots.length).flatMap o.internalNumbered

/-- Shortcuts to the arguments in the array that a slot refers to. -/
def argumentEmissions (v : View) (o : HeapObject) (slot : Nat) : List Emission :=
  match ((o.slot? slot).bind (·.target?)).bind v.object? with
  | some arguments =>
    arguments.slots.mapIdx fun i value => .shortcut ("bound_argument_" ++ toString i) value
  | none => []

/-- What the detail of an object of the given type explains. -/
def detailEmissions (v : View) (o : HeapObject) : List Emission :=
  match o.tag, o.detail with
  | .globalObject, .globalObject nativeContext globalProxy =>
    o.internalSlot "native_context" nativeContext ++ o.internalSlot "global_proxy" globalProxy
  | .globalProxy, .globalProxy nativeContext => o.internalSlot "native_context" nativeContext
  | .function, .function _ shared context code feedbackCell prototype =>
    optionally prototype (o.propertySlot "prototype") ++
      optionally feedbackCell
        (o.taggedSlot "feedback_vector_cell" "(function feedback vector cell)") ++
      o.taggedSlot "shared" "(shared function info)" shared ++
      o.taggedSlot "context" "(context)" context ++
      o.internalSlot "code" code
  | .boundFunction, .boundFunction target boundThis boundArguments =>
    o.taggedSlot "bindings" "(bound arguments)" boundArguments ++
      o.internalSlot "bound_this" boundThis ++
      o.internalSlot "bound_function" target ++
      o.argumentEmissions v boundArguments
  | .collection, .collection table => o.internalSlot "table" table
  | .weakCollection, .weakCollection table =>
    o.containerSlot table .weakCollectionTable ++ o.internalSlot "table" table
  | .promise, .promise result reactions =>
    o.internalSlot "result" result ++ o.internalSlot "reactions" reactions
  | .arrayBuffer, .arrayBuffer (some store) => [.backingStore "backing_store" store]
  | .arrayBufferView, .arrayBufferView buffer => o.internalSlot "buffer" buffer
  | .consString, .consString first second
  | .slicedString, .consString first second =>
    o.internalSlot "first" first ++ o.internalSlot "second" second
  | .consString, .slicedString parent
  | .slicedString, .slicedString parent => o.internalSlot "parent" parent
  | .symbol, .symbol name
  | .privateSymbol, .symbol name => o.internalSlot "name" name
  | .shape, .shape prototype constructor descriptors transitions =>
    optionally transitions (fun slot =>
      o.tagSlot slot "(transition array)" ++ o.containerSlot slot .weakArray ++
        o.internalSlot "transitions" slot) ++
      optionally descriptors (o.taggedSlot "descriptors" "(map descriptors)") ++
      o.internalSlot "prototype" prototype ++ o.internalSlot "constructor" constructor
  | .sharedFunctionInfo, .sharedFunctionInfo name code script scopeInfo =>
    o.taggedSlot "code"
        (if name = "" then "(anonymous code)" else "(code for " ++ name ++ ")") code ++
      optionally scopeInfo (o.taggedSlot "scope_info" "(function scope info)") ++
      optionally script (o.internalSlot "script")
  | .script, .script _ source => o.internalSlot "source" source
  | .code, .code relocationInfo sourcePositions =>
    optionally relocationInfo (o.taggedSlot "relocation_info" "(code relocation info)") ++
      optionally sourcePositions
        (o.taggedSlot "source_position_table" "(source position table)")
  | .cell, .cell value => o.internalSlot "value" value
  | .weakCell, .cell value => o.weakSlot "value" value
  | .propertyCell, .propertyCell value dependentCode =>
    o.internalSlot "value" value ++
      optionally dependentCode fun slot =>
        o.tagSlot slot "(dependent code)" ++ o.containerSlot slot .weakArray ++
          o.internalSlot "dependent_code" slot
  | .allocationSite, .allocationSite transitionInfo nestedSite weakNext =>
    o.internalSlot "transition_info" transitionInfo ++
      optionally nestedSite (o.internalSlot "nested_site") ++
      optionally weakNext fun slot => [.silence slot]
  | .accessorPair, .accessorPair getter setter =>
    o.internalSlot "getter" getter ++ o.internalSlot "setter" setter
  | .context, .context c
  | .nativeContext, .context c =>
    c.locals.flatMap (fun l => o.contextSlot l.name l.slot) ++
      c.functionName.toList.flatMap (fun f => o.contextSlot f.name f.slot) ++
      o.internalSlot "closure" c.closure ++
      o.internalSlot "previous" c.previous ++
      optionally c.extensionSlot (o.internalSlot "extension") ++
      o.internalSlot "native_context" c.nativeContext ++
      c.fields.flatMap (fun f =>
        if f.isWeak then o.weakSlot f.name f.slot else o.internalSlot f.name f.slot) ++
      optionally c.nextContextLink fun slot => [.silence slot]
  | _, _ => []

end HeapObject

namespace Handler

/-- Nothing but the layout. -/
def layout : Handler := fun v o node => .ofList node (o.layoutEmissions v)

/-- Nothing but the detail. -/
def detail : Handler := fun v o node => .ofList node (o.detailEmissions v)

/-- The detail, then the layout. -/
def detailAndLayout : Handler := fun v o node =>
  .ofList node (o.detailEmissions v ++ o.layoutEmissions v)

/-- An array, as its owners want it to be read. -/
def array : Handler := fun _ o node =>
  .look fun sight => .ofList node (o.arrayEmissions (sight.containerKind? o.address))

end Handler

/-- A handler for each type that has one. -/
structure Handlers where
  table : List (Tag × Handler) := []

namespace Handlers

/-- No handlers: every reference is then unexplained. -/
def empty : Handlers := {}

def size (h : Handlers) : Nat := h.table.length

def isEmpty (h : Handlers) : Bool := h.table.isEmpty

def find? (h : Handlers) (tag : Tag) : Option Handler :=
  (h.table.find? fun row => row.1 = tag).map (·.2)

/-- Use a handler for a type, in place of any other. -/
def insert (h : Handlers) (tag : Tag) (handler : Handler) : Handlers :=
  ⟨h.table.filter (fun row => row.1 ≠ tag) ++ [(tag, handler)]⟩

/-- The handlers of the built-in types. -/
def builtin : Handlers where
  table :=
    [(.object, .layout), (.regexp, .layout), (.globalObject, .detailAndLayout),
      (.globalProxy, .detail), (.function, .detailAndLayout),
      (.boundFunction, .detailAndLayout), (.collection, .detailAndLayout),
      (.weakCollection, .detailAndLayout), (.promise, .detailAndLayout),
      (.arrayBuffer, .detailAndLayout), (.arrayBufferView, .detailAndLayout),
      (.consString, .detail), (.slicedString, .detail), (.symbol, .detail),
      (.privateSymbol, .detail), (.shape, .detail), (.sharedFunctionInfo, .detail),
      (.script, .detail), (.code, .detail), (.cell, .detail), (.weakCell, .detail),
      (.propertyCell, .detail), (.allocationSite, .detail), (.accessorPair, .detail),
      (.context, .detail), (.nativeContext, .detail), (.fixedArray, .array)]

end Handlers

end ManagedHeap
