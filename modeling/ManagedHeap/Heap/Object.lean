import ManagedHeap.Identity
/-!
Heap objects as the runtime reports them: a type tag, reference slots in layout order, and as
much structure on top of the slots as the runtime cares to describe. Slots are referred to by
their position.
-/
namespace ManagedHeap

/-- Content of a slot. -/
inductive Value where
  /-- A reference to a heap object. -/
  | ref (target : Address)
  /-- A small number stored in place; no object. -/
  | small (n : Int)
  deriving DecidableEq, Repr, Inhabited

def Value.target? : Value → Option Address
  | .ref a => some a
  | .small _ => none

/-- The runtime's type of an object. -/
inductive Tag where
  | object | globalObject | globalProxy | function | boundFunction | regexp | collection
  | weakCollection | promise | arrayBuffer | arrayBufferView | string | consString | slicedString
  | symbol | privateSymbol | code | sharedFunctionInfo | script | context | nativeContext
  | fixedArray | byteArray | heapNumber | shape | cell | weakCell | propertyCell
  | allocationSite | accessorPair | oddball | foreign
  /-- A type of the embedder's own. -/
  | custom (name : String)
  deriving DecidableEq, Repr, Inhabited

namespace Tag

/-- Whether what the slots mean depends on who owns the object. -/
def isContainer : Tag → Bool
  | .fixedArray | .context | .nativeContext => true
  | _ => false

/-- The name of a type that has no node kind of its own. -/
def systemLabel : Tag → String
  | .shape => "system / Map"
  | .cell => "system / Cell"
  | .weakCell => "system / WeakCell"
  | .propertyCell => "system / PropertyCell"
  | .allocationSite => "system / AllocationSite"
  | .accessorPair => "system / AccessorPair"
  | .oddball => "system / Oddball"
  | .foreign => "system / Foreign"
  | .custom name => "system / " ++ name
  | _ => "system"

end Tag

/-- Key of a property. The empty name marks a key of the runtime's own. -/
inductive PropertyKey where
  | name (text : String)
  | symbol (description : String)
  deriving DecidableEq, Repr, Inhabited

def PropertyKey.label : PropertyKey → String
  | .name text => text
  | .symbol description => description

/-- A property. An accessor's value is the pair of its getter and setter. -/
structure Property where
  key : PropertyKey
  value : Value
  /-- Where the value is stored, if inside the object. -/
  slot : Option Nat := none
  isAccessor : Bool := false
  deriving DecidableEq, Repr, Inhabited

/-- An element at an index. -/
structure Element where
  index : Nat
  value : Value
  slot : Option Nat := none
  deriving DecidableEq, Repr, Inhabited

/-- The part that objects with properties share. -/
structure Layout where
  constructorName : String := ""
  properties : List Property := []
  elements : List Element := []
  /-- Slots for the embedder's data. -/
  embedderFields : List Nat := []
  prototype : Option Value := none
  /-- Slot of the store for properties kept outside the object. -/
  propertiesSlot : Option Nat := none
  /-- Slot of the store for elements. -/
  elementsSlot : Option Nat := none
  deriving DecidableEq, Repr, Inhabited

/-- A name and the slot it belongs to. -/
structure NamedSlot where
  name : String
  slot : Nat
  deriving DecidableEq, Repr, Inhabited

/-- A named field of a realm's outermost context. -/
structure ContextField where
  name : String
  slot : Nat
  isWeak : Bool := false
  deriving DecidableEq, Repr, Inhabited

/-- Memory outside the heap that an array buffer owns. -/
structure BackingStore where
  address : Address
  byteLength : Nat
  deriving DecidableEq, Repr, Inhabited

/-- Scopes: variables, the slots every scope has, and the fields of a realm's outermost one. -/
structure ContextDetail where
  closure : Nat
  previous : Nat
  extensionSlot : Option Nat := none
  nativeContext : Nat
  locals : List NamedSlot := []
  functionName : Option NamedSlot := none
  fields : List ContextField := []
  nextContextLink : Option Nat := none
  globalObject : Option Address := none
  deriving DecidableEq, Repr, Inhabited

/-- What is known of an object's slots beyond their content. -/
inductive Detail where
  | none
  | globalObject (nativeContext globalProxy : Nat)
  | globalProxy (nativeContext : Nat)
  | function (name : String) (shared context code : Nat) (feedbackCell prototype : Option Nat)
  | boundFunction (target boundThis boundArguments : Nat)
  | regexp (pattern : String)
  | collection (table : Nat)
  | weakCollection (table : Nat)
  | promise (result reactions : Nat)
  | arrayBuffer (store : Option BackingStore)
  | arrayBufferView (buffer : Nat)
  | string (content : String)
  | consString (first second : Nat)
  | slicedString (parent : Nat)
  | symbol (name : Nat)
  | code (relocationInfo sourcePositions : Option Nat)
  | sharedFunctionInfo (name : String) (code : Nat) (script scopeInfo : Option Nat)
  | script (name : Option String) (source : Nat)
  | context (c : ContextDetail)
  | shape (prototype constructor : Nat) (descriptors transitions : Option Nat)
  | cell (value : Nat)
  | propertyCell (value : Nat) (dependentCode : Option Nat)
  | allocationSite (transitionInfo : Nat) (nestedSite weakNext : Option Nat)
  | accessorPair (getter setter : Nat)
  /-- Entries of a table as pairs of a key's and a value's slot. -/
  | hashTable (entries : List (Nat × Nat))
  deriving DecidableEq, Repr, Inhabited

/-- A live object. -/
structure HeapObject where
  address : Address
  size : Nat
  tag : Tag
  shape : Option Address := none
  slots : List Value := []
  layout : Option Layout := none
  detail : Detail := .none
  deriving DecidableEq, Repr, Inhabited

namespace HeapObject

def slot? (o : HeapObject) (index : Nat) : Option Value := o.slots[index]?

/-- The memory outside the heap that the object owns. -/
def backingStore? (o : HeapObject) : Option BackingStore :=
  match o.detail with
  | .arrayBuffer store => store
  | _ => none

/-- The global object that a context names. -/
def globalObject? (o : HeapObject) : Option Address :=
  match o.detail with
  | .context c => c.globalObject
  | _ => none

end HeapObject

end ManagedHeap
