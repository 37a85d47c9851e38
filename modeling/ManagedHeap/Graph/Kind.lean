/-!
Kinds of nodes and edges, and the code and label under which each is written.
-/
namespace ManagedHeap

/-- What a node stands for. -/
inductive NodeKind where
  | hidden | array | string | object | code | closure | regexp | number | native | synthetic
  | concatenatedString | slicedString | symbol
  deriving DecidableEq, Repr, Inhabited

namespace NodeKind

/-- Every kind, at the position of its code. -/
def all : List NodeKind :=
  [.hidden, .array, .string, .object, .code, .closure, .regexp, .number, .native, .synthetic,
    .concatenatedString, .slicedString, .symbol]

def toCode : NodeKind → Nat
  | .hidden => 0 | .array => 1 | .string => 2 | .object => 3 | .code => 4 | .closure => 5
  | .regexp => 6 | .number => 7 | .native => 8 | .synthetic => 9 | .concatenatedString => 10
  | .slicedString => 11 | .symbol => 12

def ofCode? (n : Nat) : Option NodeKind := all[n]?

@[simp] theorem ofCode?_toCode (k : NodeKind) : ofCode? k.toCode = some k := by cases k <;> rfl

def label : NodeKind → String
  | .hidden => "hidden" | .array => "array" | .string => "string" | .object => "object"
  | .code => "code" | .closure => "closure" | .regexp => "regexp" | .number => "number"
  | .native => "native" | .synthetic => "synthetic"
  | .concatenatedString => "concatenated string" | .slicedString => "sliced string"
  | .symbol => "symbol"

end NodeKind

/-- How a node refers to another. -/
inductive EdgeKind where
  /-- A variable that a scope captured. -/
  | context
  /-- An element at an index. -/
  | element
  /-- A property that a program can see. -/
  | property
  /-- A field of the runtime's own. -/
  | internal
  /-- A slot that nothing else explains. -/
  | hidden
  /-- A link for the reader's convenience. -/
  | shortcut
  /-- A reference that keeps nothing alive. -/
  | weak
  deriving DecidableEq, Repr, Inhabited

namespace EdgeKind

/-- Every kind, at the position of its code. -/
def all : List EdgeKind :=
  [.context, .element, .property, .internal, .hidden, .shortcut, .weak]

def toCode : EdgeKind → Nat
  | .context => 0 | .element => 1 | .property => 2 | .internal => 3 | .hidden => 4
  | .shortcut => 5 | .weak => 6

def ofCode? (n : Nat) : Option EdgeKind := all[n]?

@[simp] theorem ofCode?_toCode (k : EdgeKind) : ofCode? k.toCode = some k := by cases k <;> rfl

def label : EdgeKind → String
  | .context => "context" | .element => "element" | .property => "property"
  | .internal => "internal" | .hidden => "hidden" | .shortcut => "shortcut" | .weak => "weak"

/-- Whether edges of this kind carry a number in place of a name. -/
def isIndexed : EdgeKind → Bool
  | .element | .hidden => true
  | _ => false

end EdgeKind

end ManagedHeap
