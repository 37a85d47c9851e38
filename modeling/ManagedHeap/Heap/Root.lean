import ManagedHeap.Identity
/-!
References that keep objects alive from outside the heap, and the categories they come in. Each
category has a synthetic node of its own, with a fixed number and position.
-/
namespace ManagedHeap

/-- Where a root reference comes from. -/
inductive RootCategory where
  | strongRoots | internalizedStrings | externalStrings | bootstrapper | isolate | relocatable
  | debugger | compilationCache | handleScope | builtins | globalHandles | eternalHandles
  | threadManager | extensions | weakCollections | unknown
  deriving DecidableEq, Repr, Inhabited

namespace RootCategory

/-- Every category, at the position of its ordinal. -/
def all : List RootCategory :=
  [.strongRoots, .internalizedStrings, .externalStrings, .bootstrapper, .isolate, .relocatable,
    .debugger, .compilationCache, .handleScope, .builtins, .globalHandles, .eternalHandles,
    .threadManager, .extensions, .weakCollections, .unknown]

def ordinal : RootCategory → Nat
  | .strongRoots => 0 | .internalizedStrings => 1 | .externalStrings => 2 | .bootstrapper => 3
  | .isolate => 4 | .relocatable => 5 | .debugger => 6 | .compilationCache => 7
  | .handleScope => 8 | .builtins => 9 | .globalHandles => 10 | .eternalHandles => 11
  | .threadManager => 12 | .extensions => 13 | .weakCollections => 14 | .unknown => 15

/-- Name of the category's node. -/
def label : RootCategory → String
  | .strongRoots => "(Strong roots)"
  | .internalizedStrings => "(Internalized strings)"
  | .externalStrings => "(External strings)"
  | .bootstrapper => "(Bootstrapper)"
  | .isolate => "(Isolate)"
  | .relocatable => "(Relocatable)"
  | .debugger => "(Debugger)"
  | .compilationCache => "(Compilation cache)"
  | .handleScope => "(Handle scope)"
  | .builtins => "(Builtins)"
  | .globalHandles => "(Global handles)"
  | .eternalHandles => "(Eternal handles)"
  | .threadManager => "(Thread manager)"
  | .extensions => "(Extensions)"
  | .weakCollections => "(Weak collections)"
  | .unknown => "(Unknown)"

/-- Number of the category's node. -/
def id (c : RootCategory) : ObjectId :=
  ⟨ObjectId.firstCategory.raw + ObjectId.step * c.ordinal⟩

end RootCategory

/-- The first number handed out to a heap object, behind those of the synthetic nodes. -/
def ObjectId.firstAvailable : ObjectId :=
  ⟨ObjectId.firstCategory.raw + ObjectId.step * RootCategory.all.length⟩

/-- One reference from outside the heap. -/
structure Root where
  category : RootCategory
  target : Address
  /-- A well-known name of the reference; for builtin code, the builtin's name. -/
  name : Option String := none
  deriving DecidableEq, Repr, Inhabited

end ManagedHeap
