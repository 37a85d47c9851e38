import ManagedHeap.Capture.Survey
import ManagedHeap.Heap.Basic
/-!
Edges from the synthetic nodes: the root leads to the collector's roots, these to one node for
each category, and each category to what its references keep alive. The heap reports its strong
references and all of them; what only the second list has is weak.
-/
namespace ManagedHeap

/-- Names global objects, for instance by the address of the page they belong to. -/
abbrev Resolver := Address → Option String

/-- The tags of the global objects that root references lead to. -/
def View.globalTags (v : View) (resolver : Resolver) : Std.TreeMap Address String :=
  v.allRoots.foldl (fun tags root =>
    match v.globalOf? root.target with
    | none => tags
    | some global =>
      if tags.contains global then tags
      else match resolver global with
        | some tag => tags.insert global tag
        | none => tags) {}

/-- Tells the weak references in a list from the strong ones, which are a part of it in the same
order. -/
def classifyRoots : List Root → List Root → List RootRef
  | [], _ => []
  | r :: rs, [] => ⟨r, true⟩ :: classifyRoots rs []
  | r :: rs, s :: ss =>
    if s = r then ⟨r, false⟩ :: classifyRoots rs ss
    else ⟨r, true⟩ :: classifyRoots rs (s :: ss)

namespace Draft

/-- The edges between the synthetic nodes. -/
def linkSynthetic (d : Draft) : Draft :=
  RootCategory.all.foldl
    (fun d c => d.linkNextIndexed .element Graph.collectorIndex (Graph.categoryIndex c))
    (d.linkNextIndexed .element Graph.rootIndex Graph.collectorIndex)

/-- The edge of a root reference. The name of a builtin names its code, not the edge. -/
def linkRoot (d : Draft) (r : RootRef) (child : NodeIndex) : Draft :=
  let parent := Graph.categoryIndex r.root.category
  if r.isWeak then d.linkNextNamed .weak parent child
  else if r.root.category = .builtins then d.linkNextIndexed .element parent child
  else match r.root.name with
    | some name => d.linkNamed .internal parent name child
    | none => d.linkNextIndexed .element parent child

/-- Name the code of a builtin after it. -/
def nameBuiltin (d : Draft) (root : Root) (child : NodeIndex) : Draft :=
  match root.name with
  | some name =>
    if root.category = .builtins then d.nameIfEmpty child ("(" ++ name ++ " builtin)") else d
  | none => d

end Draft

namespace Survey

/-- Lead from the root to a realm's global object, once. -/
def linkGlobal (sc : Scope) (s : Survey) (global : Address) : Survey :=
  if s.globals.contains global then s
  else
    match { s with globals := global :: s.globals }.object? sc global with
    | (some child, s) =>
      { s with draft := s.draft.linkNextNamed .shortcut Graph.rootIndex child }
    | (none, s) => s

/-- The edges of one root reference. -/
def addRoot (sc : Scope) (s : Survey) (r : RootRef) : Survey :=
  match s.object? sc r.root.target with
  | (none, s) => s
  | (some child, s) =>
    let s := { s with draft := (s.draft.nameBuiltin r.root child).linkRoot r child }
    if r.isWeak then s
    else match sc.view.globalOf? r.root.target with
      | some global => s.linkGlobal sc global
      | none => s

/-- The edges of all root references. -/
def addRoots (sc : Scope) (s : Survey) : Survey :=
  (classifyRoots sc.view.allRoots sc.view.strongRoots).foldl (addRoot sc)
    { s with draft := s.draft.linkSynthetic }

end Survey

end ManagedHeap
