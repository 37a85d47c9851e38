import ManagedHeap.Capture.Survey
/-!
Nodes and edges of native objects. Each is listed under the node of its group and linked both
ways with the heap objects that wrap it.
-/
namespace ManagedHeap

namespace Draft

/-- The node of a group, and whether it is new. -/
def nativeGroup (d : Draft) (label : String) : NodeIndex × Bool × Draft :=
  match d.entries.find? (.nativeGroup label) with
  | some index => (index, false, d)
  | none =>
    let (index, d) := d.addNode (.nativeGroup label)
      { kind := .synthetic, name := label, id := Companion.groupId label, selfSize := 0 }
    (index, true, d)

/-- The node of a native object. Objects with the same number share one. -/
def companion (d : Draft) (c : Companion) : NodeIndex × Draft :=
  d.ensure (.native c.id) fun d =>
    d.addNode (.native c.id)
      { kind := .native, name := c.name, id := c.id, selfSize := c.size.getD 0 }

/-- Link a native object with a heap object that wraps it, if that one has a node. -/
def linkWrapper (index : NodeIndex) (d : Draft) (wrapper : Address) : Draft :=
  match d.entries.find? (.object wrapper) with
  | some w => (d.linkNamed .internal w "native" index).linkNextIndexed .element index w
  | none => d

/-- Add a native object. Gives the node of its group if that is new. -/
def addCompanion (d : Draft) (c : Companion) : Option NodeIndex × Draft :=
  let (group, isNew, d) := d.nativeGroup c.group
  let (index, d) := d.companion c
  let d := c.wrappers.foldl (linkWrapper index) (d.linkNextNamed .internal group index)
  (if isNew then some group else none, d)

/-- Lead from the root to the groups. -/
def linkGroups (d : Draft) (groups : List NodeIndex) : Draft :=
  groups.foldl (fun d group => d.linkNextIndexed .element Graph.rootIndex group) d

end Draft

end ManagedHeap
