import ManagedHeap.Proofs.Building
import ManagedHeap.Proofs.Explained
import ManagedHeap.Proofs.Tracking

/-!
# Nodes and their numbers

Behind the synthetic nodes every node of a draft stands for a thing, and bears the number that the
ledger has for it, `Numbered`. The things are live objects, memory that such objects own, and native
objects and their groups, `Owned`.
-/
namespace ManagedHeap

/-! ## The numbers of a graph -/

namespace Graph

/-- The numbers of the nodes. -/
def ids (g : Graph) : Array ObjectId := g.nodes.map (·.id)

theorem size_ids (g : Graph) : g.ids.size = g.nodeCount := Array.size_map

@[simp] theorem ids_pushNode (g : Graph) (n : Node) : (g.pushNode n).ids = g.ids.push n.id :=
  Array.map_push

theorem ids_modify (nodes : Array Node) (i : NodeIndex) (k : Node → Node)
    (hk : ∀ n, (k n).id = n.id) : (nodes.modify i k).map (·.id) = nodes.map (·.id) := by
  refine Array.ext_getElem? fun j => ?_
  simp only [Array.getElem?_map, Array.getElem?_modify]
  split
  · rw [Option.map_map]
    exact congrArg (Option.map · _) (funext hk)
  · rfl

@[simp] theorem ids_pushEdge (g : Graph) (e : Edge) : (g.pushEdge e).ids = g.ids :=
  ids_modify g.nodes e.source (fun n => { n with childCount := n.childCount + 1 }) fun _ => rfl

@[simp] theorem ids_nameIfEmpty (g : Graph) (i : NodeIndex) (name : String) :
    (g.nameIfEmpty i name).ids = g.ids := by
  unfold nameIfEmpty
  split
  · split
    · exact ids_modify g.nodes i (fun n => { n with name := name }) fun _ => rfl
    · rfl
  · rfl

@[simp] theorem ids_group (g : Graph) : g.group.ids = g.ids := by
  apply Array.toList_inj.mp
  rw [ids, ids, Array.toList_map, Array.toList_map]
  exact map_nodes_group g fun _ _ => rfl

end Graph

/-! ## Things and their nodes -/

/-- The number of a thing, from the ledger unless it is native. -/
def Ledger.idOf? (l : Ledger) (t : Thing) : Option ObjectId :=
  match t.address? with
  | some a => l.find? a
  | none => t.nativeId?

theorem Ledger.Extends.idOf? {l l' : Ledger} (h : Extends l l') {t : Thing} {id : ObjectId}
    (ht : l.idOf? t = some id) : l'.idOf? t = some id := by
  unfold Ledger.idOf? at ht ⊢
  split at ht
  · exact h.find? _ id ht
  · exact ht

namespace Draft

variable {sc : Scope} {S : BackingStore → Prop} {d d' : Draft}

/-- Every node is synthetic or stands for a thing, and bears its number. -/
structure Numbered (d : Draft) : Prop where
  synthetic : ∀ i < Graph.withRoots.nodeCount, d.graph.ids[i]? = Graph.withRoots.ids[i]?
  id : ∀ t i, d.entries.find? t = some i →
    ∃ id, d.graph.ids[i]? = some id ∧ d.ledger.idOf? t = some id
  covered : ∀ i, Graph.withRoots.nodeCount ≤ i → i < d.graph.nodeCount →
    ∃ t, d.entries.find? t = some i

theorem numbered_blank (l : Ledger) : Numbered { ledger := l } where
  synthetic _ _ := rfl
  id t i ht := by rw [Entries.find?_empty] at ht; cases ht
  covered i hle hlt := absurd hlt (Nat.not_lt.mpr hle)

theorem numbered_addNode (hd : d.Numbered) {t : Thing} (hnew : d.entries.find? t = none)
    {l : Ledger} (hl : Ledger.Extends d.ledger l) {n : Node} (hid : l.idOf? t = some n.id) :
    ({ d with ledger := l }.addNode t n).2.Numbered := by
  have hfind : ∀ u, ({ d with ledger := l }.addNode t n).2.entries.find? u =
      if t = u then some d.graph.nodeCount else d.entries.find? u :=
    fun u => Entries.find?_insert d.entries t u d.graph.nodeCount
  have hids : ∀ i, ({ d with ledger := l }.addNode t n).2.graph.ids[i]? =
      if i = d.graph.nodeCount then some n.id else d.graph.ids[i]? := by
    intro i
    rw [← Graph.size_ids, ← Array.getElem?_push]
    exact congrArg (·[i]?) (Graph.ids_pushNode d.graph n)
  have hlt : ∀ {i : NodeIndex} {id : ObjectId}, d.graph.ids[i]? = some id →
      i ≠ d.graph.nodeCount := by
    intro i id hi
    rw [← Graph.size_ids]
    exact Nat.ne_of_lt (Array.getElem?_eq_some_iff.mp hi).1
  constructor
  · intro i hi
    obtain ⟨id, hroot⟩ : ∃ id, Graph.withRoots.ids[i]? = some id :=
      ⟨_, Array.getElem?_eq_getElem (by rwa [Graph.size_ids])⟩
    rw [hids, if_neg (hlt ((hd.synthetic i hi).trans hroot))]
    exact hd.synthetic i hi
  · intro u i hu
    rw [hfind] at hu
    split at hu
    · next htu =>
      subst htu
      cases hu
      exact ⟨n.id, by rw [hids, if_pos rfl], hid⟩
    · obtain ⟨id, hi, hidu⟩ := hd.id u i hu
      exact ⟨id, by rw [hids, if_neg (hlt hi)]; exact hi, hl.idOf? hidu⟩
  · intro i hle hi
    have hcount : ({ d with ledger := l }.addNode t n).2.graph.nodeCount = d.graph.nodeCount + 1 :=
      Graph.nodeCount_pushNode d.graph n
    rw [hcount] at hi
    by_cases hlast : i = d.graph.nodeCount
    · exact ⟨t, by rw [hfind, if_pos rfl, hlast]⟩
    · obtain ⟨u, hu⟩ := hd.covered i hle (Nat.lt_of_le_of_ne (Nat.le_of_lt_succ hi) hlast)
      have hne : t ≠ u := by rintro rfl; rw [hnew] at hu; cases hu
      exact ⟨u, by rw [hfind, if_neg hne]; exact hu⟩

theorem numbered_graph (hd : d.Numbered) {g : Graph} (hids : g.ids = d.graph.ids) :
    Numbered { d with graph := g } where
  synthetic i hi := by
    show g.ids[i]? = _
    rw [hids]
    exact hd.synthetic i hi
  id t i ht := by
    show ∃ id, g.ids[i]? = some id ∧ _
    rw [hids]
    exact hd.id t i ht
  covered i hle hi := by
    have hcount : g.nodeCount = d.graph.nodeCount := by
      rw [← Graph.size_ids, ← Graph.size_ids, hids]
    exact hd.covered i hle (hcount ▸ hi)

theorem Step.numbered (h : Step sc S d d') (hl : d.ledger.Sound) (hd : d.Numbered) :
    d'.Numbered := by
  have htracked : ∀ (a : Address) (size : Nat),
      (d.ledger.track a size).2.find? a = some (d.ledger.track a size).1 := by
    intro a size
    rw [Ledger.track, Ledger.find?_record hl, if_pos rfl]
  cases h with
  | @object a _ hnew =>
    rw [addObject_eq]
    refine numbered_addNode hd hnew (Ledger.extends_track hl a (sc.sizeOf a)) ?_
    have hid : (sc.objectNode a (d.ledger.track a (sc.sizeOf a)).1).id =
        (d.ledger.track a (sc.sizeOf a)).1 := by
      unfold Scope.objectNode
      split <;> rfl
    rw [hid]
    exact htracked a (sc.sizeOf a)
  | @store store _ hnew =>
    exact numbered_addNode hd hnew (Ledger.extends_track hl store.address _)
      (htracked store.address _)
  | @native t n ht hnew =>
    refine numbered_addNode hd hnew (.refl hl) ?_
    cases t with
    | native | nativeGroup => exact ht
    | object | backingStore => cases ht
  | edge => exact numbered_graph hd (Graph.ids_pushEdge ..)
  | intern => exact numbered_graph hd rfl
  | name => exact numbered_graph hd (Graph.ids_nameIfEmpty ..)

theorem Grows.numbered (h : Grows sc S d d') (hl : d.ledger.Sound) (hd : d.Numbered) :
    d'.Numbered := by
  induction h with
  | refl => exact hd
  | tail hbefore hlast ih => exact hlast.numbered (Grows.extends hbefore hl).sound ih

end Draft

/-! ## Whose the things are -/

/-- A live object, memory that satisfies `S`, or something native. -/
def Thing.Owned (v : View) (S : BackingStore → Prop) : Thing → Prop
  | .object a => v.isLive a = true
  | .backingStore a => ∃ store, S store ∧ store.address = a
  | .native _ | .nativeGroup _ => True

namespace Draft

variable {sc : Scope} {S : BackingStore → Prop} {d d' : Draft}

/-- Only things of the heap have nodes. -/
def Owned (sc : Scope) (S : BackingStore → Prop) (d : Draft) : Prop :=
  ∀ t i, d.entries.find? t = some i → t.Owned sc.view S

theorem owned_blank (l : Ledger) : Owned sc S { ledger := l } := by
  intro t i ht
  rw [Entries.find?_empty] at ht
  cases ht

theorem Step.owned (h : Step sc S d d') (hd : d.Owned sc S) : d'.Owned sc S := by
  have hinsert : ∀ {t : Thing} {i : NodeIndex}, t.Owned sc.view S → ∀ u j,
      (d.entries.insert t i).find? u = some j → u.Owned sc.view S := by
    intro t i ht u j hu
    rw [Entries.find?_insert] at hu
    split at hu
    · next htu => exact htu ▸ ht
    · exact hd u j hu
  cases h with
  | @object a hlive _ =>
    rw [addObject_eq]
    exact hinsert hlive
  | @store store hstore _ => exact hinsert ⟨store, hstore, rfl⟩
  | @native t n ht _ =>
    cases t with
    | native | nativeGroup => exact hinsert trivial
    | object | backingStore => cases ht
  | edge | intern | name => exact hd

theorem Grows.owned (h : Grows sc S d d') (hd : d.Owned sc S) : d'.Owned sc S :=
  h.invariant (fun _ _ hstep => hstep.owned) hd

end Draft

theorem Script.owns_ofList {S : BackingStore → Prop} {es : List Emission}
    (h : ∀ e ∈ es, ∀ store ∈ e.store?, S store) (node : NodeIndex) :
    (Script.ofList node es).Owns S := by
  induction es with
  | nil => trivial
  | cons e es ih => exact ⟨h e List.mem_cons_self, ih fun x hx => h x (List.mem_cons_of_mem e hx)⟩

/-- The built-in handlers speak of no memory outside the heap but what the object owns. -/
theorem Handlers.owns_builtin {S : BackingStore → Prop} (v : View) {o : HeapObject}
    (hS : ∀ store, o.backingStore? = some store → S store) : Handlers.builtin.Owns v o S := by
  have howns : ∀ {es : List Emission}, Emission.AllSayable o es →
      ∀ node, (Script.ofList node es).Owns S := by
    intro es hes
    refine Script.owns_ofList fun e he store hstore => hS store ?_
    cases hes e he with
    | backingStore howned => cases hstore; exact howned
    | _ => cases hstore
  have hdetail := Emission.allSayable_detailEmissions (o := o) v
  have hlayout := Emission.allSayable_layoutEmissions (o := o) v
  intro handler hfind
  rw [find?_builtin] at hfind
  split at hfind
  · cases hfind
    exact fun node sight => howns (Emission.allSayable_arrayEmissions _) node
  · split at hfind <;> cases hfind
    · exact howns (Emission.allSayable_append.mpr ⟨hdetail, hlayout⟩)
    · exact howns hdetail
    · exact howns hlayout

/-! ## Captures -/

namespace Capture

variable {c : Capture}

theorem numbered_drawn (hsound : c.ledger.Sound) (v : View) : (c.drawn v).draft.Numbered :=
  (grows_all fun o _ => c.handlers.owns_any v o).numbered hsound (Draft.numbered_blank _)

theorem owned_drawn (hhandlers : c.handlers = .builtin) (v : View) :
    (c.drawn v).draft.Owned (c.scope v) fun store =>
      ∃ o ∈ v.live, o.backingStore? = some store := by
  refine (grows_all fun o ho => ?_).owned (Draft.owned_blank _)
  rw [hhandlers]
  exact Handlers.owns_builtin v fun store hstore => ⟨o, ho, hstore⟩

end Capture

end ManagedHeap
