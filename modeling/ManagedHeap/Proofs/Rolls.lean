import ManagedHeap.Proofs.Fingerprints
import ManagedHeap.Proofs.Legibility
import Mathlib.Data.List.Perm.Basic

/-!
# What the texts behind a fingerprint tell

The rolls of a graph, which its fingerprint is made of, keep all they are meant to keep: from the
bytes of the one the numbers, kinds and names of the nodes can be told, and from the bytes of the
other the edges between numbers, each as often as it is there. Labels are written without a mark
of whether they are names or indices. That is told from the kind of the edge, if edges are labelled
as their kinds ask for. The main statement is `Fingerprint.bytes_rolls_iff`.
-/
namespace ManagedHeap

/-! ## Keys -/

/-- Sorted lists are equal if and only if they were made of the same members. -/
theorem Sorting.mergeSort_eq_iff {α : Type} {le : α → α → Bool} (h : Sorting le)
    {as bs : List α} : as.mergeSort le = bs.mergeSort le ↔ as.Perm bs := by
  refine ⟨fun hsorted => ?_, h.mergeSort_eq⟩
  have has := List.mergeSort_perm as le
  rw [hsorted] at has
  exact has.symm.trans (List.mergeSort_perm bs le)

theorem Json.nat_injective {n m : Nat} (h : Json.nat n = Json.nat m) : n = m :=
  Int.ofNat.inj (Json.int.inj h)

theorem NodeKey.toJson_injective : Function.Injective NodeKey.toJson := by
  intro a b h
  obtain ⟨hid, hkind, hname⟩ : Json.nat a.id = .nat b.id ∧ Json.nat a.kind = .nat b.kind ∧
      Json.str a.name = .str b.name := by
    simpa [toJson] using h
  cases a
  cases b
  rw [NodeKey.mk.injEq]
  exact ⟨Json.nat_injective hid, Json.nat_injective hkind, Json.str.inj hname⟩

theorem EdgeKey.toJson_injective : Function.Injective EdgeKey.toJson := by
  intro a b h
  obtain ⟨hsource, hkind, hlabel, htarget⟩ : Json.nat a.source = .nat b.source ∧
      Json.nat a.kind = .nat b.kind ∧ Json.str a.label = .str b.label ∧
      Json.nat a.target = .nat b.target := by
    simpa [toJson] using h
  cases a
  cases b
  rw [EdgeKey.mk.injEq]
  exact ⟨Json.nat_injective hsource, Json.nat_injective hkind, Json.str.inj hlabel,
    Json.nat_injective htarget⟩

theorem NodeKind.toCode_injective {k k' : NodeKind} (h : k.toCode = k'.toCode) : k = k' := by
  have hcode := congrArg NodeKind.ofCode? h
  rw [ofCode?_toCode, ofCode?_toCode] at hcode
  exact Option.some.inj hcode

theorem EdgeKind.toCode_injective {k k' : EdgeKind} (h : k.toCode = k'.toCode) : k = k' := by
  have hcode := congrArg EdgeKind.ofCode? h
  rw [ofCode?_toCode, ofCode?_toCode] at hcode
  exact Option.some.inj hcode

/-! ## Entries -/

/-- What a roll tells of a node. -/
structure NodeEntry where
  id : ObjectId
  kind : NodeKind
  name : String
  deriving DecidableEq, Repr

def NodeEntry.key (n : NodeEntry) : NodeKey := ⟨n.id.raw, n.kind.toCode, n.name⟩

theorem NodeEntry.key_injective : Function.Injective NodeEntry.key := by
  rintro ⟨⟨id⟩, kind, name⟩ ⟨⟨id'⟩, kind', name'⟩ h
  obtain ⟨hid, hkind, hname⟩ := NodeKey.mk.inj h
  obtain rfl : kind = kind' := NodeKind.toCode_injective hkind
  rw [show id = id' from hid, show name = name' from hname]

namespace Label

/-- Among names and among indices, a label can be told from its text. -/
theorem render_injective {l l' : Label} (hindex : l.isIndex = l'.isIndex)
    (h : l.render = l'.render) : l = l' := by
  cases l <;> cases l'
  case name.name => exact congrArg name h
  case name.index | index.name => cases hindex
  case index.index n m =>
    have hdigits := congrArg String.toList (show toString n = toString m from h)
    rw [Json.toList_toString_nat, Json.toList_toString_nat] at hdigits
    exact congrArg index (Json.toDigits_injective hdigits)

end Label

namespace Arc

def key (a : Arc) : EdgeKey := ⟨a.source.raw, a.kind.toCode, a.label.render, a.target.raw⟩

/-- An index is there if and only if the kind asks for one. -/
def IsLabelled (a : Arc) : Prop := a.kind.isIndexed = a.label.isIndex

theorem key_injective {a b : Arc} (ha : a.IsLabelled) (hb : b.IsLabelled) (h : a.key = b.key) :
    a = b := by
  obtain ⟨⟨source⟩, kind, label, ⟨target⟩⟩ := a
  obtain ⟨⟨source'⟩, kind', label', ⟨target'⟩⟩ := b
  obtain ⟨hsource, hkind, hlabel, htarget⟩ := EdgeKey.mk.inj h
  obtain rfl := EdgeKind.toCode_injective hkind
  have hindex : label.isIndex = label'.isIndex := ha.symm.trans hb
  rw [show source = source' from hsource, Label.render_injective hindex hlabel,
    show target = target' from htarget]

/-- The keys of labelled edges are the same ones if and only if the edges are. -/
theorem perm_map_key_iff {as bs : List Arc} (has : ∀ a ∈ as, a.IsLabelled)
    (hbs : ∀ b ∈ bs, b.IsLabelled) : (as.map key).Perm (bs.map key) ↔ as.Perm bs := by
  refine ⟨fun h => ?_, fun h => h.map key⟩
  induction as generalizing bs with
  | nil =>
    rw [List.map_nil, List.nil_perm, List.map_eq_nil_iff] at h
    rw [h]
  | cons a as ih =>
    obtain ⟨b, hb, hkey⟩ := List.mem_map.mp (h.subset (List.mem_cons_self : a.key ∈ _))
    obtain rfl := key_injective (hbs b hb) (has a List.mem_cons_self) hkey
    have hbs' := List.perm_cons_erase hb
    refine (List.Perm.cons b (ih (fun a ha => has a (List.mem_cons_of_mem _ ha))
      (fun c hc => hbs c (List.mem_of_mem_erase hc)) ?_)).trans hbs'.symm
    exact (List.perm_cons b.key).mp (h.trans (hbs'.map key))

end Arc

/-! ## Rolls -/

namespace Graph

variable {g g' : Graph}

/-- The nodes by number, kind and name. -/
def entries (g : Graph) : List NodeEntry := g.nodes.toList.map fun n => ⟨n.id, n.kind, n.name⟩

theorem bytes_nodeRoll_iff :
    g.nodeRoll.bytes = g'.nodeRoll.bytes ↔ g.entries.Perm g'.entries := by
  have hkeys : ∀ g : Graph, g.nodeKeys = g.entries.map NodeEntry.key := fun g => by
    rw [entries, List.map_map]
    rfl
  calc g.nodeRoll.bytes = g'.nodeRoll.bytes
      ↔ g.nodeRoll = g'.nodeRoll := ⟨Json.bytes_injective, congrArg _⟩
    _ ↔ g.nodeKeys.mergeSort NodeKey.le = g'.nodeKeys.mergeSort NodeKey.le := by
      rw [nodeRoll, nodeRoll, Json.arr.injEq, (List.map_injective_iff.mpr
        NodeKey.toJson_injective).eq_iff]
    _ ↔ g.nodeKeys.Perm g'.nodeKeys := NodeKey.sorting.mergeSort_eq_iff
    _ ↔ g.entries.Perm g'.entries := by
      rw [hkeys, hkeys, List.map_perm_map_iff NodeEntry.key_injective]

theorem isLabelled_of_mem_arcs (h : ∀ e ∈ g.edges.toList, e.isLabelled = true) :
    ∀ a ∈ g.arcs, a.IsLabelled := by
  intro a ha
  obtain ⟨e, he, rfl⟩ := List.mem_map.mp ha
  exact beq_iff_eq.mp (h e he)

theorem bytes_edgeRoll_iff (h : ∀ e ∈ g.edges.toList, e.isLabelled = true)
    (h' : ∀ e ∈ g'.edges.toList, e.isLabelled = true) :
    g.edgeRoll.bytes = g'.edgeRoll.bytes ↔ g.arcs.Perm g'.arcs := by
  calc g.edgeRoll.bytes = g'.edgeRoll.bytes
      ↔ g.edgeRoll = g'.edgeRoll := ⟨Json.bytes_injective, congrArg _⟩
    _ ↔ g.edgeKeys.mergeSort EdgeKey.le = g'.edgeKeys.mergeSort EdgeKey.le := by
      rw [edgeRoll, edgeRoll, Json.arr.injEq, (List.map_injective_iff.mpr
        EdgeKey.toJson_injective).eq_iff]
    _ ↔ g.edgeKeys.Perm g'.edgeKeys := EdgeKey.sorting.mergeSort_eq_iff
    _ ↔ g.arcs.Perm g'.arcs := by
      rw [edgeKeys_eq, edgeKeys_eq]
      exact Arc.perm_map_key_iff (isLabelled_of_mem_arcs h) (isLabelled_of_mem_arcs h')

end Graph

namespace Fingerprint

variable {g g' : Graph} {f : Fingerprint} {now : Int}

theorem hashes_of_compute (h : compute g now = .ok f) :
    f.nodeHash = Digest.hex (Digest.xxh64 g.nodeRoll.bytes 0) ∧
      f.edgeHash = Digest.hex (Digest.xxh64 g.edgeRoll.bytes 0) := by
  unfold compute at h
  cases hsize : g.totalSize with
  | error fault =>
    rw [hsize] at h
    cases h
  | ok size =>
    rw [hsize] at h
    cases h
    exact ⟨rfl, rfl⟩

/-- The hashed bytes are the same if and only if the nodes are, and if and only if the edges are. So
graphs that differ share a hash by a collision only. -/
theorem bytes_rolls_iff (h : ∀ e ∈ g.edges.toList, e.isLabelled = true)
    (h' : ∀ e ∈ g'.edges.toList, e.isLabelled = true) :
    (g.nodeRoll.bytes = g'.nodeRoll.bytes ↔ g.entries.Perm g'.entries) ∧
      (g.edgeRoll.bytes = g'.edgeRoll.bytes ↔ g.arcs.Perm g'.arcs) ∧
      ∀ now later f f', compute g now = .ok f → compute g' later = .ok f' →
        f.nodeHash = Digest.hex (Digest.xxh64 g.nodeRoll.bytes 0) ∧
        f.edgeHash = Digest.hex (Digest.xxh64 g.edgeRoll.bytes 0) ∧
        (f.nodeHash = f'.nodeHash ↔
          g.entries.Perm g'.entries ∨ Digest.Collides g.nodeRoll.bytes g'.nodeRoll.bytes) ∧
        (f.edgeHash = f'.edgeHash ↔
          g.arcs.Perm g'.arcs ∨ Digest.Collides g.edgeRoll.bytes g'.edgeRoll.bytes) := by
  refine ⟨Graph.bytes_nodeRoll_iff, Graph.bytes_edgeRoll_iff h h', ?_⟩
  intro now later f f' hf hf'
  obtain ⟨hnode, hedge⟩ := hashes_of_compute hf
  obtain ⟨hnode', hedge'⟩ := hashes_of_compute hf'
  refine ⟨hnode, hedge, ?_, ?_⟩
  · rw [hnode, hnode', Digest.hex_xxh64_eq_iff, Graph.bytes_nodeRoll_iff]
  · rw [hedge, hedge', Digest.hex_xxh64_eq_iff, Graph.bytes_edgeRoll_iff h h']

/-- Two nodes and one reference between them. -/
def pairOf (kind : EdgeKind) (label : Label) : Graph :=
  ((Graph.empty.pushNode ⟨.synthetic, "", ⟨1⟩, 0, 0, 0, 0⟩).pushNode
    ⟨.object, "\"3\\", ⟨7⟩, 16, 0, 0, 0⟩).pushEdge ⟨kind, label, 0, 1⟩

theorem exists_compute_pairOf (kind : EdgeKind) (label : Label) (now : Int) :
    ∃ f, compute (pairOf kind label) now = .ok f := by
  have hsize : (pairOf kind label).totalSize = .ok 16 := rfl
  unfold compute
  rw [hsize]
  exact ⟨_, rfl⟩

/-- An element 3 and a property of the name 3 are told apart. -/
theorem bytes_rolls_element_property :
    (∀ e ∈ (pairOf .element (.index 3)).edges.toList, e.isLabelled = true) ∧
      (∀ e ∈ (pairOf .property (.name "3")).edges.toList, e.isLabelled = true) ∧
      (pairOf .element (.index 3)).edgeRoll.bytes ≠
        (pairOf .property (.name "3")).edgeRoll.bytes ∧
      ∃ f f', compute (pairOf .element (.index 3)) 5 = .ok f ∧
        compute (pairOf .property (.name "3")) 8 = .ok f' ∧ f.nodeHash = f'.nodeHash := by
  have helement : ∀ e ∈ (pairOf .element (.index 3)).edges.toList, e.isLabelled = true := by decide
  have hproperty : ∀ e ∈ (pairOf .property (.name "3")).edges.toList, e.isLabelled = true := by
    decide
  obtain ⟨-, hedges, hhashes⟩ := bytes_rolls_iff helement hproperty
  obtain ⟨f, hf⟩ := exists_compute_pairOf .element (.index 3) 5
  obtain ⟨f', hf'⟩ := exists_compute_pairOf .property (.name "3") 8
  obtain ⟨-, -, hnodes, -⟩ := hhashes 5 8 f f' hf hf'
  refine ⟨helement, hproperty, fun hbytes => ?_, f, f', hf, hf', hnodes.mpr (.inl ?_)⟩
  · exact absurd (hedges.mp hbytes) (by decide +kernel)
  · decide +kernel

-- Without the right labels they would not be.
example : (pairOf .property (.index 3)).edgeKeys = (pairOf .property (.name "3")).edgeKeys := by
  decide +kernel

end Fingerprint
end ManagedHeap
