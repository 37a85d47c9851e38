import Mathlib.Data.List.Nodup
import ManagedHeap.Proofs.Building
import ManagedHeap.Proofs.Strokes

/-!
# What strokes depict

The graph that a list of strokes draws on a blank draft can be read off the list. Behind the
synthetic nodes stand the things of `Stroke.roll`, each once and in the order of their first
strokes; a thing looks as its first stroke says, under the first name that it gets; and the edges
are `Stroke.links` between the nodes of their places. Such a draft `Depicts` its strokes. One stroke
keeps a draft so, `Draft.Depicts.draw`, as long as it is about things that have nodes. The nodes of
the graph are then just those of the known places, `Draft.Depicts.exists_place`.
-/
namespace ManagedHeap

/-- What a node shows of its thing. -/
structure Look where
  kind : NodeKind
  name : String
  size : Nat
  deriving DecidableEq, Repr, Inhabited

def Node.look (n : Node) : Look := ⟨n.kind, n.name, n.selfSize⟩

/-- Number and look of a node. -/
def Node.face (n : Node) : ObjectId × Look := (n.id, n.look)

/-- A name for what has none. -/
def Look.named (l : Look) (text : String) : Look :=
  if l.name = "" then { l with name := text } else l

/-- Of many names the first that says something counts. -/
theorem Look.foldl_named (texts : List String) (l : Look) :
    texts.foldl named l =
      if l.name = "" then { l with name := (texts.find? (· ≠ "")).getD "" } else l := by
  induction texts generalizing l with
  | nil =>
    split
    · next hempty => rw [List.foldl_nil, List.find?_nil, Option.getD_none, ← hempty]
    · rfl
  | cons text texts ih =>
    rw [List.foldl_cons, ih, named]
    by_cases hempty : l.name = ""
    · by_cases htext : text = ""
      · simp [hempty, htext]
      · simp [hempty, htext]
    · simp [hempty]

/-- An edge between places. -/
structure Link where
  kind : EdgeKind
  label : Label
  source : Place
  target : Place
  deriving DecidableEq, Repr

def Link.toEdge (indexOf : Place → NodeIndex) (l : Link) : Edge :=
  ⟨l.kind, l.label, indexOf l.source, indexOf l.target⟩

namespace Stroke

variable {sc : Scope} {x : Stroke} {strokes strokes' : List Stroke} {t : Thing}

/-! ## Things -/

/-- What the stroke gives a node. -/
def thing? : Stroke → Option Thing
  | .object a => some (.object a)
  | .store memory => some (.backingStore memory.address)
  | .native t _ => some t
  | .edge _ _ _ _ | .next _ _ _ | .name _ _ => none

/-- Enter what a stroke gives a node, unless it has one. -/
def enroll (ts : List Thing) (x : Stroke) : List Thing :=
  match x.thing? with
  | some t => if t ∈ ts then ts else ts ++ [t]
  | none => ts

/-- The things that have nodes, in the order in which they got them. -/
def roll (strokes : List Stroke) : List Thing := strokes.foldl enroll []

theorem roll_snoc (strokes : List Stroke) (x : Stroke) :
    roll (strokes ++ [x]) = enroll (roll strokes) x :=
  List.foldl_append

theorem mem_enroll {ts : List Thing} : t ∈ enroll ts x ↔ t ∈ ts ∨ x.thing? = some t := by
  unfold enroll
  split
  · next u hu =>
    rw [hu, Option.some.injEq]
    split
    · next hmem => exact ⟨.inl, fun h => h.elim id fun heq => heq ▸ hmem⟩
    · rw [List.mem_append, List.mem_singleton, eq_comm (a := t)]
  · next hnone => simp [hnone]

theorem mem_foldl_enroll {ts : List Thing} :
    t ∈ strokes.foldl enroll ts ↔ t ∈ ts ∨ ∃ x ∈ strokes, x.thing? = some t := by
  induction strokes generalizing ts with
  | nil => simp
  | cons x strokes ih => rw [List.foldl_cons, ih, mem_enroll]; simp [or_assoc]

/-- What has a node got it from a stroke. -/
theorem mem_roll : t ∈ roll strokes ↔ ∃ x ∈ strokes, x.thing? = some t := by
  rw [roll, mem_foldl_enroll]
  simp

theorem nodup_roll (strokes : List Stroke) : (roll strokes).Nodup := by
  have hfold : ∀ (xs : List Stroke) (ts : List Thing), ts.Nodup → (xs.foldl enroll ts).Nodup := by
    intro xs
    induction xs with
    | nil => exact fun ts hts => hts
    | cons x xs ih =>
      refine fun ts hts => ih _ ?_
      unfold enroll
      split
      · split
        · exact hts
        · next hnew =>
          refine List.nodup_append.mpr ⟨hts, List.nodup_singleton _, ?_⟩
          rintro a ha b hb rfl
          exact hnew (List.mem_singleton.mp hb ▸ ha)
      · exact hts
  exact hfold strokes [] List.nodup_nil

/-! ## Links -/

/-- The edge that a stroke draws behind those that are drawn already. -/
def link? (before : List Link) : Stroke → Option Link
  | .edge kind label source target => some ⟨kind, label, source, target⟩
  | .next kind source target =>
    some ⟨kind, kind.nextLabel (before.countP (·.source = source) + 1), source, target⟩
  | .object _ | .store _ | .native _ _ | .name _ _ => none

/-- The edges so far and those that strokes draw behind them. -/
def links (before : List Link) (strokes : List Stroke) : List Link :=
  strokes.foldl (fun ls x => ls ++ (x.link? ls).toList) before

theorem links_append (before : List Link) (strokes strokes' : List Stroke) :
    links before (strokes ++ strokes') = links (links before strokes) strokes' :=
  List.foldl_append

theorem links_snoc (before : List Link) (strokes : List Stroke) (x : Stroke) :
    links before (strokes ++ [x]) =
      links before strokes ++ (x.link? (links before strokes)).toList :=
  List.foldl_append

theorem link?_eq_none (h : x.thing? = some t) (before : List Link) : x.link? before = none := by
  cases x with
  | object | store | native => rfl
  | edge | next | name => cases h

/-! ## Looks -/

/-- How a thing looks when a stroke gives it a node. -/
def look? (sc : Scope) (t : Thing) : Stroke → Option Look
  | .object a => if .object a = t then some (sc.objectNode a ObjectId.unknown).look else none
  | .store memory =>
    if .backingStore memory.address = t then
      some ⟨.native, "system / JSArrayBufferData", memory.byteLength⟩
    else none
  | .native u n => if u = t then some n.look else none
  | .edge _ _ _ _ | .next _ _ _ | .name _ _ => none

/-- The name that a stroke has for a thing. -/
def name? (t : Thing) : Stroke → Option String
  | .name u text => if u = t then some text else none
  | .object _ | .store _ | .native _ _ | .edge _ _ _ _ | .next _ _ _ => none

/-- How a thing looks in the end: as in its first stroke, under the first name that it gets. -/
def lookOf? (sc : Scope) (strokes : List Stroke) (t : Thing) : Option Look :=
  (strokes.findSome? (look? sc t)).map fun l => (strokes.filterMap (name? t)).foldl Look.named l

theorem isSome_look? : (x.look? sc t).isSome = true ↔ x.thing? = some t := by
  cases x with
  | object | store | native => simp only [look?, thing?, Option.some.injEq]; split <;> simp [*]
  | edge | next | name => simp [look?, thing?]

theorem thing?_of_look? {l : Look} (h : x.look? sc t = some l) : x.thing? = some t :=
  isSome_look?.mp (Option.isSome_of_eq_some h)

theorem name?_eq_none (h : x.thing? = some t) (u : Thing) : x.name? u = none := by
  cases x with
  | object | store | native => rfl
  | edge | next | name => cases h

theorem isSome_findSome?_look? (sc : Scope) (ht : t ∈ roll strokes) :
    (strokes.findSome? (look? sc t)).isSome = true := by
  obtain ⟨x, hx, hthing⟩ := mem_roll.mp ht
  rw [List.isSome_findSome?]
  exact List.any_eq_true.mpr ⟨x, hx, isSome_look?.mpr hthing⟩

theorem findSome?_look?_eq_none (ht : t ∉ roll strokes) :
    strokes.findSome? (look? sc t) = none := by
  refine List.findSome?_eq_none_iff.mpr fun x hx => ?_
  rw [← Option.not_isSome_iff_eq_none, isSome_look?]
  exact fun hthing => ht (mem_roll.mpr ⟨x, hx, hthing⟩)

/-- A thing that has a node keeps its look but for its name. -/
theorem lookOf?_snoc (ht : t ∈ roll strokes) (x : Stroke) :
    lookOf? sc (strokes ++ [x]) t =
      (lookOf? sc strokes t).map fun l => (x.name? t).toList.foldl Look.named l := by
  obtain ⟨l, hl⟩ := Option.isSome_iff_exists.mp (isSome_findSome?_look? sc ht)
  have hnames : [x].filterMap (name? t) = (x.name? t).toList := by
    cases h : x.name? t <;> simp [h]
  rw [lookOf?, lookOf?, List.findSome?_append, hl, Option.some_or, Option.map_some,
    Option.map_some, Option.map_some, List.filterMap_append, hnames, List.foldl_append]

/-- A thing that gets a node looks as the stroke says. -/
theorem lookOf?_snoc_new (ht : t ∉ roll strokes) (hx : x.thing? = some t)
    (hnames : strokes.filterMap (name? t) = []) :
    lookOf? sc (strokes ++ [x]) t = x.look? sc t := by
  rw [lookOf?, List.findSome?_append, findSome?_look?_eq_none ht, List.filterMap_append, hnames,
    List.filterMap_cons_none (name?_eq_none hx t)]
  simp

/-! ## Strokes about things that have nodes -/

end Stroke

/-- The positions of synthetic nodes. -/
def Graph.IsSynthetic (index : NodeIndex) : Prop := index < Graph.withRoots.nodeCount

/-- The place is that of a synthetic node or of a known thing. -/
def Place.Known (known : Thing → Prop) : Place → Prop
  | .fixed index => Graph.IsSynthetic index
  | .thing t => known t

theorem Place.Known.mono {known known' : Thing → Prop} {p : Place} (hp : p.Known known)
    (h : ∀ t, known t → known' t) : p.Known known' := by
  cases p with
  | fixed index => exact hp
  | thing t => exact h t hp

namespace Stroke

variable {known known' : Thing → Prop} {x : Stroke} {strokes strokes' : List Stroke}

/-- The stroke is about known things, an edge has a label of the right sort, and a node starts
without edges. -/
def Ready (known : Thing → Prop) : Stroke → Prop
  | .object _ | .store _ => True
  | .native _ n => n.childCount = 0
  | .edge kind label source target =>
    kind.isIndexed = label.isIndex ∧ source.Known known ∧ target.Known known
  | .next _ source target => source.Known known ∧ target.Known known
  | .name t _ => known t

/-- Every stroke is ready once those before it are drawn. -/
def Placed (known : Thing → Prop) : List Stroke → Prop
  | [] => True
  | x :: strokes => x.Ready known ∧ Placed (fun t => known t ∨ x.thing? = some t) strokes

theorem Ready.mono (hx : x.Ready known) (h : ∀ t, known t → known' t) :
    x.Ready known' := by
  cases x with
  | object | store => trivial
  | native => exact hx
  | edge => exact ⟨hx.1, hx.2.1.mono h, hx.2.2.mono h⟩
  | next => exact ⟨hx.1.mono h, hx.2.mono h⟩
  | name t => exact h t hx

theorem Placed.mono (hplaced : Placed known strokes) (h : ∀ t, known t → known' t) :
    Placed known' strokes := by
  induction strokes generalizing known known' with
  | nil => trivial
  | cons x strokes ih => exact ⟨hplaced.1.mono h, ih hplaced.2 fun t => Or.imp_left (h t)⟩

theorem placed_append :
    Placed known (strokes ++ strokes') ↔
      Placed known strokes ∧
        Placed (fun t => known t ∨ ∃ x ∈ strokes, x.thing? = some t) strokes' := by
  induction strokes generalizing known with
  | nil => simp [Placed]
  | cons x strokes ih => simp [Placed, ih, and_assoc, or_assoc]

theorem placed_flatMap {α : Type} {as : List α} {f : α → List Stroke}
    (h : ∀ a ∈ as, Placed known (f a)) : Placed known (as.flatMap f) := by
  induction as with
  | nil => trivial
  | cons a as ih =>
    rw [List.flatMap_cons, placed_append]
    exact ⟨h a List.mem_cons_self,
      (ih fun b hb => h b (List.mem_cons_of_mem a hb)).mono fun _ => .inl⟩

end Stroke

/-! ## Drafts -/

namespace Draft

open Stroke (roll links lookOf? Ready Placed)

/-- The draft shows what the strokes depict. -/
structure Depicts (sc : Scope) (strokes : List Stroke) (d : Draft) : Prop where
  nodeCount : d.graph.nodeCount = Graph.withRoots.nodeCount + (roll strokes).length
  entries : ∀ t (i : Nat), d.entries.find? t = some i ↔
    ∃ j, (roll strokes)[j]? = some t ∧ i = Graph.withRoots.nodeCount + j
  synthetic : ∀ i : Nat, i < Graph.withRoots.nodeCount →
    d.graph.nodes[i]?.map (·.look) = Graph.withRoots.nodes[i]?.map (·.look)
  look : ∀ t (i : Nat), d.entries.find? t = some i →
    d.graph.nodes[i]?.map (·.look) = lookOf? sc strokes t
  edges : d.graph.edges.toList = (links [] strokes).map (·.toEdge d.indexOf)
  tallied : d.graph.Tallied
  linked : ∀ l ∈ links [] strokes,
    l.source.Known (· ∈ roll strokes) ∧ l.target.Known (· ∈ roll strokes)
  named : ∀ t text, .name t text ∈ strokes → t ∈ roll strokes

variable {sc : Scope} {strokes : List Stroke} {d d' : Draft} {t : Thing} {x : Stroke}

theorem sound_withRoots : Graph.withRoots.Sound := by
  have hfold : ∀ (ns : List Node) (g : Graph), g.Sound → (∀ n ∈ ns, n.childCount = 0) →
      (ns.foldl Graph.pushNode g).Sound := by
    intro ns
    induction ns with
    | nil => exact fun g hg _ => hg
    | cons n ns ih =>
      intro g hg hns
      exact ih _ (Graph.sound_pushNode hg (hns n List.mem_cons_self))
        fun m hm => hns m (List.mem_cons_of_mem n hm)
  exact hfold _ _ Graph.sound_empty Graph.childCount_of_mem_syntheticNodes

theorem depicts_blank (l : Ledger) : Depicts sc [] { ledger := l } where
  nodeCount := rfl
  entries t i := by rw [Entries.find?_empty]; simp [roll]
  synthetic _ _ := rfl
  look t i ht := by rw [Entries.find?_empty] at ht; cases ht
  edges := rfl
  tallied := sound_withRoots.toTallied
  linked l hl := nomatch hl
  named t text h := nomatch h

namespace Depicts

theorem mem_roll_iff (h : Depicts sc strokes d) :
    t ∈ roll strokes ↔ ∃ i, d.entries.find? t = some i := by
  rw [List.mem_iff_getElem?]
  constructor
  · rintro ⟨j, hj⟩
    exact ⟨_, (h.entries t _).mpr ⟨j, hj, rfl⟩⟩
  · rintro ⟨i, hi⟩
    obtain ⟨j, hj, -⟩ := (h.entries t i).mp hi
    exact ⟨j, hj⟩

theorem not_mem_roll (h : Depicts sc strokes d) (ht : d.entries.find? t = none) :
    t ∉ roll strokes := by
  rw [h.mem_roll_iff]
  rintro ⟨i, hi⟩
  rw [ht] at hi
  cases hi

/-- Known places have positions in the graph. -/
theorem indexOf_lt (h : Depicts sc strokes d) {p : Place} (hp : p.Known (· ∈ roll strokes)) :
    d.indexOf p < d.graph.nodeCount := by
  rw [h.nodeCount]
  cases p with
  | fixed index => exact Nat.lt_add_right _ hp
  | thing t =>
    obtain ⟨j, hj⟩ := List.mem_iff_getElem?.mp hp
    rw [indexOf_of_find? ((h.entries t _).mpr ⟨j, hj, rfl⟩)]
    exact Nat.add_lt_add_left (List.getElem?_eq_some_iff.mp hj).1 _

/-- Different places have different positions. -/
theorem indexOf_inj (h : Depicts sc strokes d) {p q : Place} (hp : p.Known (· ∈ roll strokes))
    (hq : q.Known (· ∈ roll strokes)) (heq : d.indexOf p = d.indexOf q) : p = q := by
  have hthing : ∀ {u : Thing}, u ∈ roll strokes → ∃ j, (roll strokes)[j]? = some u ∧
      d.indexOf (.thing u) = Graph.withRoots.nodeCount + j := by
    intro u hu
    obtain ⟨j, hj⟩ := List.mem_iff_getElem?.mp hu
    exact ⟨j, hj, indexOf_of_find? ((h.entries u _).mpr ⟨j, hj, rfl⟩)⟩
  cases p with
  | fixed i =>
    have hi : i < Graph.withRoots.nodeCount := hp
    cases q with
    | fixed k => exact congrArg Place.fixed heq
    | thing u =>
      obtain ⟨j, -, hindex⟩ := hthing hq
      rw [hindex] at heq
      exact absurd heq (Nat.ne_of_lt (Nat.lt_add_right j hi))
  | thing t =>
    obtain ⟨j, hj, hindex⟩ := hthing hp
    cases q with
    | fixed i =>
      have hi : i < Graph.withRoots.nodeCount := hq
      rw [hindex] at heq
      exact absurd heq.symm (Nat.ne_of_lt (Nat.lt_add_right j hi))
    | thing u =>
      obtain ⟨k, hk, hindex'⟩ := hthing hq
      rw [hindex, hindex'] at heq
      obtain rfl : j = k := Nat.add_left_cancel heq
      rw [hj, Option.some.injEq] at hk
      rw [hk]

/-- Every node is that of a known place. -/
theorem exists_place (h : Depicts sc strokes d) {i : NodeIndex} (hi : i < d.graph.nodeCount) :
    ∃ p : Place, p.Known (· ∈ roll strokes) ∧ d.indexOf p = i := by
  by_cases hsynthetic : Graph.IsSynthetic i
  · exact ⟨.fixed i, hsynthetic, rfl⟩
  · obtain ⟨j, rfl⟩ := Nat.exists_eq_add_of_le (Nat.le_of_not_lt hsynthetic)
    rw [h.nodeCount] at hi
    have hj : j < (roll strokes).length := Nat.lt_of_add_lt_add_left hi
    refine ⟨.thing (roll strokes)[j], List.getElem_mem hj, indexOf_of_find? ?_⟩
    exact (h.entries _ _).mpr ⟨j, List.getElem?_eq_getElem hj, rfl⟩

/-- Known places stay where they are. -/
theorem indexOf_eq (h : Depicts sc strokes d)
    (hkeep : ∀ t i, d.entries.find? t = some i → d'.entries.find? t = some i)
    {p : Place} (hp : p.Known (· ∈ roll strokes)) : d'.indexOf p = d.indexOf p := by
  cases p with
  | fixed index => rfl
  | thing t =>
    obtain ⟨i, hi⟩ := h.mem_roll_iff.mp hp
    rw [indexOf_of_find? hi, indexOf_of_find? (hkeep t i hi)]

theorem map_toEdge_eq (h : Depicts sc strokes d)
    (hkeep : ∀ t i, d.entries.find? t = some i → d'.entries.find? t = some i) :
    (links [] strokes).map (·.toEdge d'.indexOf) = d.graph.edges.toList := by
  rw [h.edges]
  refine List.map_congr_left fun l hl => ?_
  obtain ⟨hsource, htarget⟩ := h.linked l hl
  rw [Link.toEdge, Link.toEdge, h.indexOf_eq hkeep hsource, h.indexOf_eq hkeep htarget]

/-- A node counts the links that leave its place. -/
theorem childCount_eq (h : Depicts sc strokes d) {p : Place}
    (hp : p.Known (· ∈ roll strokes)) :
    d.childCount (d.indexOf p) = (links [] strokes).countP (·.source = p) := by
  have hlt := h.indexOf_lt hp
  have hcounted := h.tallied.counted (d.indexOf p) hlt
  rw [childCount, Array.getElem?_eq_getElem hlt, Option.map_some, Option.getD_some, hcounted,
    Graph.edgesFrom, ← List.countP_eq_length_filter, h.edges, List.countP_map]
  refine List.countP_congr fun l hl => ?_
  have hsource := (h.linked l hl).1
  simp only [Function.comp_apply, Link.toEdge, beq_iff_eq, decide_eq_true_eq]
  exact ⟨h.indexOf_inj hsource hp, fun heq => congrArg d.indexOf heq⟩

/-! ## One stroke -/

/-- A stroke for a thing that has a node does nothing. -/
theorem again (h : Depicts sc strokes d) (hx : x.thing? = some t)
    (ht : d.entries.find? t = some i) : Depicts sc (strokes ++ [x]) d := by
  have hmem : t ∈ roll strokes := h.mem_roll_iff.mpr ⟨i, ht⟩
  have hroll : roll (strokes ++ [x]) = roll strokes := by
    simp only [Stroke.roll_snoc, Stroke.enroll, hx, if_pos hmem]
  have hlinks : links [] (strokes ++ [x]) = links [] strokes := by
    rw [Stroke.links_snoc, Stroke.link?_eq_none hx]
    exact List.append_nil _
  constructor
  · rw [hroll]; exact h.nodeCount
  · rw [hroll]; exact h.entries
  · exact h.synthetic
  · intro u j hu
    rw [h.look u j hu, Stroke.lookOf?_snoc (h.mem_roll_iff.mpr ⟨j, hu⟩),
      Stroke.name?_eq_none hx]
    exact (Option.map_id_apply ..).symm
  · rw [hlinks]; exact h.edges
  · exact h.tallied
  · rw [hlinks, hroll]; exact h.linked
  · intro u text hname
    rw [hroll]
    rcases List.mem_append.mp hname with hname | hname
    · exact h.named u text hname
    · rw [← List.mem_singleton.mp hname] at hx; cases hx

/-- A stroke for a thing that has no node gives it one. -/
theorem addNode (h : Depicts sc strokes d) (hx : x.thing? = some t)
    (hnew : d.entries.find? t = none) {n : Node} (hlook : x.look? sc t = some n.look)
    (hn : n.childCount = 0) (l : Ledger) :
    Depicts sc (strokes ++ [x]) ({ d with ledger := l }.addNode t n).2 := by
  have hmem := h.not_mem_roll hnew
  have hroll : roll (strokes ++ [x]) = roll strokes ++ [t] := by
    simp only [Stroke.roll_snoc, Stroke.enroll, hx, if_neg hmem]
  have hlinks : links [] (strokes ++ [x]) = links [] strokes := by
    rw [Stroke.links_snoc, Stroke.link?_eq_none hx]
    exact List.append_nil _
  have hfind : ∀ u, ({ d with ledger := l }.addNode t n).2.entries.find? u =
      if t = u then some d.graph.nodeCount else d.entries.find? u :=
    fun u => Entries.find?_insert d.entries t u d.graph.nodeCount
  have hnode : ∀ i, ({ d with ledger := l }.addNode t n).2.graph.nodes[i]? =
      if i = d.graph.nodeCount then some n else d.graph.nodes[i]? :=
    fun i => Array.getElem?_push
  have hkeep : ∀ u i, d.entries.find? u = some i →
      ({ d with ledger := l }.addNode t n).2.entries.find? u = some i :=
    fun u i hu => find?_addNode (d := { d with ledger := l }) n hnew hu
  have hmono : ∀ u, u ∈ roll strokes → u ∈ roll (strokes ++ [x]) := by
    intro u hu
    rw [hroll]
    exact List.mem_append_left _ hu
  constructor
  · show (d.graph.pushNode n).nodeCount = _
    rw [Graph.nodeCount_pushNode, h.nodeCount, hroll, List.length_append]
    rfl
  · intro u i
    rw [hfind, hroll]
    by_cases htu : t = u
    · subst htu
      rw [if_pos rfl, Option.some.injEq, h.nodeCount]
      constructor
      · rintro rfl
        exact ⟨(roll strokes).length, by simp, rfl⟩
      · rintro ⟨j, hj, rfl⟩
        have hle : ¬ j < (roll strokes).length := by
          intro hlt
          rw [List.getElem?_append_left hlt] at hj
          exact hmem (List.mem_of_getElem? hj)
        have hlt := (List.getElem?_eq_some_iff.mp hj).1
        rw [List.length_append, List.length_singleton] at hlt
        omega
    · rw [if_neg htu, h.entries]
      refine exists_congr fun j => and_congr_left fun _ => ?_
      by_cases hlt : j < (roll strokes).length
      · rw [List.getElem?_append_left hlt]
      · rw [List.getElem?_append_right (Nat.le_of_not_lt hlt),
          List.getElem?_eq_none (Nat.le_of_not_lt hlt)]
        cases j - (roll strokes).length with
        | zero => simp [htu]
        | succ k => simp
  · intro i hi
    have hne : i ≠ d.graph.nodeCount := by
      have := h.nodeCount
      omega
    rw [hnode, if_neg hne]
    exact h.synthetic i hi
  · intro u i hu
    rw [hfind] at hu
    by_cases htu : t = u
    · subst htu
      rw [if_pos rfl, Option.some.injEq] at hu
      have hnames : strokes.filterMap (Stroke.name? t) = [] := by
        refine List.filterMap_eq_nil_iff.mpr fun y hy => ?_
        cases y with
        | name u text =>
          have hne : u ≠ t := by rintro rfl; exact hmem (h.named u text hy)
          rw [Stroke.name?, if_neg hne]
        | _ => rfl
      rw [hnode, if_pos hu.symm, Stroke.lookOf?_snoc_new hmem hx hnames, hlook]
      rfl
    · rw [if_neg htu] at hu
      have hu' := h.mem_roll_iff.mpr ⟨i, hu⟩
      have hne : i ≠ d.graph.nodeCount := by
        obtain ⟨j, hj, rfl⟩ := (h.entries u i).mp hu
        have := (List.getElem?_eq_some_iff.mp hj).1
        have := h.nodeCount
        omega
      rw [hnode, if_neg hne, h.look u i hu, Stroke.lookOf?_snoc hu', Stroke.name?_eq_none hx]
      exact (Option.map_id_apply ..).symm
  · rw [hlinks, h.map_toEdge_eq hkeep]
    rfl
  · exact Graph.tallied_pushNode h.tallied hn
  · intro k hk
    rw [hlinks] at hk
    exact ⟨(h.linked k hk).1.mono hmono, (h.linked k hk).2.mono hmono⟩
  · intro u text hname
    rcases List.mem_append.mp hname with hname | hname
    · exact hmono u (h.named u text hname)
    · rw [← List.mem_singleton.mp hname] at hx; cases hx

end Depicts

/-- Drawing an edge changes the nodes' counts and nothing else of them. -/
theorem look_pushEdge (g : Graph) (e : Edge) (i : NodeIndex) :
    (g.pushEdge e).nodes[i]?.map (·.look) = g.nodes[i]?.map (·.look) := by
  simp only [Graph.pushEdge, Array.getElem?_modify]
  split
  · rw [Option.map_map]; rfl
  · rfl

theorem look_nameIfEmpty (g : Graph) (index : NodeIndex) (text : String) (i : NodeIndex) :
    (g.nameIfEmpty index text).nodes[i]?.map (·.look) =
      if index = i then (g.nodes[i]?.map (·.look)).map (·.named text)
      else g.nodes[i]?.map (·.look) := by
  unfold Graph.nameIfEmpty
  split
  · next n hn =>
    split
    · next hempty =>
      simp only [Array.getElem?_modify]
      split
      · next hi => subst hi; simp [hn, Node.look, Look.named, hempty]
      · rfl
    · next hname =>
      split
      · next hi => subst hi; simp [hn, Node.look, Look.named, hname]
      · rfl
  · next hnone =>
    split
    · next hi => subst hi; simp [hnone]
    · rfl

namespace Depicts

theorem link (h : Depicts sc strokes d) {l : Link} (hx : x.link? (links [] strokes) = some l)
    (hlabel : l.kind.isIndexed = l.label.isIndex) (hsource : l.source.Known (· ∈ roll strokes))
    (htarget : l.target.Known (· ∈ roll strokes)) :
    Depicts sc (strokes ++ [x])
      (d.link l.kind l.label (d.indexOf l.source) (d.indexOf l.target)) := by
  have hthing : x.thing? = none := by
    cases x with
    | object | store | native | name => cases hx
    | edge | next => rfl
  have hroll : roll (strokes ++ [x]) = roll strokes := by
    simp only [Stroke.roll_snoc, Stroke.enroll, hthing]
  have hlinks : links [] (strokes ++ [x]) = links [] strokes ++ [l] := by
    rw [Stroke.links_snoc, hx]
    rfl
  have hname : ∀ u, x.name? u = none := by
    cases x with
    | object | store | native | name => cases hx
    | edge | next => exact fun _ => rfl
  -- a name enters the table first, which changes no node and no edge
  obtain ⟨g, hnodes, hedges, hgraph⟩ : ∃ g : Graph, g.nodes = d.graph.nodes ∧
      g.edges = d.graph.edges ∧
      (d.link l.kind l.label (d.indexOf l.source) (d.indexOf l.target)).graph =
        g.pushEdge (l.toEdge d.indexOf) := by
    obtain ⟨kind, label, source, target⟩ := l
    cases label with
    | name text => exact ⟨d.graph.intern text, rfl, rfl, rfl⟩
    | index n => exact ⟨d.graph, rfl, rfl, rfl⟩
  have hcount : g.nodeCount = d.graph.nodeCount := by rw [Graph.nodeCount, hnodes]; rfl
  have hlook : ∀ i : NodeIndex, (g.pushEdge (l.toEdge d.indexOf)).nodes[i]?.map (·.look) =
      d.graph.nodes[i]?.map (·.look) := by
    intro i
    rw [look_pushEdge, hnodes]
  have htallied : g.Tallied := by
    constructor
    · intro i hi
      have hcounted := h.tallied.counted i (by rw [← hnodes]; exact hi)
      simp only [Graph.edgesFrom, hnodes, hedges]
      exact hcounted
    · rw [hcount, hedges]; exact h.tallied.source_lt
    · rw [hedges]; exact h.tallied.labelled
  constructor
  · rw [hgraph, Graph.nodeCount_pushEdge, hcount, hroll]; exact h.nodeCount
  · intro u i
    rw [entries_link, hroll]
    exact h.entries u i
  · intro i hi
    rw [hgraph, hlook]
    exact h.synthetic i hi
  · intro u i hu
    rw [entries_link] at hu
    rw [hgraph, hlook, h.look u i hu, Stroke.lookOf?_snoc (h.mem_roll_iff.mpr ⟨i, hu⟩), hname]
    exact (Option.map_id_apply ..).symm
  · have hkeep : ∀ u i, d.entries.find? u = some i →
        (d.link l.kind l.label (d.indexOf l.source) (d.indexOf l.target)).entries.find? u =
          some i := by
      intro u i hu
      rw [entries_link]
      exact hu
    rw [hgraph, Graph.edges_pushEdge, Array.toList_push, hedges, hlinks, List.map_append,
      h.map_toEdge_eq hkeep, List.map_singleton, Link.toEdge, Link.toEdge,
      h.indexOf_eq hkeep hsource, h.indexOf_eq hkeep htarget]
  · rw [hgraph]
    refine Graph.tallied_pushEdge htallied ?_ (beq_iff_eq.mpr hlabel)
    rw [hcount]
    exact h.indexOf_lt hsource
  · intro k hk
    rw [hlinks, List.mem_append, List.mem_singleton] at hk
    rw [hroll]
    rcases hk with hk | rfl
    · exact h.linked k hk
    · exact ⟨hsource, htarget⟩
  · intro u text hmem
    rw [hroll]
    rcases List.mem_append.mp hmem with hmem | hmem
    · exact h.named u text hmem
    · rw [← List.mem_singleton.mp hmem] at hx; cases hx

theorem name (h : Depicts sc strokes d) (ht : t ∈ roll strokes) (text : String) :
    Depicts sc (strokes ++ [.name t text]) (d.nameIfEmpty (d.indexOf (.thing t)) text) := by
  obtain ⟨k, hk⟩ := h.mem_roll_iff.mp ht
  rw [indexOf_of_find? hk]
  have hroll : roll (strokes ++ [.name t text]) = roll strokes := Stroke.roll_snoc ..
  have hlinks : links [] (strokes ++ [.name t text]) = links [] strokes := by
    rw [Stroke.links_snoc]
    exact List.append_nil _
  have hlook := look_nameIfEmpty d.graph k text
  constructor
  · rw [hroll]; exact (Graph.nodeCount_nameIfEmpty ..).trans h.nodeCount
  · rw [hroll]; exact h.entries
  · intro i hi
    have hne : k ≠ i := by
      obtain ⟨j, -, rfl⟩ := (h.entries t k).mp hk
      exact (Nat.ne_of_lt (Nat.lt_add_right j hi)).symm
    show (d.graph.nameIfEmpty k text).nodes[i]?.map (·.look) = _
    rw [hlook, if_neg hne]
    exact h.synthetic i hi
  · intro u i hu
    have hu : d.entries.find? u = some i := hu
    show (d.graph.nameIfEmpty k text).nodes[i]?.map (·.look) = _
    rw [hlook, h.look u i hu, Stroke.lookOf?_snoc (h.mem_roll_iff.mpr ⟨i, hu⟩), Stroke.name?]
    by_cases htu : t = u
    · subst htu
      rw [hk, Option.some.injEq] at hu
      rw [if_pos hu, if_pos rfl]
      rfl
    · have hne : k ≠ i := by
        rintro rfl
        obtain ⟨j, hj, hkj⟩ := (h.entries t k).mp hk
        obtain ⟨j', hj', hkj'⟩ := (h.entries u k).mp hu
        obtain rfl : j = j' := by omega
        rw [hj, Option.some.injEq] at hj'
        exact htu hj'
      rw [if_neg hne, if_neg htu]
      exact (Option.map_id_apply ..).symm
  · rw [hlinks]; exact (congrArg Array.toList (Graph.edges_nameIfEmpty ..)).trans h.edges
  · exact Graph.tallied_nameIfEmpty h.tallied k text
  · rw [hlinks, hroll]; exact h.linked
  · intro u text' hmem
    rw [hroll]
    rcases List.mem_append.mp hmem with hmem | hmem
    · exact h.named u text' hmem
    · cases List.mem_singleton.mp hmem
      exact ht

theorem ensure (h : Depicts sc strokes d) (hx : x.thing? = some t)
    {add : Draft → NodeIndex × Draft} {n : Node} {l : Ledger}
    (hadd : add d = { d with ledger := l }.addNode t n) (hlook : x.look? sc t = some n.look)
    (hn : n.childCount = 0) : Depicts sc (strokes ++ [x]) (d.ensure t add).2 := by
  unfold Draft.ensure
  split
  · next i hi => exact h.again hx hi
  · next hnew =>
    rw [hadd]
    exact h.addNode hx hnew hlook hn l

/-- One stroke about things that have nodes. -/
theorem draw (h : Depicts sc strokes d) (hready : x.Ready (· ∈ roll strokes)) :
    Depicts sc (strokes ++ [x]) (d.draw sc x) := by
  cases x with
  | object a =>
    refine h.ensure rfl (addObject_eq d sc a) ?_ ?_
    · rw [Stroke.look?, if_pos rfl]
      unfold Scope.objectNode
      split <;> rfl
    · unfold Scope.objectNode
      split <;> rfl
  | store store => exact h.ensure rfl (addBackingStore.eq_1 d store) (if_pos rfl) rfl
  | native t n => exact h.ensure (l := d.ledger) rfl rfl (if_pos rfl) hready
  | edge kind label source target =>
    exact h.link (l := ⟨kind, label, source, target⟩) rfl hready.1 hready.2.1 hready.2.2
  | next kind source target =>
    have hlabel : ∀ n, kind.isIndexed = (kind.nextLabel n).isIndex := by
      intro n
      unfold EdgeKind.nextLabel
      cases kind.isIndexed <;> rfl
    rw [Draft.draw, h.childCount_eq hready.1]
    exact h.link (l := ⟨kind, kind.nextLabel _, source, target⟩) rfl (hlabel _) hready.1 hready.2
  | name t text => exact h.name hready text

/-- Strokes one after the other. -/
theorem drawAll {done : List Stroke} (h : Depicts sc done d)
    (hplaced : Placed (· ∈ roll done) strokes) :
    Depicts sc (done ++ strokes) (d.drawAll sc strokes) := by
  induction strokes generalizing done d with
  | nil => rw [List.append_nil]; exact h
  | cons x strokes ih =>
    have hrest : Placed (· ∈ roll (done ++ [x])) strokes := by
      refine hplaced.2.mono fun t ht => ?_
      rw [Stroke.roll_snoc, Stroke.mem_enroll]
      exact ht
    have hall := ih (h.draw hplaced.1) hrest
    rw [List.append_assoc] at hall
    exact hall

end Depicts

theorem depicts_drawAll (hplaced : Placed (fun _ => False) strokes) (l : Ledger) :
    Depicts sc strokes (drawAll sc strokes { ledger := l }) :=
  (depicts_blank l).drawAll (hplaced.mono fun _ => False.elim)

/-- Edges between known places join nodes of the graph. -/
theorem Depicts.sound (h : Depicts sc strokes d) : d.graph.Sound := by
  refine ⟨h.tallied, fun e he => ?_⟩
  rw [h.edges] at he
  obtain ⟨l, hl, rfl⟩ := List.mem_map.mp he
  exact h.indexOf_lt (h.linked l hl).2

end Draft

end ManagedHeap
