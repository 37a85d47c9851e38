import ManagedHeap.Graph.Basic
import Mathlib.Data.List.Basic

/-!
# Graphs built by calls

A graph is built by a sequence of calls, none of which may be refused. Whatever the sequence,
every node counts exactly the edges that leave it, and every edge joins nodes of the graph under a
label of the right sort. Grouping such a graph by source loses no edge and keeps their order.
-/
namespace ManagedHeap

/-- The numbers of a node fit the words that hold them. -/
def Node.Fits (n : Node) : Prop :=
  n.id.raw < wordLimit 64 ∧ n.selfSize < wordLimit 64 ∧ n.traceNode < wordLimit 32

/-- An index fits the word that holds it. -/
def Edge.Fits (e : Edge) : Prop := ∀ n ∈ e.label.index?, n < wordLimit 32

/-- The numbers of a sample fit words with a sign. -/
def Sample.Fits (s : Sample) : Prop :=
  -(wordLimit 63 : Int) ≤ s.time ∧ s.time < wordLimit 63 ∧ s.nextId.raw < wordLimit 63

namespace Graph

/-- One call on a graph that is being built. -/
inductive Call where
  | roots
  | node (kind : NodeKind) (name : String) (id : ObjectId) (selfSize traceNode : Nat)
  | edge (e : Edge)
  | rename (index : NodeIndex) (name : String)
  | samples (taken : List Sample)
  deriving DecidableEq, Repr

/-- The graph after a call, unless the call is refused. -/
def Call.perform (g : Graph) : Call → Except Fault Graph
  | .roots => g.addRoots
  | .node kind name id selfSize traceNode =>
    g.addNode { kind := kind, name := name, id := id, selfSize := selfSize, traceNode := traceNode }
  | .edge e => g.addEdge e
  | .rename index name => g.nameIfEmptyAt index name
  | .samples taken => .ok (g.setSamples taken)

/-- Every number that a call brings in fits its word. -/
def Call.Fits : Call → Prop
  | .node kind name id selfSize traceNode =>
    Node.Fits
      { kind := kind, name := name, id := id, selfSize := selfSize, traceNode := traceNode }
  | .edge e => e.Fits
  | .samples taken => ∀ s ∈ taken, s.Fits
  | .roots | .rename _ _ => True

/-- The graph after a sequence of calls on an empty one, none of them refused. -/
def build (calls : List Call) : Except Fault Graph := calls.foldlM Call.perform empty

/-! ## What a call that is not refused does -/

theorem addNode_ok {g g' : Graph} {n : Node} (h : g.addNode n = .ok g') : g' = g.pushNode n := by
  unfold addNode at h
  split at h
  · cases h
  · split at h
    · cases h
    · exact (Except.ok.inj h).symm

theorem addEdge_ok {g g' : Graph} {e : Edge} (h : g.addEdge e = .ok g') :
    e.target < g.nodeCount ∧ e.source < g.nodeCount ∧ e.isLabelled = true ∧ g' = g.pushEdge e := by
  unfold addEdge at h
  split at h
  · cases h
  · split at h
    · cases h
    · split at h
      · next hends hlabel =>
        obtain ⟨hsource, htarget⟩ := missingEnd?_eq_none.mp hends
        exact ⟨htarget, hsource, hlabel, (Except.ok.inj h).symm⟩
      · cases h

theorem nameIfEmptyAt_ok {g g' : Graph} {index : NodeIndex} {name : String}
    (h : g.nameIfEmptyAt index name = .ok g') : g' = g.nameIfEmpty index name := by
  simp only [nameIfEmptyAt, bind, Except.bind] at h
  split at h
  · cases h
  · exact (Except.ok.inj h).symm

/-- What each step keeps, a sequence of steps keeps. -/
theorem foldlM_invariant {α β ε : Type} {P : β → Prop} {f : β → α → Except ε β} {as : List α}
    (hstep : ∀ a ∈ as, ∀ b b', P b → f b a = .ok b' → P b') {b b' : β} (hb : P b)
    (h : as.foldlM f b = .ok b') : P b' := by
  induction as generalizing b with
  | nil => exact Except.ok.inj h ▸ hb
  | cons a as ih =>
    rw [List.foldlM_cons] at h
    cases ha : f b a with
    | error e => rw [ha] at h; cases h
    | ok b₁ =>
      rw [ha] at h
      have hb₁ := hstep a List.mem_cons_self b b₁ hb ha
      exact ih (fun x hx => hstep x (List.mem_cons_of_mem _ hx)) hb₁ h

theorem addRoots_invariant {P : Graph → Prop}
    (hpush : ∀ n ∈ syntheticNodes, ∀ g, P g → P (g.pushNode n)) {g g' : Graph} (hg : P g)
    (h : g.addRoots = .ok g') : P g' := by
  unfold addRoots at h
  split at h
  · exact foldlM_invariant (fun n hn g g' hg hadd => addNode_ok hadd ▸ hpush n hn g hg) hg h
  · cases h

/-- What holds of the empty graph and is kept by each of the calls holds at the end. -/
theorem build_invariant {P : Graph → Prop} {calls : List Call} (hempty : P empty)
    (hstep : ∀ c ∈ calls, ∀ g g', P g → c.perform g = .ok g' → P g') {g : Graph}
    (h : build calls = .ok g) : P g :=
  foldlM_invariant hstep hempty h

/-! ## Counts and ends of edges -/

theorem forall_mem_push {α : Type} {P : α → Prop} {xs : Array α} {x : α}
    (hxs : ∀ a ∈ xs.toList, P a) (hx : P x) : ∀ a ∈ (xs.push x).toList, P a := by
  intro a ha
  rw [Array.toList_push, List.mem_append, List.mem_singleton] at ha
  rcases ha with ha | rfl
  · exact hxs a ha
  · exact hx

/-- The edges that leave a node, in the order in which they were added. -/
def edgesFrom (g : Graph) (index : NodeIndex) : List Edge :=
  g.edges.toList.filter fun e => e.source == index

/-- Nodes count their edges, and edges start at nodes of the graph. Where they lead is left open. -/
structure Tallied (g : Graph) : Prop where
  counted : ∀ (i : Nat) (hi : i < g.nodes.size), g.nodes[i].childCount = (g.edgesFrom i).length
  source_lt : ∀ e ∈ g.edges.toList, e.source < g.nodeCount
  labelled : ∀ e ∈ g.edges.toList, e.isLabelled = true

/-- Nodes count their edges, and edges join nodes of the graph. -/
structure Sound (g : Graph) : Prop extends Tallied g where
  target_lt : ∀ e ∈ g.edges.toList, e.target < g.nodeCount

theorem sound_empty : empty.Sound := by
  refine ⟨⟨?_, ?_, ?_⟩, ?_⟩
  · intro i hi; simp [empty] at hi
  all_goals intro e he; simp [empty] at he

theorem edgesFrom_of_le {g : Graph} (h : g.Tallied) {i : Nat} (hi : g.nodeCount ≤ i) :
    g.edgesFrom i = [] := by
  apply List.filter_eq_nil_iff.mpr
  intro e he heq
  have hsource : e.source = i := by simpa using heq
  exact absurd (h.source_lt e he) (by rw [hsource]; exact Nat.not_lt.mpr hi)

theorem edgesFrom_pushEdge (g : Graph) (e : Edge) (i : Nat) :
    (g.pushEdge e).edgesFrom i = g.edgesFrom i ++ if e.source = i then [e] else [] := by
  simp only [edgesFrom, edges_pushEdge, Array.toList_push, List.filter_append]
  congr 1
  by_cases h : e.source = i <;> simp [h]

theorem tallied_pushNode {g : Graph} {n : Node} (h : g.Tallied) (hn : n.childCount = 0) :
    (g.pushNode n).Tallied := by
  constructor
  · intro i hi
    show _ = (g.edgesFrom i).length
    simp only [nodes_pushNode, Array.size_push] at hi
    simp only [nodes_pushNode, Array.getElem_push]
    split
    · next hlt => exact h.counted i hlt
    · next hge => rw [hn, edgesFrom_of_le h (Nat.le_of_not_lt hge), List.length_nil]
  · intro e he
    exact Nat.lt_of_lt_of_le (h.source_lt e he) (by simp)
  · exact h.labelled

theorem sound_pushNode {g : Graph} {n : Node} (h : g.Sound) (hn : n.childCount = 0) :
    (g.pushNode n).Sound := by
  refine ⟨tallied_pushNode h.toTallied hn, fun e he => ?_⟩
  exact Nat.lt_of_lt_of_le (h.target_lt e he) (by simp)

theorem tallied_pushEdge {g : Graph} {e : Edge} (h : g.Tallied) (hsource : e.source < g.nodeCount)
    (hlabel : e.isLabelled = true) : (g.pushEdge e).Tallied := by
  constructor
  · intro i hi
    rw [edgesFrom_pushEdge, List.length_append]
    have hi' : i < g.nodes.size := by simpa [pushEdge] using hi
    have hcount := h.counted i hi'
    simp only [pushEdge, Array.getElem_modify]
    by_cases heq : e.source = i <;> simp [heq, hcount]
  · rw [nodeCount_pushEdge]; exact forall_mem_push h.source_lt hsource
  · exact forall_mem_push h.labelled hlabel

theorem sound_pushEdge {g : Graph} {e : Edge} (h : g.Sound) (htarget : e.target < g.nodeCount)
    (hsource : e.source < g.nodeCount) (hlabel : e.isLabelled = true) : (g.pushEdge e).Sound := by
  refine ⟨tallied_pushEdge h.toTallied hsource hlabel, ?_⟩
  rw [nodeCount_pushEdge]
  exact forall_mem_push h.target_lt htarget

theorem getElem_nameIfEmpty (g : Graph) (index : NodeIndex) (name : String) (i : Nat)
    (hi : i < (g.nameIfEmpty index name).nodes.size) :
    ∃ (hi' : i < g.nodes.size) (text : String),
      (g.nameIfEmpty index name).nodes[i] = { g.nodes[i] with name := text } := by
  have hi' : i < g.nodes.size := by
    have := nodeCount_nameIfEmpty g index name
    simp only [nodeCount] at this
    omega
  refine ⟨hi', ?_⟩
  revert hi
  unfold nameIfEmpty
  split
  · split
    · intro hi
      simp only [Array.getElem_modify]
      split
      · exact ⟨name, rfl⟩
      · exact ⟨_, rfl⟩
    · intro hi; exact ⟨_, rfl⟩
  · intro hi; exact ⟨_, rfl⟩

theorem tallied_nameIfEmpty {g : Graph} (h : g.Tallied) (index : NodeIndex) (name : String) :
    (g.nameIfEmpty index name).Tallied := by
  constructor
  · intro i hi
    obtain ⟨hi', text, heq⟩ := getElem_nameIfEmpty g index name i hi
    rw [heq, edgesFrom, edges_nameIfEmpty]
    exact h.counted i hi'
  · rw [edges_nameIfEmpty, nodeCount_nameIfEmpty]; exact h.source_lt
  · rw [edges_nameIfEmpty]; exact h.labelled

theorem sound_nameIfEmpty {g : Graph} (h : g.Sound) (index : NodeIndex) (name : String) :
    (g.nameIfEmpty index name).Sound := by
  refine ⟨tallied_nameIfEmpty h.toTallied index name, ?_⟩
  rw [edges_nameIfEmpty, nodeCount_nameIfEmpty]
  exact h.target_lt

theorem childCount_of_mem_syntheticNodes : ∀ n ∈ syntheticNodes, n.childCount = 0 := by decide

theorem Call.sound_perform {g g' : Graph} (c : Call) (hg : g.Sound) (h : c.perform g = .ok g') :
    g'.Sound := by
  cases c with
  | roots =>
    exact addRoots_invariant
      (fun n hn g hg => sound_pushNode hg (childCount_of_mem_syntheticNodes n hn)) hg h
  | node kind name id selfSize traceNode =>
    rw [addNode_ok h]
    exact sound_pushNode hg rfl
  | edge e =>
    obtain ⟨htarget, hsource, hlabel, rfl⟩ := addEdge_ok h
    exact sound_pushEdge hg htarget hsource hlabel
  | rename index name =>
    rw [nameIfEmptyAt_ok h]
    exact sound_nameIfEmpty hg index name
  | samples taken => exact Except.ok.inj h ▸ ⟨⟨hg.counted, hg.source_lt, hg.labelled⟩, hg.target_lt⟩

theorem sound_build {calls : List Call} {g : Graph} (h : build calls = .ok g) : g.Sound :=
  build_invariant sound_empty (fun c _ _ _ hg hc => c.sound_perform hg hc) h

/-! ## Numbers that fit their words -/

structure Fits (g : Graph) : Prop where
  nodes : ∀ n ∈ g.nodes.toList, n.Fits
  edges : ∀ e ∈ g.edges.toList, e.Fits
  samples : ∀ s ∈ g.samples, s.Fits

theorem forall_mem_modify {α : Type} {P : α → Prop} {xs : Array α} {f : α → α}
    (hxs : ∀ a ∈ xs.toList, P a) (hf : ∀ a, P a → P (f a)) (i : Nat) :
    ∀ a ∈ (xs.modify i f).toList, P a := by
  intro a ha
  obtain ⟨j, hj, rfl⟩ := Array.mem_iff_getElem.mp (Array.mem_toList_iff.mp ha)
  have hj' : j < xs.size := by simpa using hj
  have hmem : P xs[j] := hxs _ (by simp)
  rw [Array.getElem_modify]
  split
  · exact hf _ hmem
  · exact hmem

theorem fits_empty : empty.Fits := by
  constructor <;> simp [empty]

theorem fits_of_mem_syntheticNodes : ∀ n ∈ syntheticNodes, n.Fits := by
  unfold Node.Fits
  decide

theorem Call.fits_perform {g g' : Graph} {c : Call} (hc : c.Fits) (hg : g.Fits)
    (h : c.perform g = .ok g') : g'.Fits := by
  cases c with
  | roots =>
    refine addRoots_invariant (fun n hn g hg => ?_) hg h
    exact ⟨forall_mem_push hg.nodes (fits_of_mem_syntheticNodes n hn), hg.edges, hg.samples⟩
  | node kind name id selfSize traceNode =>
    rw [addNode_ok h]
    exact ⟨forall_mem_push hg.nodes hc, hg.edges, hg.samples⟩
  | edge e =>
    obtain ⟨-, -, -, rfl⟩ := addEdge_ok h
    have hnodes := forall_mem_modify (f := fun n => { n with childCount := n.childCount + 1 })
      hg.nodes (fun n hn => hn) e.source
    exact ⟨hnodes, forall_mem_push hg.edges hc, hg.samples⟩
  | rename index name =>
    rw [nameIfEmptyAt_ok h]
    have hnodes := forall_mem_modify (f := fun n => { n with name := name })
      hg.nodes (fun n hn => hn) index
    unfold nameIfEmpty
    split
    · split
      · exact ⟨hnodes, hg.edges, hg.samples⟩
      · exact hg
    · exact hg
  | samples taken => exact Except.ok.inj h ▸ ⟨hg.nodes, hg.edges, hc⟩

theorem fits_build {calls : List Call} {g : Graph} (hcalls : ∀ c ∈ calls, c.Fits)
    (h : build calls = .ok g) : g.Fits :=
  build_invariant fits_empty (fun c hc _ _ hg h => Call.fits_perform (hcalls c hc) hg h) h

/-! ## Grouping by source -/

/-- Number of edges that leave the nodes of a list. -/
def childTotal : List Node → Nat
  | [] => 0
  | n :: ns => n.childCount + childTotal ns

theorem childTotal_append (ns ms : List Node) :
    childTotal (ns ++ ms) = childTotal ns + childTotal ms := by
  induction ns with
  | nil => simp [childTotal]
  | cons n ns ih => simp only [List.cons_append, childTotal, ih, Nat.add_assoc]

theorem getElem?_layOut (start : Nat) (ns : List Node) (i : Nat) :
    (layOut start ns)[i]? =
      ns[i]?.map fun n => { n with childStart := start + childTotal (ns.take i) } := by
  induction ns generalizing start i with
  | nil => simp [layOut]
  | cons n ns ih =>
    cases i with
    | zero => simp [layOut, childTotal]
    | succ i =>
      simp only [layOut, List.getElem?_cons_succ, ih, List.take_succ_cons, childTotal]
      congr 1
      funext m
      rw [Nat.add_assoc]

/-- Positions of the edges that leave a node. -/
def positions (i : NodeIndex) (es : List Edge) : List Nat :=
  (es.zipIdx.filter fun p => p.1.source == i).map (·.2)

theorem positions_append_singleton (i : NodeIndex) (es : List Edge) (e : Edge) :
    positions i (es ++ [e]) = positions i es ++ if e.source = i then [es.length] else [] := by
  simp only [positions, List.zipIdx_append, List.filter_append, List.map_append]
  congr 1
  by_cases h : e.source = i <;> simp [h]

theorem filter_source_eq_map (i : NodeIndex) (es : List Edge) :
    (es.filter fun e => e.source == i) =
      (es.zipIdx.filter fun p => p.1.source == i).map (·.1) := by
  have hfst : es.zipIdx.map Prod.fst = es := List.zipIdx_map_fst 0 es
  conv_lhs => rw [← hfst, List.filter_map]
  rfl

theorem length_positions (i : NodeIndex) (es : List Edge) :
    (positions i es).length = (es.filter fun e => e.source == i).length := by
  rw [filter_source_eq_map, positions, List.length_map, List.length_map]

theorem filterMap_positions (i : NodeIndex) (es : List Edge) :
    (positions i es).filterMap (es[·]?) = es.filter fun e => e.source == i := by
  rw [positions, List.filterMap_map, filter_source_eq_map, ← List.filterMap_eq_map]
  apply List.filterMap_congr
  intro p hp
  exact List.mem_zipIdx_iff_getElem?.mp (List.mem_of_mem_filter hp)

/-- Where the places of each node begin and how many it has, out of `total` places: the places of
different nodes do not overlap. -/
structure Plan (nodes : Nat) where
  start : Nat → Nat
  count : Nat → Nat
  total : Nat
  apart : ∀ i j, i < j → j < nodes → start i + count i ≤ start j
  within : ∀ i < nodes, start i + count i ≤ total

/-- The edges of `es` stand at their places, and each node's cursor is behind its last one. -/
structure Placed {nodes : Nat} (plan : Plan nodes) (es : List Edge) (p : Placement) : Prop where
  size_eq : p.places.size = plan.total
  cursor : ∀ i < nodes, p.cursors[i]? = some (plan.start i + (positions i es).length)
  place : ∀ i < nodes, ∀ j k, (positions i es)[j]? = some k →
    p.places[plan.start i + j]? = some k

/-- Placing one more edge: its source has room left, so no place is overwritten. -/
theorem placed_place {nodes : Nat} {plan : Plan nodes} {es : List Edge} {p : Placement} {e : Edge}
    (h : Placed plan es p) (hsource : e.source < nodes)
    (hfit : ∀ i < nodes, (positions i (es ++ [e])).length ≤ plan.count i) :
    Placed plan (es ++ [e]) (p.place es.length e.source) := by
  have hcursor := h.cursor e.source hsource
  have hroom := hfit e.source hsource
  rw [positions_append_singleton, if_pos rfl, List.length_append, List.length_singleton] at hroom
  have hwithin := plan.within e.source hsource
  simp only [Placement.place, hcursor]
  refine ⟨by simpa using h.size_eq, ?_, ?_⟩
  · intro i hi
    rw [positions_append_singleton, Array.getElem?_modify, h.cursor i hi]
    by_cases heq : e.source = i
    · simp [heq, Nat.add_assoc]
    · simp [heq]
  · intro i hi j k hk
    rw [positions_append_singleton] at hk
    rw [Array.getElem?_setIfInBounds]
    by_cases heq : e.source = i
    · subst heq
      rw [if_pos rfl, List.getElem?_append] at hk
      split at hk
      · next hlt => rw [if_neg (by omega)]; exact h.place _ hi j k hk
      · next hge =>
        have hj : j = (positions e.source es).length := by
          have := (List.getElem?_eq_some_iff.mp hk).1
          simp at this
          omega
        subst hj
        simp at hk
        rw [if_pos rfl, if_pos (by have := h.size_eq; omega), hk]
    · rw [if_neg heq, List.append_nil] at hk
      have hj : j < plan.count i := by
        have hlen := hfit i hi
        rw [positions_append_singleton, if_neg heq, List.append_nil] at hlen
        exact Nat.lt_of_lt_of_le (List.getElem?_eq_some_iff.mp hk).1 hlen
      have hne : plan.start e.source + (positions e.source es).length ≠ plan.start i + j := by
        rcases Nat.lt_or_gt_of_ne heq with hlt | hgt
        · have := plan.apart _ _ hlt hi; omega
        · have := plan.apart _ _ hgt hsource; omega
      rw [if_neg hne]
      exact h.place i hi j k hk

theorem placed_placeAll {nodes : Nat} {plan : Plan nodes} {done es : List Edge} {p : Placement}
    (h : Placed plan done p) (hsource : ∀ e ∈ es, e.source < nodes)
    (hfit : ∀ i < nodes, (positions i (done ++ es)).length ≤ plan.count i) :
    Placed plan (done ++ es) (placeAll done.length es p) := by
  induction es generalizing done p with
  | nil => simpa [placeAll] using h
  | cons e es ih =>
    have hsplit : done ++ e :: es = done ++ [e] ++ es := by simp
    rw [hsplit] at hfit ⊢
    have hone : ∀ i < nodes, (positions i (done ++ [e])).length ≤ plan.count i := by
      intro i hi
      refine Nat.le_trans ?_ (hfit i hi)
      simp only [length_positions, List.filter_append, List.length_append]
      omega
    have hstep := placed_place h (hsource e List.mem_cons_self) hone
    have hrest := ih hstep (fun x hx => hsource x (List.mem_cons_of_mem _ hx)) hfit
    simpa [placeAll] using hrest

/-- How many of the edges leave a node before the `i`-th. -/
def countBefore (i : Nat) (es : List Edge) : Nat := es.countP fun e => e.source < i

theorem countBefore_succ (i : Nat) (es : List Edge) :
    countBefore (i + 1) es = countBefore i es + (es.filter fun e => e.source == i).length := by
  induction es with
  | nil => rfl
  | cons e es ih =>
    simp only [countBefore, List.countP_cons, List.filter_cons] at ih ⊢
    grind

theorem countBefore_mono {i j : Nat} (h : i ≤ j) (es : List Edge) :
    countBefore i es ≤ countBefore j es := by
  apply List.countP_mono_left
  intro e _ he
  simp only [decide_eq_true_eq] at he ⊢
  exact Nat.lt_of_lt_of_le he h

/-- The plan of a graph: the places of a node begin behind those of the edges that leave earlier
nodes. -/
def planOf (es : List Edge) (nodes : Nat) : Plan nodes where
  start i := countBefore i es
  count i := (es.filter fun e => e.source == i).length
  total := es.length
  apart i j hij _ := by
    rw [← countBefore_succ]
    exact countBefore_mono hij es
  within i _ := by
    rw [← countBefore_succ]
    exact List.countP_le_length

theorem Tallied.childTotal_take {g : Graph} (h : g.Tallied) (i : Nat) (hi : i ≤ g.nodes.size) :
    childTotal (g.nodes.toList.take i) = countBefore i g.edges.toList := by
  induction i with
  | zero => simp [countBefore, childTotal]
  | succ i ih =>
    have hlt : i < g.nodes.toList.length := by rw [Array.length_toList]; omega
    rw [List.take_succ_eq_append_getElem hlt, childTotal_append, ih (by omega), countBefore_succ]
    simp [childTotal, h.counted i (by omega), edgesFrom]

/-- A grouped graph has its nodes as before, but for where their edges begin. -/
theorem Tallied.getElem?_nodes_group {g : Graph} (h : g.Tallied) (i : Nat) :
    g.group.nodes[i]? =
      g.nodes[i]?.map fun n => { n with childStart := countBefore i g.edges.toList } := by
  simp only [group, List.getElem?_toArray, getElem?_layOut, Array.getElem?_toList, Nat.zero_add]
  by_cases hi : i < g.nodes.size
  · rw [h.childTotal_take i (by omega)]
  · simp [Array.getElem?_eq_none (Nat.le_of_not_lt hi)]

theorem map_nodes_group {β : Type} {f : Node → β} (g : Graph)
    (hf : ∀ n start, f { n with childStart := start } = f n) :
    g.group.nodes.toList.map f = g.nodes.toList.map f := by
  have hlay : ∀ (ns : List Node) (start : Nat), (layOut start ns).map f = ns.map f := by
    intro ns
    induction ns with
    | nil => intro start; rfl
    | cons n ns ih => intro start; simp [layOut, hf, ih]
  exact hlay g.nodes.toList 0

theorem Tallied.placed_group {g : Graph} (h : g.Tallied) :
    ∃ places, g.group.grouping = some places ∧
      ∀ i < g.nodeCount, ∀ j k, (positions i g.edges.toList)[j]? = some k →
        places[countBefore i g.edges.toList + j]? = some k := by
  have hstart : Placed (planOf g.edges.toList g.nodeCount) []
      ⟨g.group.nodes.map (·.childStart), Array.replicate g.edges.size 0⟩ := by
    refine ⟨by simp [planOf], ?_, ?_⟩
    · intro i hi
      have hget : g.nodes[i]? = some g.nodes[i] := Array.getElem?_eq_getElem hi
      simp [h.getElem?_nodes_group, hget, planOf, positions]
    · intro i hi j k hk
      simp [positions] at hk
  have hplaced := placed_placeAll hstart h.source_lt
    (fun i _ => by simp [length_positions, planOf])
  exact ⟨_, rfl, hplaced.place⟩

/-- The children of a node in a grouped graph are the edges that leave it, in the order in which
they were added. -/
theorem Tallied.children_group {g : Graph} (h : g.Tallied) {i : NodeIndex} (hi : i < g.nodeCount) :
    g.group.children i = .ok (g.edgesFrom i) := by
  obtain ⟨places, hplaces, hplace⟩ := h.placed_group
  have hnode : g.group.nodes[i]? =
      some { g.nodes[i] with childStart := countBefore i g.edges.toList } := by
    rw [h.getElem?_nodes_group, Array.getElem?_eq_getElem hi]
    rfl
  have hcount : g.nodes[i].childCount = (positions i g.edges.toList).length := by
    rw [h.counted i hi, length_positions, edgesFrom]
  have hlist : (List.range' (countBefore i g.edges.toList) g.nodes[i].childCount).map (places[·]?) =
      (positions i g.edges.toList).map some := by
    apply List.ext_getElem?
    intro j
    rw [List.getElem?_map, List.getElem?_map, hcount]
    by_cases hj : j < (positions i g.edges.toList).length
    · rw [List.getElem?_range' hj, Nat.one_mul]
      have hk := List.getElem?_eq_getElem hj
      simp [hplace i hi j _ hk, hk]
    · simp [List.getElem?_eq_none (Nat.le_of_not_lt hj)]
      omega
  rw [children, hplaces]
  simp only [node, hnode, bind, Except.bind]
  congr 1
  calc (List.range' (countBefore i g.edges.toList) g.nodes[i].childCount).filterMap
        (fun p => places[p]?.bind fun e => g.group.edges[e]?)
      = ((List.range' (countBefore i g.edges.toList) g.nodes[i].childCount).map
          (places[·]?)).filterMap (·.bind fun e => g.group.edges[e]?) := by
        rw [List.filterMap_map]; rfl
    _ = (positions i g.edges.toList).filterMap (g.edges.toList[·]?) := by
        rw [hlist, List.filterMap_map]
        apply List.filterMap_congr
        intro k _
        simp
    _ = g.edgesFrom i := filterMap_positions i g.edges.toList

theorem childTotal_take {g : Graph} (h : g.Sound) (i : Nat) (hi : i ≤ g.nodes.size) :
    childTotal (g.nodes.toList.take i) = countBefore i g.edges.toList :=
  h.toTallied.childTotal_take i hi

theorem getElem?_nodes_group {g : Graph} (h : g.Sound) (i : Nat) :
    g.group.nodes[i]? =
      g.nodes[i]?.map fun n => { n with childStart := countBefore i g.edges.toList } :=
  h.toTallied.getElem?_nodes_group i

theorem children_group {g : Graph} (h : g.Sound) {i : NodeIndex} (hi : i < g.nodeCount) :
    g.group.children i = .ok (g.edgesFrom i) :=
  h.toTallied.children_group hi

end Graph

end ManagedHeap
