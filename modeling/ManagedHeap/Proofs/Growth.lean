import ManagedHeap.Capture.Basic
import Mathlib.Logic.Relation

/-!
# How a draft grows

Whatever a capture does to its draft is made of six steps: the node of a live object, of memory
outside the heap or of something native, one edge, a name in the table, and a name for a node that
has none. What each step keeps therefore holds throughout a capture, also of one that is stopped.
-/
namespace ManagedHeap

/-- Nothing is asked for. -/
abbrev Any {α : Type} : α → Prop := fun _ => True

/-- The number of a thing that the ledger gives none. -/
def Thing.nativeId? : Thing → Option ObjectId
  | .native id => some id
  | .nativeGroup label => some (Companion.groupId label)
  | .object _ | .backingStore _ => none

/-- The size of the object at an address. -/
def Scope.sizeOf (sc : Scope) (a : Address) : Nat := ((sc.view.object? a).map (·.size)).getD 0

/-- The node of the object at an address, under a number. -/
def Scope.objectNode (sc : Scope) (a : Address) (id : ObjectId) : Node :=
  match sc.view.object? a with
  | some o =>
    { kind := (o.describe sc).1, name := (o.describe sc).2, id := id, selfSize := o.size,
      traceNode := sc.view.traceNode a }
  | none => { kind := .hidden, name := "(unresolved)", id := id, selfSize := 0 }

namespace Draft

/-- One step of a draft. Memory outside the heap satisfies `S`. -/
inductive Step (sc : Scope) (S : BackingStore → Prop) (d : Draft) : Draft → Prop where
  | object {a : Address} (hlive : sc.view.isLive a = true)
      (hnew : d.entries.find? (.object a) = none) : Step sc S d (d.addObject sc a).2
  | store {store : BackingStore} (hstore : S store)
      (hnew : d.entries.find? (.backingStore store.address) = none) :
      Step sc S d (d.addBackingStore store).2
  | native {t : Thing} (n : Node) (ht : t.nativeId? = some n.id)
      (hnew : d.entries.find? t = none) : Step sc S d (d.addNode t n).2
  | edge (e : Edge) : Step sc S d { d with graph := d.graph.pushEdge e }
  | intern (text : String) : Step sc S d { d with graph := d.graph.intern text }
  | name (index : NodeIndex) (text : String) : Step sc S d (d.nameIfEmpty index text)

/-- Any number of steps. -/
def Grows (sc : Scope) (S : BackingStore → Prop) : Draft → Draft → Prop :=
  Relation.ReflTransGen (Step sc S)

variable {sc : Scope} {S : BackingStore → Prop} {d d' d'' : Draft}

theorem Grows.refl (d : Draft) : Grows sc S d d := Relation.ReflTransGen.refl

theorem Grows.trans (h : Grows sc S d d') (h' : Grows sc S d' d'') : Grows sc S d d'' :=
  Relation.ReflTransGen.trans h h'

theorem Step.grows (h : Step sc S d d') : Grows sc S d d' := Relation.ReflTransGen.single h

/-- What every step keeps is kept. -/
theorem Grows.invariant {I : Draft → Prop} (hstep : ∀ d d', Step sc S d d' → I d → I d')
    (h : Grows sc S d d') (hd : I d) : I d' := by
  induction h with
  | refl => exact hd
  | tail _ hlast ih => exact hstep _ _ hlast ih

theorem Grows.foldl {α : Type} {f : Draft → α → Draft} (hf : ∀ d a, Grows sc S d (f d a))
    (as : List α) (d : Draft) : Grows sc S d (as.foldl f d) := by
  induction as generalizing d with
  | nil => exact .refl d
  | cons a as ih => exact (hf d a).trans (ih (f d a))

/-! ## The functions of a draft -/

theorem addObject_eq (d : Draft) (sc : Scope) (a : Address) :
    d.addObject sc a =
      { d with ledger := (d.ledger.track a (sc.sizeOf a)).2 }.addNode (.object a)
        (sc.objectNode a (d.ledger.track a (sc.sizeOf a)).1) := by
  unfold addObject Scope.sizeOf Scope.objectNode
  cases sc.view.object? a <;> rfl

theorem object?_dead {a : Address} (h : sc.view.isLive a = false) (d : Draft) :
    d.object? sc a = (none, d) := by
  simp [object?, h]

/-- A live object gets its node, and nothing else happens. -/
theorem object?_live {a : Address} (h : sc.view.isLive a = true) (d : Draft) :
    ∃ i d', d.object? sc a = (some i, d') ∧ Grows sc S d d' ∧
      d'.entries.find? (.object a) = some i ∧ d'.graph.edges = d.graph.edges := by
  cases hfind : d.entries.find? (.object a) with
  | some i => exact ⟨i, d, by simp [object?, h, ensure, hfind], .refl d, hfind, rfl⟩
  | none =>
    refine ⟨(d.addObject sc a).1, (d.addObject sc a).2, by simp [object?, h, ensure, hfind],
      (Step.object h hfind).grows, ?_⟩
    simp [addObject_eq, addNode, Entries.find?_insert]

theorem grows_object? (d : Draft) (a : Address) : Grows sc S d (d.object? sc a).2 := by
  cases h : sc.view.isLive a with
  | false => rw [object?_dead h]; exact .refl d
  | true =>
    obtain ⟨i, d', heq, hgrows, -⟩ := object?_live h d
    rw [heq]
    exact hgrows

theorem grows_backingStore {store : BackingStore} (hstore : S store) (d : Draft) :
    Grows sc S d (d.backingStore store).2 := by
  rw [backingStore, ensure]
  split
  · exact .refl d
  · next hnew => exact (Step.store hstore hnew).grows

theorem grows_linkIndexed (d : Draft) (kind : EdgeKind) (parent : NodeIndex) (index : Nat)
    (child : NodeIndex) : Grows sc S d (d.linkIndexed kind parent index child) :=
  (Step.edge _).grows

theorem grows_linkNamed (d : Draft) (kind : EdgeKind) (parent : NodeIndex) (name : String)
    (child : NodeIndex) : Grows sc S d (d.linkNamed kind parent name child) :=
  (Step.intern name).grows.trans (Step.edge _).grows

theorem grows_nameIfEmpty (d : Draft) (index : NodeIndex) (name : String) :
    Grows sc S d (d.nameIfEmpty index name) :=
  (Step.name index name).grows

/-! ## What growth keeps -/

/-- Things keep their nodes. -/
theorem Step.find? {t : Thing} {i : NodeIndex} (h : Step sc S d d')
    (ht : d.entries.find? t = some i) : d'.entries.find? t = some i := by
  have hinsert : ∀ {u : Thing} (j : NodeIndex), d.entries.find? u = none →
      (d.entries.insert u j).find? t = some i := by
    intro u j hu
    have hne : u ≠ t := by rintro rfl; rw [hu] at ht; cases ht
    rw [Entries.find?_insert, if_neg hne]
    exact ht
  cases h with
  | @object a hlive hnew =>
    rw [addObject_eq]
    exact hinsert _ hnew
  | store _ hnew => exact hinsert _ hnew
  | native n _ hnew => exact hinsert _ hnew
  | edge | intern | name => exact ht

theorem Grows.find? {t : Thing} {i : NodeIndex} (h : Grows sc S d d')
    (ht : d.entries.find? t = some i) : d'.entries.find? t = some i :=
  h.invariant (fun _ _ hstep => hstep.find?) ht

/-- Every thing has a node of its own. -/
structure Distinct (d : Draft) : Prop where
  lt : ∀ t i, d.entries.find? t = some i → i < d.graph.nodeCount
  inj : ∀ t u i, d.entries.find? t = some i → d.entries.find? u = some i → t = u

theorem distinct_addNode (h : d.Distinct) (t : Thing) (n : Node) : (d.addNode t n).2.Distinct := by
  have hfind : ∀ u, (d.addNode t n).2.entries.find? u =
      if t = u then some d.graph.nodeCount else d.entries.find? u :=
    fun u => Entries.find?_insert d.entries t u d.graph.nodeCount
  constructor
  · intro u i hu
    show i < (d.graph.pushNode n).nodeCount
    rw [Graph.nodeCount_pushNode]
    rw [hfind] at hu
    split at hu
    · cases hu; exact Nat.lt_succ_self _
    · exact Nat.lt_succ_of_lt (h.lt u i hu)
  · intro u w i hu hw
    rw [hfind] at hu hw
    split at hu <;> split at hw
    · next htu htw => exact htu.symm.trans htw
    · cases hu; exact absurd (h.lt w _ hw) (Nat.lt_irrefl _)
    · cases hw; exact absurd (h.lt u _ hu) (Nat.lt_irrefl _)
    · exact h.inj u w i hu hw

theorem Distinct.withLedger (hd : d.Distinct) (l : Ledger) : Distinct { d with ledger := l } :=
  ⟨hd.lt, hd.inj⟩

/-- Where no node is added, all stay distinct. -/
theorem Distinct.of_eq (hd : d.Distinct) (hentries : d'.entries = d.entries)
    (hcount : d'.graph.nodeCount = d.graph.nodeCount) : d'.Distinct where
  lt t i ht := hcount ▸ hd.lt t i (hentries ▸ ht)
  inj t u i ht hu := hd.inj t u i (hentries ▸ ht) (hentries ▸ hu)

theorem distinct_addObject (hd : d.Distinct) (sc : Scope) (a : Address) :
    (d.addObject sc a).2.Distinct := by
  rw [addObject_eq]
  exact distinct_addNode (hd.withLedger _) _ _

theorem distinct_addBackingStore (hd : d.Distinct) (store : BackingStore) :
    (d.addBackingStore store).2.Distinct :=
  distinct_addNode (hd.withLedger _) _ _

theorem Step.distinct (h : Step sc S d d') (hd : d.Distinct) : d'.Distinct := by
  cases h with
  | object => exact distinct_addObject hd sc _
  | store => exact distinct_addBackingStore hd _
  | native n => exact distinct_addNode hd _ n
  | edge => exact hd.of_eq rfl (Graph.nodeCount_pushEdge ..)
  | intern => exact hd.of_eq rfl rfl
  | name => exact hd.of_eq rfl (Graph.nodeCount_nameIfEmpty ..)

theorem Grows.distinct (h : Grows sc S d d') (hd : d.Distinct) : d'.Distinct :=
  h.invariant (fun _ _ hstep => hstep.distinct) hd

/-! ## Roots and native objects -/

theorem grows_linkNextIndexed (d : Draft) (kind : EdgeKind) (parent child : NodeIndex) :
    Grows sc S d (d.linkNextIndexed kind parent child) :=
  grows_linkIndexed d _ _ _ _

theorem grows_linkNextNamed (d : Draft) (kind : EdgeKind) (parent child : NodeIndex) :
    Grows sc S d (d.linkNextNamed kind parent child) :=
  grows_linkNamed d _ _ _ _

theorem grows_linkSynthetic (d : Draft) : Grows sc S d d.linkSynthetic :=
  (grows_linkNextIndexed d _ _ _).trans (.foldl (fun d _ => grows_linkNextIndexed d _ _ _) _ _)

theorem grows_linkRoot (d : Draft) (r : RootRef) (child : NodeIndex) :
    Grows sc S d (d.linkRoot r child) := by
  unfold linkRoot
  split
  · exact grows_linkNextNamed d _ _ _
  · split
    · exact grows_linkNextIndexed d _ _ _
    · split
      · exact grows_linkNamed d _ _ _ _
      · exact grows_linkNextIndexed d _ _ _

theorem grows_nameBuiltin (d : Draft) (root : Root) (child : NodeIndex) :
    Grows sc S d (d.nameBuiltin root child) := by
  unfold nameBuiltin
  split
  · split
    · exact grows_nameIfEmpty d _ _
    · exact .refl d
  · exact .refl d

theorem grows_nativeGroup (d : Draft) (label : String) :
    Grows sc S d (d.nativeGroup label).2.2 := by
  unfold nativeGroup
  split
  · exact .refl d
  · next hnew => exact (Step.native _ rfl hnew).grows

theorem grows_companion (d : Draft) (c : Companion) : Grows sc S d (d.companion c).2 := by
  rw [companion, ensure]
  split
  · exact .refl d
  · next hnew => exact (Step.native _ rfl hnew).grows

theorem grows_linkWrapper (index : NodeIndex) (d : Draft) (wrapper : Address) :
    Grows sc S d (linkWrapper index d wrapper) := by
  unfold linkWrapper
  split
  · exact (grows_linkNamed d _ _ _ _).trans (grows_linkNextIndexed _ _ _ _)
  · exact .refl d

theorem grows_addCompanion (d : Draft) (c : Companion) :
    Grows sc S d (d.addCompanion c).2 := by
  have hnodes : Grows sc S d ((d.nativeGroup c.group).2.2.companion c).2 :=
    (grows_nativeGroup d c.group).trans (grows_companion _ c)
  refine hnodes.trans (.trans ?_ (.foldl (grows_linkWrapper _) _ _))
  exact grows_linkNextNamed _ _ _ _

theorem grows_linkGroups (d : Draft) (groups : List NodeIndex) :
    Grows sc S d (d.linkGroups groups) :=
  .foldl (fun d _ => grows_linkNextIndexed d _ _ _) _ _

end Draft

/-! ## Reading objects -/

/-- The memory outside the heap that an emission is about. -/
def Emission.store? : Emission → Option BackingStore
  | .backingStore _ store => some store
  | _ => none

/-- All memory outside the heap that a script is about satisfies `S`. -/
def Script.Owns (S : BackingStore → Prop) : Script → Prop
  | .done => True
  | .emit _ e rest => (∀ store ∈ e.store?, S store) ∧ rest.Owns S
  | .look next => ∀ sight, (next sight).Owns S

theorem Script.owns_any (script : Script) : script.Owns Any := by
  induction script with
  | done => trivial
  | emit _ e rest ih => exact ⟨fun _ _ => trivial, ih⟩
  | look next ih => exact ih

/-- All memory outside the heap that is spoken of when an object is read satisfies `S`. -/
def Handlers.Owns (handlers : Handlers) (v : View) (o : HeapObject) (S : BackingStore → Prop) :
    Prop :=
  ∀ handler, handlers.find? o.tag = some handler → ∀ node, (handler v o node).Owns S

theorem Handlers.owns_any (handlers : Handlers) (v : View) (o : HeapObject) :
    handlers.Owns v o Any :=
  fun handler _ node => (handler v o node).owns_any

namespace Survey

open Draft (Grows)

variable {sc : Scope} {S : BackingStore → Prop}

theorem withTarget_dead {a : Address} (h : sc.view.isLive a = false) (s : Survey)
    (next : Address → NodeIndex → Survey → Survey) : s.withTarget sc (.ref a) next = s := by
  simp [withTarget, object?, Draft.object?_dead h]

theorem withTarget_live {a : Address} (h : sc.view.isLive a = true) (s : Survey)
    (next : Address → NodeIndex → Survey → Survey) :
    ∃ i d', s.withTarget sc (.ref a) next = next a i { s with draft := d' } ∧
      Grows sc S s.draft d' ∧ d'.entries.find? (.object a) = some i ∧
      d'.graph.edges = s.draft.graph.edges := by
  obtain ⟨i, d', heq, hgrows, hfind, hedges⟩ := Draft.object?_live h s.draft
  refine ⟨i, d', ?_, hgrows, hfind, hedges⟩
  simp [withTarget, object?, heq]

theorem grows_withTarget {next : Address → NodeIndex → Survey → Survey}
    (hnext : ∀ a i s, Grows sc S s.draft (next a i s).draft) (s : Survey) (value : Value) :
    Grows sc S s.draft (s.withTarget sc value next).draft := by
  cases value with
  | small n => exact .refl _
  | ref a =>
    cases h : sc.view.isLive a with
    | false => rw [withTarget_dead h]; exact .refl _
    | true =>
      obtain ⟨i, d', heq, hgrows, -⟩ := withTarget_live h s next
      rw [heq]
      exact hgrows.trans (hnext a i { s with draft := d' })

@[simp] theorem draft_mark (s : Survey) (slot : Nat) : (s.mark slot).draft = s.draft := rfl

@[simp] theorem draft_markIf (s : Survey) (slot : Option Nat) :
    (s.markIf slot).draft = s.draft := by
  cases slot <;> rfl

theorem grows_link {parent child : NodeIndex} {draw : Draft → Draft}
    (hdraw : ∀ d, Grows sc S d (draw d)) (s : Survey) :
    Grows sc S s.draft (s.link parent child draw).draft := by
  rw [draft_link]
  split
  · exact hdraw s.draft
  · exact .refl _

theorem grows_linkNamed (s : Survey) (kind : EdgeKind) (parent : NodeIndex) (name : String)
    (child : NodeIndex) : Grows sc S s.draft (s.linkNamed kind parent name child).draft :=
  grows_link (fun d => d.grows_linkNamed _ _ _ _) s

theorem grows_linkIndexed (s : Survey) (kind : EdgeKind) (parent : NodeIndex) (index : Nat)
    (child : NodeIndex) : Grows sc S s.draft (s.linkIndexed kind parent index child).draft :=
  grows_link (fun d => d.grows_linkIndexed _ _ _ _) s

theorem grows_linkEssential (s : Survey) (kind : EdgeKind) (parent : NodeIndex) (name : String)
    (value : Value) (slot : Option Nat) :
    Grows sc S s.draft (s.linkEssential sc kind parent name value slot).draft := by
  refine grows_withTarget (fun a i s => ?_) s value
  rw [draft_markIf]
  split
  · exact s.grows_linkNamed _ _ _ _
  · exact .refl _

theorem grows_emit (parent : NodeIndex) (s : Survey) {e : Emission}
    (hS : ∀ store ∈ e.store?, S store) : Grows sc S s.draft (s.emit sc parent e).draft := by
  cases e with
  | internal name value slot => exact s.grows_linkEssential _ _ name value slot
  | weak name value slot => exact s.grows_linkEssential _ _ name value slot
  | context name value slot =>
    refine grows_withTarget (fun a i s => ?_) s value
    rw [draft_mark]
    exact s.grows_linkNamed _ _ _ _
  | property key value lead slot =>
    refine grows_withTarget (fun a i s => ?_) s value
    rw [draft_markIf]
    exact s.grows_linkNamed _ _ _ _
  | element index value slot =>
    refine grows_withTarget (fun a i s => ?_) s value
    rw [draft_markIf]
    exact s.grows_linkIndexed _ _ _ _
  | shortcut name value =>
    exact grows_withTarget (fun a i s => s.grows_linkNamed _ _ _ _) s value
  | backingStore name store =>
    exact (Draft.grows_backingStore (hS store rfl) s.draft).trans
      (grows_linkNamed { s with draft := (s.draft.backingStore store).2 } _ _ _ _)
  | node name target => exact s.grows_linkNamed _ _ _ _
  | tag value name =>
    cases value with
    | small n => exact .refl _
    | ref a =>
      simp only [emit]
      split
      · exact grows_withTarget (fun a i s => Draft.grows_nameIfEmpty _ i name) s (.ref a)
      · exact .refl _
  | container value kind =>
    cases value with
    | small n => exact .refl _
    | ref a =>
      simp only [emit]
      split
      · split <;> exact .refl _
      · exact .refl _
  | silence slot => exact .refl _

theorem grows_follow {script : Script} (hS : script.Owns S) (s : Survey) :
    Grows sc S s.draft (follow sc script s).draft := by
  induction script generalizing s with
  | done => exact .refl _
  | emit parent e rest ih => exact (grows_emit parent s hS.1).trans (ih hS.2 _)
  | look next ih => exact ih s.sight (hS s.sight) s

theorem grows_linkHidden (s : Survey) (parent : NodeIndex) (slot : Nat) (child : NodeIndex) :
    Grows sc S s.draft (s.linkHidden parent slot child).draft := by
  unfold linkHidden
  split
  · exact s.grows_linkIndexed _ _ _ _
  · exact .refl _

theorem grows_hide (parent : NodeIndex) (slot : Nat) (values : List Value) (s : Survey) :
    Grows sc S s.draft (hide sc parent slot values s).draft := by
  induction values generalizing slot s with
  | nil => exact .refl _
  | cons value values ih =>
    simp only [hide]
    refine .trans ?_ (ih _ _)
    split
    · exact .refl _
    · refine grows_withTarget (fun a i s => ?_) { s with marks := (s.marks.take slot).2 } value
      split
      · exact s.grows_linkHidden _ _ _
      · exact .refl _

/-- Follow the script of an object's handler. Nothing is explained before. -/
def recite (sc : Scope) (handlers : Handlers) (o : HeapObject) (parent : NodeIndex) (s : Survey) :
    Survey :=
  let s := { s with marks := Marks.reset o.slots.length }
  match handlers.find? o.tag with
  | some handler => follow sc (handler sc.view o parent) s
  | none => s

/-- The edge to an object's shape. -/
def linkShape (sc : Scope) (o : HeapObject) (parent : NodeIndex) (s : Survey) : Survey :=
  match o.shape with
  | some shape => s.linkEssential sc .internal parent "map" (.ref shape) none
  | none => s

theorem read_eq (sc : Scope) (handlers : Handlers) (o : HeapObject) (parent : NodeIndex)
    (s : Survey) :
    s.read sc handlers o parent =
      hide sc parent 0 o.slots ((s.recite sc handlers o parent).linkShape sc o parent) := rfl

theorem grows_recite (parent : NodeIndex) {handlers : Handlers} {o : HeapObject}
    (hS : handlers.Owns sc.view o S) (s : Survey) :
    Grows sc S s.draft (s.recite sc handlers o parent).draft := by
  unfold recite
  split
  · next handler hfind =>
    exact grows_follow (hS handler hfind parent) { s with marks := Marks.reset o.slots.length }
  · exact .refl _

theorem grows_linkShape (parent : NodeIndex) (o : HeapObject) (s : Survey) :
    Grows sc S s.draft (s.linkShape sc o parent).draft := by
  unfold linkShape
  split
  · exact s.grows_linkEssential _ _ _ _ _
  · exact .refl _

theorem grows_read (parent : NodeIndex) {handlers : Handlers} {o : HeapObject}
    (hS : handlers.Owns sc.view o S) (s : Survey) :
    Grows sc S s.draft (s.read sc handlers o parent).draft := by
  rw [read_eq]
  exact ((grows_recite parent hS s).trans (grows_linkShape parent o _)).trans
    (grows_hide parent _ _ _)

/-- The survey once the object at an address has its node. -/
def seen (sc : Scope) (s : Survey) (a : Address) : Survey :=
  { s with draft := (s.draft.object? sc a).2 }

theorem object?_eq (s : Survey) (a : Address) :
    s.object? sc a = ((s.draft.object? sc a).1, s.seen sc a) := rfl

theorem grows_seen (s : Survey) (a : Address) : Grows sc S s.draft (s.seen sc a).draft :=
  Draft.grows_object? s.draft a

theorem visit_dead {o : HeapObject} (h : sc.view.isLive o.address = false) (handlers : Handlers)
    (pass : Pass) (s : Survey) : s.visit sc handlers pass o = s := by
  simp [visit, object?, Draft.object?_dead h]

theorem visit_live {o : HeapObject} (h : sc.view.isLive o.address = true) (handlers : Handlers)
    (pass : Pass) (s : Survey) :
    ∃ i d', Grows sc S s.draft d' ∧ d'.entries.find? (.object o.address) = some i ∧
      d'.graph.edges = s.draft.graph.edges ∧
      s.visit sc handlers pass o =
        if pass.visits o.tag then { s with draft := d' }.read sc handlers o i
        else { s with draft := d' } := by
  obtain ⟨i, d', heq, hgrows, hfind, hedges⟩ := Draft.object?_live h s.draft
  refine ⟨i, d', hgrows, hfind, hedges, ?_⟩
  simp [visit, object?, heq]

theorem grows_visit {handlers : Handlers} {o : HeapObject} (hS : handlers.Owns sc.view o S)
    (pass : Pass) (s : Survey) :
    Grows sc S s.draft (s.visit sc handlers pass o).draft := by
  cases h : sc.view.isLive o.address with
  | false => rw [visit_dead h]; exact .refl _
  | true =>
    obtain ⟨i, d', hgrows, -, -, heq⟩ := visit_live h handlers pass s
    rw [heq]
    split
    · exact hgrows.trans (grows_read i hS { s with draft := d' })
    · exact hgrows

theorem grows_linkGlobal (s : Survey) (global : Address) :
    Grows sc S s.draft (s.linkGlobal sc global).draft := by
  unfold linkGlobal
  split
  · exact .refl _
  · rw [object?_eq]
    have hseen : Grows sc S s.draft
        (seen sc { s with globals := global :: s.globals } global).draft :=
      grows_seen { s with globals := global :: s.globals } global
    cases (Draft.object? s.draft sc global).1 with
    | none => exact hseen
    | some child =>
      exact hseen.trans (Draft.grows_linkNextNamed _ _ _ _)

theorem grows_addRoot (s : Survey) (r : RootRef) :
    Grows sc S s.draft (addRoot sc s r).draft := by
  unfold addRoot
  rw [object?_eq]
  have hseen : Grows sc S s.draft (s.seen sc r.root.target).draft := grows_seen s r.root.target
  cases (s.draft.object? sc r.root.target).1 with
  | none => exact hseen
  | some child =>
    have hlink := (hseen.trans (Draft.grows_nameBuiltin _ r.root child)).trans
      (Draft.grows_linkRoot _ r child)
    dsimp only
    generalize hs' : ({ s.seen sc r.root.target with
      draft := ((s.seen sc r.root.target).draft.nameBuiltin r.root child).linkRoot r child } :
        Survey) = s'
    have hdraft : Grows sc S s.draft s'.draft := hs' ▸ hlink
    split
    · exact hdraft
    · split
      · exact hdraft.trans (grows_linkGlobal s' _)
      · exact hdraft

theorem grows_addRoots (s : Survey) :
    Grows sc S s.draft (s.addRoots sc).draft := by
  have hfold : ∀ (rs : List RootRef) (s : Survey),
      Grows sc S s.draft (rs.foldl (addRoot sc) s).draft := by
    intro rs
    induction rs with
    | nil => intro s; exact .refl _
    | cons r rs ih => intro s; exact (grows_addRoot s r).trans (ih _)
  rw [addRoots]
  exact (Draft.grows_linkSynthetic s.draft).trans
    (hfold _ { s with draft := s.draft.linkSynthetic })

end Survey

/-! ## Walks -/

namespace Walk

open Draft (Grows)

variable {sc : Scope}

theorem grows_visitAll (handlers : Handlers) (pass : Pass) (os : List HeapObject) (w : Walk) :
    Grows sc Any w.survey.draft (visitAll sc handlers pass os w).survey.draft := by
  induction os generalizing w with
  | nil => exact .refl _
  | cons o os ih =>
    rw [visitAll]
    split
    · exact .refl _
    · exact (Survey.grows_visit (handlers.owns_any sc.view o) pass w.survey).trans
        (ih { w with survey := w.survey.visit sc handlers pass o }.tick)

theorem grows_addCompanions (groups : List NodeIndex) (cs : List Companion) (w : Walk) :
    Grows sc Any w.survey.draft (addCompanions groups cs w).survey.draft := by
  induction cs generalizing groups w with
  | nil =>
    rw [addCompanions]
    split
    · exact .refl _
    · exact Draft.grows_linkGroups _ groups
  | cons c cs ih =>
    rw [addCompanions]
    split
    · exact .refl _
    · have hstep : Grows sc Any w.survey.draft (w.survey.draft.addCompanion c).2 :=
        Draft.grows_addCompanion w.survey.draft c
      exact hstep.trans (ih _ (tick { w with
        survey := { w.survey with draft := (w.survey.draft.addCompanion c).2 } }))

end Walk

end ManagedHeap
