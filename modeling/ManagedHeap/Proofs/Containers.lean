import ManagedHeap.Proofs.Completion
import ManagedHeap.Proofs.Following

/-!
# What owners say about containers

Weak collections, shapes and property cells say how an array that they refer to is to be read.
They are read in the first pass and arrays in the second, so an array is read with all that its
owners say in mind, and the last of them prevails: `View.containerKind?`.
-/
namespace ManagedHeap

namespace HeapObject

/-- The slots for containers, and what the object says about these. -/
def containerSlots (o : HeapObject) : List (Nat × ContainerKind) :=
  match o.tag, o.detail with
  | .weakCollection, .weakCollection table => [(table, .weakCollectionTable)]
  | .shape, .shape _ _ _ transitions => transitions.toList.map (·, .weakArray)
  | .propertyCell, .propertyCell _ dependentCode => dependentCode.toList.map (·, .weakArray)
  | _, _ => []

/-- The containers that an object owns, and what it says about these. -/
def ownedContainers (v : View) (o : HeapObject) : List (Address × ContainerKind) :=
  o.containerSlots.flatMap fun (slot, kind) =>
    ((o.slot? slot).bind fun value => (Emission.container value kind).container? v).toList

theorem ownedContainers_eq_nil {o : HeapObject} (h : o.tag.isContainer = true) (v : View) :
    o.ownedContainers v = [] := by
  have hslots : o.containerSlots = [] := by
    unfold containerSlots
    split
    · next htag _ => rw [htag] at h; cases h
    · next htag _ => rw [htag] at h; cases h
    · next htag _ => rw [htag] at h; cases h
    · rfl
  rw [ownedContainers, hslots, List.flatMap_nil]

end HeapObject

/-- What the owners of a container say about it: the last one that is visited prevails. -/
def View.containerKind? (v : View) (a : Address) : Option ContainerKind :=
  let said := (v.live.filter fun o => v.isLive o.address).flatMap (·.ownedContainers v)
  (said.reverse.find? fun p => p.1 = a).map (·.2)

namespace Emission

variable {v : View} {o : HeapObject} {s : Nat}

/-- What a list of emissions says about containers. -/
def containers (v : View) (es : List Emission) : List (Address × ContainerKind) :=
  es.filterMap (·.container? v)

@[simp] theorem containers_nil : containers v [] = [] := rfl

@[simp] theorem containers_append (es es' : List Emission) :
    containers v (es ++ es') = containers v es ++ containers v es' :=
  List.filterMap_append

/-- Emissions that say nothing about containers. -/
theorem containers_eq_nil {es : List Emission} (h : ∀ e ∈ es, e.container? v = none) :
    containers v es = [] :=
  List.filterMap_eq_nil_iff.mpr h

theorem containers_slot {f : Value → Emission} (hf : ∀ w, (f w).container? v = none) :
    containers v (match o.slot? s with | some w => [f w] | none => []) = [] := by
  split
  · exact containers_eq_nil (by simpa using hf _)
  · rfl

@[simp] theorem containers_internalSlot (name : String) :
    containers v (o.internalSlot name s) = [] :=
  containers_slot fun _ => rfl

@[simp] theorem containers_weakSlot (name : String) : containers v (o.weakSlot name s) = [] :=
  containers_slot fun _ => rfl

@[simp] theorem containers_contextSlot (name : String) :
    containers v (o.contextSlot name s) = [] :=
  containers_slot fun _ => rfl

@[simp] theorem containers_propertySlot (name : String) :
    containers v (o.propertySlot name s) = [] :=
  containers_slot fun _ => rfl

@[simp] theorem containers_tagSlot (name : String) : containers v (o.tagSlot s name) = [] :=
  containers_slot fun _ => rfl

@[simp] theorem containers_taggedSlot (name tag : String) :
    containers v (o.taggedSlot name tag s) = [] := by
  simp [HeapObject.taggedSlot]

theorem containers_containerSlot (kind : ContainerKind) :
    containers v (o.containerSlot s kind) =
      ((o.slot? s).bind fun value => (Emission.container value kind).container? v).toList := by
  unfold HeapObject.containerSlot
  cases o.slot? s with
  | none => rfl
  | some w =>
    simp only [containers, List.filterMap_cons, List.filterMap_nil, Option.bind_some]
    cases (Emission.container w kind).container? v <;> rfl

@[simp] theorem containers_flatMap {α : Type} (as : List α) (f : α → List Emission) :
    containers v (as.flatMap f) = as.flatMap fun a => containers v (f a) :=
  List.filterMap_flatMap ..

@[simp] theorem containers_optionally (slot : Option Nat) (f : Nat → List Emission) :
    containers v (optionally slot f) = slot.toList.flatMap fun s => containers v (f s) := by
  cases slot <;> simp [optionally]

theorem containers_map_eq_nil {α : Type} {as : List α} {f : α → Emission}
    (h : ∀ a, (f a).container? v = none) : containers v (as.map f) = [] :=
  containers_eq_nil (List.forall_mem_map.mpr fun a _ => h a)

@[simp] theorem containers_argumentEmissions : containers v (o.argumentEmissions v s) = [] := by
  unfold HeapObject.argumentEmissions
  split
  · refine containers_eq_nil fun e he => ?_
    obtain ⟨j, hj, rfl⟩ := List.mem_mapIdx.mp he
    rfl
  · rfl

theorem containers_field {f : ContextField} :
    containers v (if f.isWeak then o.weakSlot f.name f.slot else o.internalSlot f.name f.slot) =
      [] := by
  split <;> simp

theorem containers_detailEmissions : containers v (o.detailEmissions v) = o.ownedContainers v := by
  have hsilence : ∀ s, containers v [.silence s] = [] := fun _ => rfl
  have hstore : ∀ name store, containers v [.backingStore name store] = [] := fun _ _ => rfl
  unfold HeapObject.detailEmissions HeapObject.ownedContainers HeapObject.containerSlots
  split <;> simp [containers_containerSlot, containers_field, List.flatMap_map, *]

theorem containers_propertyEmissions (p : Property) :
    containers v (HeapObject.propertyEmissions v p) = [] := by
  have haccessor : ∀ {pair : HeapObject} {lead : String} {slot : Nat},
      containers v (HeapObject.accessorEmissions v p pair lead slot) = [] := by
    intro pair lead slot
    unfold HeapObject.accessorEmissions
    split
    · rfl
    · split
      · split <;> rfl
      · rfl
  unfold HeapObject.propertyEmissions HeapObject.pairEmissions
  split
  · split
    · rfl
    · split
      · rw [← List.singleton_append, containers_append, containers_append, haccessor, haccessor]
        rfl
      · rfl
  · rfl

theorem containers_embedderEmissions (ordinal : Nat) (slots : List Nat) :
    containers v (o.embedderEmissions ordinal slots) = [] := by
  induction slots generalizing ordinal with
  | nil => rfl
  | cons slot slots ih => simp [HeapObject.embedderEmissions, ih]

theorem containers_layoutEmissions : containers v (o.layoutEmissions v) = [] := by
  unfold HeapObject.layoutEmissions
  split
  · rfl
  · next l _ =>
    have hproperties : containers v (l.properties.flatMap (HeapObject.propertyEmissions v)) = [] :=
      by simp [containers_propertyEmissions]
    have helements : containers v (l.elements.map fun e => .element e.index e.value e.slot) = [] :=
      containers_map_eq_nil fun _ => rfl
    have hprototype : containers v
        (l.prototype.toList.map fun p => .property (.name "__proto__") p "" none) = [] :=
      containers_map_eq_nil fun _ => rfl
    simp [hproperties, helements, hprototype, containers_embedderEmissions]

/-- What the built-in handlers say about containers. -/
theorem containers_emissions (kind : Option ContainerKind) :
    containers v (o.emissions v kind) = o.ownedContainers v := by
  unfold HeapObject.emissions
  split
  · next htag =>
    rw [HeapObject.ownedContainers_eq_nil (by rw [htag]; rfl)]
    unfold HeapObject.arrayEmissions
    split <;> simp [HeapObject.weakNumbered, HeapObject.internalNumbered]
  · rw [containers_append, containers_detailEmissions]
    split
    · rw [containers_layoutEmissions, List.append_nil]
    · rw [containers_nil, List.append_nil]

end Emission

theorem Pass.visits_first (tag : Tag) : Pass.first.visits tag = !tag.isContainer := by
  cases h : tag.isContainer <;> simp [visits, h]

theorem Pass.visits_second (tag : Tag) : Pass.second.visits tag = tag.isContainer := by
  cases h : tag.isContainer <;> simp [visits, h]

namespace Survey

open Emission (containers_emissions)

variable {sc : Scope}

theorem containers_linkEssential (kind : EdgeKind) (parent : NodeIndex) (name : String)
    (value : Value) (slot : Option Nat) (s : Survey) :
    (s.linkEssential sc kind parent name value slot).containers = s.containers := by
  rw [linkEssential, withTarget_apply (f := containers) (k := id) (fun _ _ => rfl)]
  · split <;> rfl
  · intro a i s
    have hlink : (s.linkNamed kind parent name i).containers = s.containers := containers_link ..
    cases slot <;> split <;> first | exact hlink | rfl

theorem containers_hide (parent : NodeIndex) (slot : Nat) (values : List Value) (s : Survey) :
    (hide sc parent slot values s).containers = s.containers := by
  induction values generalizing slot s with
  | nil => rfl
  | cons value values ih =>
    simp only [hide]
    rw [ih]
    split
    · rfl
    · rw [withTarget_apply (f := containers) (k := id) (fun _ _ => rfl)]
      · split <;> rfl
      · intro a i s
        split
        · exact containers_linkHidden ..
        · rfl

/-- Tell what was said about containers. -/
def told (said : List (Address × ContainerKind)) (m : Std.TreeMap Address ContainerKind) :
    Std.TreeMap Address ContainerKind :=
  said.foldl (fun m p => m.insert p.1 p.2) m

theorem containers_read (o : HeapObject) (parent : NodeIndex) (s : Survey) :
    (s.read sc .builtin o parent).containers = told (o.ownedContainers sc.view) s.containers := by
  have hshape : ∀ s : Survey, (s.linkShape sc o parent).containers = s.containers := by
    intro s
    unfold linkShape
    split
    · exact containers_linkEssential ..
    · rfl
  rw [read_eq, containers_hide, hshape, recite_builtin, containers_follow, told,
    ← containers_emissions s.containers[o.address]?]
  rfl

theorem containers_visit_first (o : HeapObject) (s : Survey) :
    (s.visit sc .builtin .first o).containers =
      if sc.view.isLive o.address then told (o.ownedContainers sc.view) s.containers
      else s.containers := by
  cases hlive : sc.view.isLive o.address with
  | false => rw [visit_dead hlive]; rfl
  | true =>
    obtain ⟨i, d', -, -, -, heq⟩ := visit_live (S := Any) hlive .builtin .first s
    rw [heq, if_pos rfl]
    cases hvisits : Pass.first.visits o.tag with
    | true => exact containers_read o i { s with draft := d' }
    | false =>
      rw [Pass.visits_first, Bool.not_eq_eq_eq_not, Bool.not_false] at hvisits
      rw [HeapObject.ownedContainers_eq_nil hvisits]
      rfl

theorem containers_visit_second (o : HeapObject) (s : Survey) :
    (s.visit sc .builtin .second o).containers = s.containers := by
  cases hlive : sc.view.isLive o.address with
  | false => rw [visit_dead hlive]
  | true =>
    obtain ⟨i, d', -, -, -, heq⟩ := visit_live (S := Any) hlive .builtin .second s
    rw [heq]
    cases hvisits : Pass.second.visits o.tag with
    | true =>
      rw [Pass.visits_second] at hvisits
      rw [if_pos rfl, containers_read, HeapObject.ownedContainers_eq_nil hvisits]
      rfl
    | false => rfl

theorem containers_visitAll_first (os : List HeapObject) (s : Survey) :
    (s.visitAll sc .builtin .first os).containers =
      told ((os.filter fun o => sc.view.isLive o.address).flatMap (·.ownedContainers sc.view))
        s.containers := by
  induction os generalizing s with
  | nil => rfl
  | cons o os ih =>
    rw [visitAll, List.foldl_cons]
    refine (ih _).trans ?_
    rw [containers_visit_first]
    cases hlive : sc.view.isLive o.address with
    | false => rw [List.filter_cons_of_neg (by simp [hlive])]; rfl
    | true =>
      rw [List.filter_cons_of_pos (by simpa using hlive), List.flatMap_cons]
      simp only [told, List.foldl_append]
      rfl

theorem getElem?_told (said : List (Address × ContainerKind))
    (m : Std.TreeMap Address ContainerKind) (a : Address) :
    (told said m)[a]? = ((said.reverse.find? fun p => p.1 = a).map (·.2)).or m[a]? := by
  induction said generalizing m with
  | nil => rfl
  | cons p said ih =>
    rw [told, List.foldl_cons]
    refine (ih _).trans ?_
    rw [List.reverse_cons, List.find?_append, Std.TreeMap.getElem?_insert]
    cases said.reverse.find? fun p => decide (p.1 = a) with
    | some q => rfl
    | none => by_cases h : p.1 = a <;> simp [h]

/-- No root says anything about a container. -/
theorem containers_addRoots (s : Survey) : (s.addRoots sc).containers = s.containers := by
  have hglobal : ∀ (s : Survey) (global : Address),
      (s.linkGlobal sc global).containers = s.containers := by
    intro s global
    unfold linkGlobal
    split
    · rfl
    · rw [object?_eq]
      cases (Draft.object? s.draft sc global).1 <;> rfl
  have hroot : ∀ (s : Survey) (r : RootRef), (addRoot sc s r).containers = s.containers := by
    intro s r
    unfold addRoot
    rw [object?_eq]
    cases (s.draft.object? sc r.root.target).1 with
    | none => rfl
    | some child =>
      dsimp only
      split
      · rfl
      · split
        · exact hglobal _ _
        · rfl
  have hfold : ∀ (rs : List RootRef) (s : Survey),
      (rs.foldl (addRoot sc) s).containers = s.containers := by
    intro rs
    induction rs with
    | nil => intro s; rfl
    | cons r rs ih => intro s; exact (ih _).trans (hroot s r)
  exact hfold _ _

end Survey

/-- After the first pass all that owners have to say is known. -/
theorem Capture.containers_onceRead {c : Capture} (hc : c.handlers = .builtin) (v : View)
    (a : Address) : (c.onceRead v).containers[a]? = v.containerKind? a := by
  rw [onceRead, hc, Survey.containers_visitAll_first, Survey.getElem?_told, rooted,
    Survey.containers_addRoots]
  simp [View.containerKind?, scope]

end ManagedHeap
