import ManagedHeap.Capture.Handlers

/-!
# Explained slots

Which slots of an object the built-in handlers explain can be read off its type, its detail and
its layout: `explainedSlots`. The emissions of the handlers name just these slots, and what they
say about a slot is about the value in it, so long as properties and elements have the values of
their slots.
-/
namespace ManagedHeap

/-! ## What is named by type, detail and layout -/

/-- Types whose properties, elements and stores are read. -/
def Tag.hasLayout : Tag → Bool
  | .object | .regexp | .globalObject | .function | .boundFunction | .collection | .weakCollection
  | .promise | .arrayBuffer | .arrayBufferView => true
  | _ => false

/-- Types whose detail is read. -/
def Tag.hasDetail : Tag → Bool
  | .object | .regexp | .string | .fixedArray | .byteArray | .heapNumber | .oddball | .foreign
  | .custom _ => false
  | _ => true

namespace HeapObject

/-- The slot that links an object to the next one of a list that keeps nothing alive. -/
def listLink? (o : HeapObject) : Option Nat :=
  match o.tag, o.detail with
  | .allocationSite, .allocationSite _ _ weakNext => weakNext
  | .context, .context c | .nativeContext, .context c => c.nextContextLink
  | _, _ => none

/-- What the built-in handlers say about an object, given what owners said about it. -/
def emissions (v : View) (o : HeapObject) (kind : Option ContainerKind) : List Emission :=
  if o.tag = .fixedArray then o.arrayEmissions kind
  else o.detailEmissions v ++ if o.tag.hasLayout then o.layoutEmissions v else []

end HeapObject

theorem Handlers.find?_builtin (tag : Tag) :
    Handlers.builtin.find? tag =
      if tag = .fixedArray then some .array
      else match tag.hasDetail, tag.hasLayout with
        | true, true => some .detailAndLayout
        | true, false => some .detail
        | false, true => some .layout
        | false, false => none := by
  cases tag <;> rfl

theorem HeapObject.detailEmissions_eq_nil {o : HeapObject} (h : o.tag.hasDetail = false)
    (v : View) : o.detailEmissions v = [] := by
  unfold detailEmissions
  split <;> simp_all [Tag.hasDetail]

/-! ## Slots that emissions name -/

namespace Emission

/-- The slot that an emission names. -/
def slot? : Emission → Option Nat
  | .internal _ _ slot | .weak _ _ slot | .property _ _ _ slot | .element _ _ slot => slot
  | .context _ _ slot | .silence slot => some slot
  | .shortcut _ _ | .backingStore _ _ | .node _ _ | .tag _ _ | .container _ _ => none

/-- Some emission of a list names a slot. -/
def Names (es : List Emission) (i : Nat) : Prop := ∃ e ∈ es, e.slot? = some i

variable {es es' : List Emission} {i s : Nat} {o : HeapObject}

@[simp] theorem names_nil : ¬ Names [] i := by simp [Names]

@[simp] theorem names_cons {e : Emission} : Names (e :: es) i ↔ e.slot? = some i ∨ Names es i := by
  simp [Names]

@[simp] theorem names_flatMap {α : Type} {as : List α} {f : α → List Emission} :
    Names (as.flatMap f) i ↔ ∃ a ∈ as, Names (f a) i := by
  simp only [Names, List.mem_flatMap]
  grind

@[simp] theorem names_optionally {slot : Option Nat} {f : Nat → List Emission} :
    Names (optionally slot f) i ↔ ∃ s ∈ slot, Names (f s) i := by
  cases slot <;> simp [optionally]

@[simp] theorem names_tagSlot {name : String} : ¬ Names (o.tagSlot s name) i := by
  unfold HeapObject.tagSlot
  split <;> simp [slot?]

@[simp] theorem names_containerSlot {kind : ContainerKind} :
    ¬ Names (o.containerSlot s kind) i := by
  unfold HeapObject.containerSlot
  split <;> simp [slot?]

@[simp] theorem names_argumentEmissions {v : View} : ¬ Names (o.argumentEmissions v s) i := by
  unfold HeapObject.argumentEmissions
  split
  · simp only [Names, List.mem_mapIdx]
    rintro ⟨e, ⟨j, hj, rfl⟩, he⟩
    cases he
  · exact names_nil

@[simp] theorem names_map {α : Type} {as : List α} {f : α → Emission} :
    Names (as.map f) i ↔ ∃ a ∈ as, (f a).slot? = some i := by
  simp only [Names, List.mem_map]
  grind

@[simp] theorem names_accessorEmissions {v : View} {p : Property} {pair : HeapObject}
    {lead : String} : ¬ Names (HeapObject.accessorEmissions v p pair lead s) i := by
  unfold HeapObject.accessorEmissions
  split
  · exact names_nil
  · split
    · split <;> simp [slot?]
    · exact names_nil

/-- What the built-in handlers can say about an object. -/
inductive Sayable (o : HeapObject) : Emission → Prop where
  | internal {name : String} {s : Nat} {w : Value} (hw : o.slot? s = some w) :
    Sayable o (.internal name w (some s))
  | weak {name : String} {s : Nat} {w : Value} (hw : o.slot? s = some w) :
    Sayable o (.weak name w (some s))
  | context {name : String} {s : Nat} {w : Value} (hw : o.slot? s = some w) :
    Sayable o (.context name w s)
  | slotProperty {key : PropertyKey} {s : Nat} {w : Value} (hw : o.slot? s = some w) :
    Sayable o (.property key w "" (some s))
  | property {l : Layout} {p : Property} (hl : o.layout = some l) (hp : p ∈ l.properties) :
    Sayable o (.property p.key p.value "" p.slot)
  /-- A getter, a setter or a prototype, which is in no slot. -/
  | outside (key : PropertyKey) (value : Value) (lead : String) :
    Sayable o (.property key value lead none)
  | element {l : Layout} {e : Element} (hl : o.layout = some l) (he : e ∈ l.elements) :
    Sayable o (.element e.index e.value e.slot)
  | shortcut (name : String) (value : Value) : Sayable o (.shortcut name value)
  | backingStore {name : String} {store : BackingStore} (hstore : o.backingStore? = some store) :
    Sayable o (.backingStore name store)
  | tag (value : Value) (name : String) : Sayable o (.tag value name)
  | container (value : Value) (kind : ContainerKind) : Sayable o (.container value kind)
  | silence {s : Nat} (hlink : o.listLink? = some s) : Sayable o (.silence s)

/-- Every emission of a list can be said. -/
def AllSayable (o : HeapObject) (es : List Emission) : Prop := ∀ e ∈ es, Sayable o e

@[simp] theorem allSayable_nil : AllSayable o [] := by simp [AllSayable]

@[simp] theorem allSayable_cons {e : Emission} :
    AllSayable o (e :: es) ↔ Sayable o e ∧ AllSayable o es := by
  simp [AllSayable]

@[simp] theorem allSayable_append :
    AllSayable o (es ++ es') ↔ AllSayable o es ∧ AllSayable o es' :=
  List.forall_mem_append

@[simp] theorem allSayable_flatMap {α : Type} {as : List α} {f : α → List Emission} :
    AllSayable o (as.flatMap f) ↔ ∀ a ∈ as, AllSayable o (f a) :=
  List.forall_mem_flatMap

@[simp] theorem allSayable_map {α : Type} {as : List α} {f : α → Emission} :
    AllSayable o (as.map f) ↔ ∀ a ∈ as, Sayable o (f a) :=
  List.forall_mem_map

@[simp] theorem allSayable_optionally {slot : Option Nat} {f : Nat → List Emission} :
    AllSayable o (optionally slot f) ↔ ∀ s ∈ slot, AllSayable o (f s) := by
  cases slot <;> simp [optionally]

theorem allSayable_slot {f : Value → Emission} (hf : ∀ w, o.slot? s = some w → Sayable o (f w)) :
    AllSayable o (match o.slot? s with | some w => [f w] | none => []) := by
  split
  · next w hw => simpa using hf w hw
  · exact allSayable_nil

@[simp] theorem allSayable_internalSlot {name : String} : AllSayable o (o.internalSlot name s) :=
  allSayable_slot fun _ => .internal

@[simp] theorem allSayable_weakSlot {name : String} : AllSayable o (o.weakSlot name s) :=
  allSayable_slot fun _ => .weak

@[simp] theorem allSayable_propertySlot {name : String} : AllSayable o (o.propertySlot name s) :=
  allSayable_slot fun _ => .slotProperty

@[simp] theorem allSayable_contextSlot {name : String} : AllSayable o (o.contextSlot name s) :=
  allSayable_slot fun _ => .context

@[simp] theorem allSayable_tagSlot {name : String} : AllSayable o (o.tagSlot s name) :=
  allSayable_slot fun w _ => .tag w name

@[simp] theorem allSayable_containerSlot {kind : ContainerKind} :
    AllSayable o (o.containerSlot s kind) :=
  allSayable_slot fun w _ => .container w kind

@[simp] theorem allSayable_taggedSlot {name tag : String} :
    AllSayable o (o.taggedSlot name tag s) := by
  simp [HeapObject.taggedSlot]

@[simp] theorem allSayable_argumentEmissions {v : View} :
    AllSayable o (o.argumentEmissions v s) := by
  unfold HeapObject.argumentEmissions
  split
  · intro e he
    obtain ⟨j, hj, rfl⟩ := List.mem_mapIdx.mp he
    exact .shortcut _ _
  · exact allSayable_nil

theorem allSayable_field {f : ContextField} :
    AllSayable o (if f.isWeak then o.weakSlot f.name f.slot else o.internalSlot f.name f.slot) := by
  split <;> simp

theorem sayable_silence_iff : Sayable o (.silence s) ↔ o.listLink? = some s :=
  ⟨fun | .silence hlink => hlink, .silence⟩

theorem sayable_backingStore_iff {name : String} {store : BackingStore} :
    Sayable o (.backingStore name store) ↔ o.backingStore? = some store :=
  ⟨fun | .backingStore hstore => hstore, .backingStore⟩

theorem allSayable_detailEmissions (v : View) : AllSayable o (o.detailEmissions v) := by
  unfold HeapObject.detailEmissions
  split <;> simp [sayable_silence_iff, sayable_backingStore_iff, allSayable_field,
    HeapObject.listLink?, HeapObject.backingStore?, *]

theorem allSayable_propertyEmissions (v : View) {l : Layout} {p : Property} (hl : o.layout = some l)
    (hp : p ∈ l.properties) : AllSayable o (HeapObject.propertyEmissions v p) := by
  have haccessor : ∀ {pair : HeapObject} {lead : String} {slot : Nat},
      AllSayable o (HeapObject.accessorEmissions v p pair lead slot) := by
    intro pair lead slot
    unfold HeapObject.accessorEmissions
    split
    · exact allSayable_nil
    · split
      · split <;> simp [Sayable.outside]
      · exact allSayable_nil
  have hvalue : Sayable o (.property p.key p.value "" p.slot) := .property hl hp
  unfold HeapObject.propertyEmissions HeapObject.pairEmissions
  split
  · split
    · exact allSayable_nil
    · split <;> simp [haccessor, hvalue]
  · simpa using hvalue

theorem allSayable_embedderEmissions (ordinal : Nat) (slots : List Nat) :
    AllSayable o (o.embedderEmissions ordinal slots) := by
  induction slots generalizing ordinal with
  | nil => exact allSayable_nil
  | cons slot slots ih => simp [HeapObject.embedderEmissions, ih]

theorem allSayable_layoutEmissions (v : View) : AllSayable o (o.layoutEmissions v) := by
  unfold HeapObject.layoutEmissions
  split
  · exact allSayable_nil
  · next l hl =>
    have hproperties : AllSayable o (l.properties.flatMap (HeapObject.propertyEmissions v)) :=
      allSayable_flatMap.mpr fun p hp => allSayable_propertyEmissions v hl hp
    have helements : AllSayable o (l.elements.map fun e => .element e.index e.value e.slot) :=
      allSayable_map.mpr fun e he => .element hl he
    simp [hproperties, helements, allSayable_embedderEmissions, Sayable.outside]

theorem allSayable_arrayEmissions (kind : Option ContainerKind) :
    AllSayable o (o.arrayEmissions kind) := by
  unfold HeapObject.arrayEmissions
  split <;> simp [HeapObject.weakNumbered, HeapObject.internalNumbered]

/-- The built-in handlers say nothing else. -/
theorem allSayable_emissions (v : View) (kind : Option ContainerKind) :
    AllSayable o (o.emissions v kind) := by
  unfold HeapObject.emissions
  split
  · exact allSayable_arrayEmissions kind
  · rw [allSayable_append]
    refine ⟨allSayable_detailEmissions v, ?_⟩
    split
    · exact allSayable_layoutEmissions v
    · exact allSayable_nil

end Emission

end ManagedHeap
