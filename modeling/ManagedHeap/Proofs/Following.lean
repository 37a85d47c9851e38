import ManagedHeap.Proofs.Explained
import ManagedHeap.Proofs.Growth
import ManagedHeap.Proofs.Marks

/-!
# Following a script

What a survey makes of the emissions of the built-in handlers. A script leaves the marks of its
emissions, as far as these are about live objects, and notes what they say of containers.
-/
namespace ManagedHeap

/-- A script of the built-in handlers is a list of emissions. -/
theorem Survey.recite_builtin (sc : Scope) (parent : NodeIndex) (o : HeapObject) (s : Survey) :
    s.recite sc .builtin o parent =
      follow sc (.ofList parent (o.emissions sc.view s.containers[o.address]?))
        { s with marks := Marks.reset o.slots.length } := by
  rw [recite, Handlers.find?_builtin, HeapObject.emissions]
  by_cases harray : o.tag = .fixedArray
  · simp only [harray, ↓reduceIte]
    rfl
  · simp only [harray, ↓reduceIte]
    cases hdetail : o.tag.hasDetail <;> cases o.tag.hasLayout
    · rw [HeapObject.detailEmissions_eq_nil hdetail]; rfl
    · rw [HeapObject.detailEmissions_eq_nil hdetail]; rfl
    · simp only [Bool.false_eq_true, ↓reduceIte, List.append_nil]; rfl
    · rfl

/-! ## What an emission comes to -/

/-- Whether a value refers to a live object. -/
def Value.isLive (v : View) (value : Value) : Bool := value.target?.any v.isLive

namespace Emission

/-- The slot that an emission explains. -/
def mark? (v : View) : Emission → Option Nat
  | .internal _ value slot | .weak _ value slot | .property _ value _ slot
  | .element _ value slot => if value.isLive v then slot else none
  | .context _ value slot => if value.isLive v then some slot else none
  | .silence slot => some slot
  | .shortcut _ _ | .backingStore _ _ | .node _ _ | .tag _ _ | .container _ _ => none

/-- The object that an emission leads to. -/
def target? (v : View) : Emission → Option Address
  | .internal _ value _ | .weak _ value _ => value.target?.filter v.isEssential
  | .context _ value _ | .property _ value _ _ | .element _ value _ | .shortcut _ value =>
    value.target?.filter v.isLive
  | .backingStore _ _ | .node _ _ | .tag _ _ | .container _ _ | .silence _ => none

/-- What an emission says about a container. -/
def container? (v : View) : Emission → Option (Address × ContainerKind)
  | .container (.ref a) kind =>
    if (v.object? a).any (·.tag.isContainer) then some (a, kind) else none
  | _ => none

end Emission

theorem View.isLive_of_isEssential {v : View} {a : Address} (h : v.isEssential a = true) :
    v.isLive a = true := by
  unfold View.isEssential at h
  split at h
  · next o ho => simp [View.isLive, ho]
  · cases h

namespace Emission

variable {o : HeapObject} {i : Nat} {a : Address} {e : Emission} {v : View}

end Emission

namespace Survey

variable {sc : Scope}

/-- What a target changes beside the draft is changed just for live targets. -/
theorem withTarget_apply {β : Type} {f : Survey → β} {k : β → β}
    {next : Address → NodeIndex → Survey → Survey} (hf : ∀ s d, f { s with draft := d } = f s)
    (hnext : ∀ a i s, f (next a i s) = k (f s)) (s : Survey) (value : Value) :
    f (s.withTarget sc value next) = if value.isLive sc.view then k (f s) else f s := by
  cases value with
  | small n => rfl
  | ref a =>
    have hlive : (Value.ref a).isLive sc.view = sc.view.isLive a := rfl
    rw [hlive]
    cases h : sc.view.isLive a with
    | false => rw [withTarget_dead h]; rfl
    | true =>
      obtain ⟨i, d', heq, -⟩ := withTarget_live (S := Any) h s next
      rw [heq, hnext, hf]
      rfl

theorem marks_markIf (s : Survey) (slot : Option Nat) :
    (s.markIf slot).marks = slot.elim s.marks s.marks.mark := by
  cases slot <;> rfl

/-- An edge that is drawn or refused leaves the marks as they are. -/
theorem marks_linkNamed (s : Survey) (kind : EdgeKind) (parent : NodeIndex) (name : String)
    (child : NodeIndex) : (s.linkNamed kind parent name child).marks = s.marks :=
  marks_link ..

theorem marks_linkIndexed (s : Survey) (kind : EdgeKind) (parent : NodeIndex) (index : Nat)
    (child : NodeIndex) : (s.linkIndexed kind parent index child).marks = s.marks :=
  marks_link ..

theorem marks_emit (parent : NodeIndex) (s : Survey) (e : Emission) :
    (s.emit sc parent e).marks = (e.mark? sc.view).elim s.marks s.marks.mark := by
  have hmarkIf : ∀ (slot : Option Nat) (value : Value)
      {next : Address → NodeIndex → Survey → Survey},
      (∀ a i s, (next a i s).marks = slot.elim s.marks s.marks.mark) →
      (s.withTarget sc value next).marks =
        (if value.isLive sc.view then slot else none).elim s.marks s.marks.mark := by
    intro slot value next hnext
    rw [withTarget_apply (f := marks) (k := fun m => slot.elim m m.mark) (fun _ _ => rfl) hnext]
    split <;> rfl
  have hsame : ∀ (value : Value) {next : Address → NodeIndex → Survey → Survey},
      (∀ a i s, (next a i s).marks = s.marks) → (s.withTarget sc value next).marks = s.marks := by
    intro value next hnext
    rw [withTarget_apply (f := marks) (k := id) (fun _ _ => rfl) hnext]
    split <;> rfl
  cases e with
  | internal name value slot | weak name value slot =>
    refine hmarkIf slot value fun a i s => ?_
    rw [marks_markIf]
    split
    · rw [marks_linkNamed]
    · rfl
  | context name value slot =>
    refine hmarkIf (some slot) value fun a i s => ?_
    rw [mark, marks_linkNamed]
    rfl
  | property key value lead slot =>
    refine hmarkIf slot value fun a i s => ?_
    rw [marks_markIf, marks_linkNamed]
  | element index value slot =>
    refine hmarkIf slot value fun a i s => ?_
    rw [marks_markIf, marks_linkIndexed]
  | shortcut name value => exact hsame value fun a i s => marks_linkNamed ..
  | backingStore name store => exact marks_linkNamed ..
  | node name target => exact marks_linkNamed ..
  | tag value name =>
    cases value with
    | small n => rfl
    | ref a =>
      simp only [emit]
      split
      · exact hsame (.ref a) fun a i s => rfl
      · rfl
  | container value kind =>
    cases value with
    | small n => rfl
    | ref a =>
      simp only [emit]
      split
      · split <;> rfl
      · rfl
  | silence slot => rfl

theorem containers_emit (parent : NodeIndex) (s : Survey) (e : Emission) :
    (s.emit sc parent e).containers =
      (e.container? sc.view).elim s.containers fun p => s.containers.insert p.1 p.2 := by
  have hsame : ∀ (value : Value) {next : Address → NodeIndex → Survey → Survey},
      (∀ a i s, (next a i s).containers = s.containers) →
      (s.withTarget sc value next).containers = s.containers := by
    intro value next hnext
    rw [withTarget_apply (f := containers) (k := id) (fun _ _ => rfl) hnext]
    split <;> rfl
  have hmarkIf : ∀ (s : Survey) (slot : Option Nat), (s.markIf slot).containers = s.containers := by
    intro s slot
    cases slot <;> rfl
  cases e with
  | internal name value slot | weak name value slot =>
    refine hsame value fun a i s => ?_
    rw [hmarkIf]
    split
    · exact containers_link ..
    · rfl
  | context name value slot => exact hsame value fun a i s => containers_link ..
  | property key value lead slot =>
    exact hsame value fun a i s => (hmarkIf ..).trans (containers_link ..)
  | element index value slot =>
    exact hsame value fun a i s => (hmarkIf ..).trans (containers_link ..)
  | shortcut name value => exact hsame value fun a i s => containers_link ..
  | backingStore name store => exact containers_link ..
  | node name target => exact containers_link ..
  | tag value name =>
    cases value with
    | small n => rfl
    | ref a =>
      simp only [emit]
      split
      · exact hsame (.ref a) fun a i s => rfl
      · rfl
  | container value kind =>
    cases value with
    | small n => rfl
    | ref a =>
      simp only [emit, Emission.container?]
      cases sc.view.object? a with
      | none => rfl
      | some o => cases hc : o.tag.isContainer <;> simp [hc]
  | silence slot => rfl

/-! ## Scripts without a look -/

theorem marks_follow (parent : NodeIndex) (es : List Emission) (s : Survey) :
    (follow sc (.ofList parent es) s).marks =
      (es.filterMap (·.mark? sc.view)).foldl Marks.mark s.marks := by
  induction es generalizing s with
  | nil => rfl
  | cons e es ih =>
    rw [Script.ofList, follow, ih, marks_emit, List.filterMap_cons]
    cases e.mark? sc.view <;> rfl

theorem containers_follow (parent : NodeIndex) (es : List Emission) (s : Survey) :
    (follow sc (.ofList parent es) s).containers =
      (es.filterMap (·.container? sc.view)).foldl (fun m p => m.insert p.1 p.2) s.containers := by
  induction es generalizing s with
  | nil => rfl
  | cons e es ih =>
    rw [Script.ofList, follow, ih, containers_emit, List.filterMap_cons]
    cases e.container? sc.view <;> rfl

theorem marks_linkShape (o : HeapObject) (parent : NodeIndex) (s : Survey) :
    (s.linkShape sc o parent).marks = s.marks := by
  unfold linkShape
  split
  · rw [linkEssential, withTarget_apply (f := marks) (k := id) (fun _ _ => rfl)]
    · split <;> rfl
    · intro a i s
      rw [marks_markIf]
      split
      · exact marks_linkNamed ..
      · rfl
  · rfl

end Survey

end ManagedHeap
