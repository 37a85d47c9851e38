import ManagedHeap.Proofs.Strokes

/-!
# Captures without a fault

The built-in handlers ask for no edge from or to a position that is no node: they report under the
node that they are given, and the other end has been given its node just before. So nothing that
they say is refused, and a capture of objects whose slots 32 bits can count has a fault only if its
edges are too many, `Capture.fault_run_builtin`.
-/
namespace ManagedHeap

namespace Survey

variable {sc : Scope} {s : Survey} {t : Thing} {parent : NodeIndex}

theorem fault_link {child : NodeIndex} (hparent : parent < s.graph.nodeCount)
    (hchild : child < s.graph.nodeCount) (draw : Draft → Draft) :
    (s.link parent child draw).fault = s.fault := by
  rw [link, Graph.missingEnd?_eq_none.mpr ⟨hparent, hchild⟩]

theorem fault_markIf (s : Survey) (slot : Option Nat) : (s.markIf slot).fault = s.fault := by
  cases slot <;> rfl

theorem fault_withTarget {next : Address → NodeIndex → Survey → Survey}
    (hparent : s.draft.Stands t parent)
    (hnext : ∀ a i (s : Survey), s.draft.Stands t parent → s.draft.Stands (.object a) i →
      (next a i s).fault = s.fault)
    (value : Value) : (s.withTarget sc value next).fault = s.fault := by
  cases value with
  | small n => rfl
  | ref a =>
    rw [withTarget_ref]
    split
    · exact hnext a _ { s with draft := s.draft.draw sc (.object a) } (hparent.draw (.object a))
        (Draft.stands_draw_object sc hparent.distinct a)
    · rfl

theorem fault_linkEssential (hparent : s.draft.Stands t parent) (kind : EdgeKind) (name : String)
    (value : Value) (slot : Option Nat) :
    (s.linkEssential sc kind parent name value slot).fault = s.fault := by
  refine fault_withTarget hparent (fun a i s hparent hchild => ?_) value
  rw [fault_markIf]
  split
  · exact fault_link hparent.lt hchild.lt _
  · rfl

/-- An emission that names no position is not refused. -/
theorem fault_emit (hparent : s.draft.Stands t parent) {e : Emission}
    (he : ∀ name target, e ≠ .node name target) : (s.emit sc parent e).fault = s.fault := by
  cases e with
  | internal | weak => exact fault_linkEssential hparent ..
  | context name value | shortcut name value =>
    refine fault_withTarget hparent (fun a i s hparent hchild => ?_) value
    exact fault_link hparent.lt hchild.lt _
  | property key value | element index value =>
    refine fault_withTarget hparent (fun a i s hparent hchild => ?_) value
    rw [fault_markIf]
    exact fault_link hparent.lt hchild.lt _
  | backingStore name store =>
    have hchild := Draft.stands_draw_store sc hparent.distinct store
    have hparent' : (s.draft.draw sc (.store store)).Stands t parent := hparent.draw _
    exact fault_link (s := { s with draft := s.draft.draw sc (.store store) }) hparent'.lt
      hchild.lt _
  | node name target => exact absurd rfl (he name target)
  | tag value name =>
    cases value with
    | small n => rfl
    | ref a =>
      simp only [emit]
      split
      · refine fault_withTarget hparent (fun a i s hparent hchild => ?_) _
        rfl
      · rfl
  | container value kind =>
    cases value with
    | small n => rfl
    | ref a =>
      simp only [emit]
      split
      · split <;> rfl
      · rfl
  | silence slot => rfl

theorem fault_follow (hparent : s.draft.Stands t parent) {es : List Emission}
    (hes : ∀ e ∈ es, ∀ name target, e ≠ .node name target) :
    (follow sc (.ofList parent es) s).fault = s.fault := by
  induction es generalizing s with
  | nil => rfl
  | cons e es ih =>
    have he := hes e List.mem_cons_self
    have hparent' : (s.emit sc parent e).draft.Stands t parent := by
      rw [draft_emit hparent he]
      exact hparent.drawAll _
    calc (follow sc (.ofList parent (e :: es)) s).fault
        = (s.emit sc parent e).fault := ih hparent' fun x hx => hes x (List.mem_cons_of_mem e hx)
      _ = s.fault := fault_emit hparent he

theorem fault_hideSlot (hparent : s.draft.Stands t parent) {slot : Nat}
    (hlabel : slot + 1 < wordLimit 32) (value : Value) :
    (s.hideSlot sc parent slot value).fault = s.fault := by
  unfold hideSlot
  dsimp only
  split
  · rfl
  · refine fault_withTarget (s := { s with marks := (s.marks.take slot).2 }) hparent
      (fun a i s hparent hchild => ?_) value
    split
    · rw [linkHidden, hiddenLabel?_of_lt hlabel]
      exact fault_link hparent.lt hchild.lt _
    · rfl

/-- Slots that 32 bits can count are hidden without a fault. -/
theorem fault_hide (hparent : s.draft.Stands t parent) {slot : Nat} {values : List Value}
    (hlabels : slot + values.length < wordLimit 32) :
    (hide sc parent slot values s).fault = s.fault := by
  induction values generalizing slot s with
  | nil => rfl
  | cons value values ih =>
    rw [List.length_cons] at hlabels
    have hparent' : (s.hideSlot sc parent slot value).draft.Stands t parent := by
      rw [draft_hideSlot hparent]
      exact hparent.drawAll _
    rw [hide_cons, ih hparent' (by omega), fault_hideSlot hparent (by omega)]

theorem fault_read {o : HeapObject} (hparent : s.draft.Stands (.object o.address) parent)
    (hslots : o.slots.length < wordLimit 32) :
    (s.read sc .builtin o parent).fault = s.fault := by
  have hnode : ∀ e ∈ o.emissions sc.view s.containers[o.address]?,
      ∀ name target, e ≠ .node name target := by
    rintro e he name target rfl
    cases Emission.allSayable_emissions _ _ _ he
  have hrecite : (s.recite sc .builtin o parent).fault = s.fault := by
    rw [recite_builtin]
    exact fault_follow (s := { s with marks := Marks.reset o.slots.length }) hparent hnode
  have hgrows₁ : Draft.Grows sc Any s.draft (s.recite sc .builtin o parent).draft :=
    grows_recite parent (Handlers.owns_any _ sc.view o) s
  have hparent₁ : (s.recite sc .builtin o parent).draft.Stands (.object o.address) parent :=
    ⟨hgrows₁.find? hparent.find?, hgrows₁.distinct hparent.distinct⟩
  have hshape : ((s.recite sc .builtin o parent).linkShape sc o parent).fault =
      (s.recite sc .builtin o parent).fault := by
    unfold linkShape
    split
    · exact fault_linkEssential hparent₁ ..
    · rfl
  have hparent₂ : ((s.recite sc .builtin o parent).linkShape sc o parent).draft.Stands
      (.object o.address) parent := by
    rw [draft_linkShape hparent₁]
    exact hparent₁.drawAll _
  rw [read_eq, fault_hide hparent₂ (by omega), hshape, hrecite]

theorem fault_visit (hd : s.draft.Distinct) (pass : Pass) {o : HeapObject}
    (hslots : o.slots.length < wordLimit 32) : (s.visit sc .builtin pass o).fault = s.fault := by
  cases hlive : sc.view.isLive o.address with
  | false => rw [visit_dead hlive]
  | true =>
    rw [visit, object?, Draft.object?_eq_draw hlive]
    dsimp only
    split
    · exact fault_read (s := { s with draft := s.draft.draw sc (.object o.address) })
        (Draft.stands_draw_object sc hd o.address) hslots
    · rfl

theorem fault_visitAll (hd : s.draft.Distinct) (pass : Pass) {os : List HeapObject}
    (hslots : ∀ o ∈ os, o.slots.length < wordLimit 32) :
    (s.visitAll sc .builtin pass os).fault = s.fault := by
  induction os generalizing s with
  | nil => rfl
  | cons o os ih =>
    obtain ⟨ho, hos⟩ := List.forall_mem_cons.mp hslots
    rw [visitAll_cons, ih (distinct_visit hd ..) hos, fault_visit hd pass ho]

theorem fault_addRoot (s : Survey) (r : RootRef) : (s.addRoot sc r).fault = s.fault := by
  rw [addRoot_eq]
  split <;> rfl

theorem fault_addRoots (s : Survey) : (s.addRoots sc).fault = s.fault := by
  have hall : ∀ (rs : List RootRef) (s : Survey), (rs.foldl (addRoot sc) s).fault = s.fault := by
    intro rs
    induction rs with
    | nil => intro s; rfl
    | cons r rs ih => intro s; exact (ih _).trans (fault_addRoot s r)
  exact hall _ _

end Survey

namespace Capture

variable {c c' : Capture} {h : Heap}

/-- With the built-in handlers a completed capture of objects whose slots 32 bits can count has a
fault only if 32 bits cannot count its edges. -/
theorem fault_run_builtin (hhandlers : c.handlers = .builtin)
    (hslots : ∀ o ∈ h.live, o.slots.length < wordLimit 32)
    (hrun : c.run h.view = (.ok .completed, c')) :
    c'.fault = none ↔ c'.graph.edgeCount < wordLimit 32 := by
  have hrooted : (c.rooted h.view).fault = none := Survey.fault_addRoots _
  have honce : (c.onceRead h.view).fault = none := by
    rw [onceRead, hhandlers]
    exact (Survey.fault_visitAll (c.distinct_rooted h.view) .first hslots).trans hrooted
  have hdrawn : (c.drawn h.view).fault = none := by
    show (c.twiceRead h.view).fault = none
    rw [twiceRead, hhandlers]
    exact (Survey.fault_visitAll (c.distinct_onceRead h.view) .second hslots).trans honce
  obtain ⟨hgraph, -, hfault⟩ := run_completed hrun
  have hcount : c'.graph.edgeCount = (c.drawn h.view).graph.edgeCount := by
    rw [hgraph]
    rfl
  rw [hfault, hcount, Survey.countEdges]
  split
  · next hlt => exact iff_of_true hdrawn hlt
  · next hlt =>
    refine iff_of_false ?_ hlt
    simp [Survey.refuse, hdrawn]

-- A handler that names a position without a node leaves a fault behind.
example :
    let stray : Handler := fun _ o node =>
      .emit node (.internal "self" (.ref o.address) none) (.emit node (.node "next" 99) .done)
    let h := Heap.empty.insert { address := ⟨16⟩, size := 8, tag := .object }
    let ended := ({ handlers := Handlers.builtin.insert .object stray } : Capture).run h.view
    ended.1 = .ok .completed ∧ ended.2.fault.isSome = true := by
  decide +kernel

end Capture

end ManagedHeap
