import ManagedHeap.Proofs.Tracking

/-!
# Numbers that the ledger has handed out

Whatever was recorded, moved and swept before, the numbers of a ledger's rows increase from row to
row, are even, and lie between the first number for heap objects and the one due next, `Issued`. So
no two addresses share a number.
-/
namespace ManagedHeap

namespace Ledger

/-- The ledgers that records, moves, sweeps and reports lead to. -/
inductive Reachable : Ledger → Prop where
  | empty : Reachable {}
  | record {l : Ledger} (h : Reachable l) (a : Address) (size : Nat) (isAccessed : Bool) :
      Reachable (l.record a size isAccessed).2
  | move {l : Ledger} (h : Reachable l) (source target : Address) (size : Nat) :
      Reachable (l.move source target size).2
  | sweep {l : Ledger} (h : Reachable l) : Reachable l.sweep
  | spans {l : Ledger} (h : Reachable l) (spans : List Span) : Reachable { l with spans := spans }

/-- The numbers of the rows that belong to objects. -/
def issued (l : Ledger) : List Nat := l.body.map (·.id.raw)

/-- A number that can be handed out to a heap object. -/
def IsIssuable (n : Nat) : Prop := n % 2 = 0 ∧ ObjectId.firstAvailable.raw ≤ n

/-- The numbers of rows increase, and all of them were handed out. -/
structure Issued (l : Ledger) : Prop where
  next : IsIssuable l.nextId
  mem : ∀ n ∈ l.issued, IsIssuable n ∧ n < l.nextId
  increasing : l.issued.Pairwise (· < ·)

variable {l l' : Ledger} {a b : Address} {id : ObjectId}

theorem issued_empty : ({} : Ledger).Issued where
  next := by unfold IsIssuable; decide
  mem n hn := nomatch hn
  increasing := .nil

theorem getElem?_issued (l : Ledger) (i : Nat) :
    l.issued[i]? = l.rows[i + 1]?.map (·.id.raw) := by
  rw [issued, List.getElem?_map, getElem?_body]

/-! ## What each operation does to the numbers -/

theorem issued_eq (h : ∀ i : Nat, l'.rows[i]?.map (·.id) = l.rows[i]?.map (·.id)) :
    l'.issued = l.issued := by
  refine List.ext_getElem? fun i => ?_
  have hraw := congrArg (Option.map ObjectId.raw) (h (i + 1))
  rw [Option.map_map, Option.map_map] at hraw
  rw [getElem?_issued, getElem?_issued]
  exact hraw

theorem Issued.of_eq (h : l.Issued) (hnext : l'.nextId = l.nextId)
    (hissued : l'.issued = l.issued) : l'.Issued where
  next := hnext ▸ h.next
  mem := by rw [hissued, hnext]; exact h.mem
  increasing := hissued ▸ h.increasing

theorem map_id_modify (rows : Array Row) (i k : Nat) {f : Row → Row} (hf : ∀ r, (f r).id = r.id) :
    (rows.modify i f)[k]?.map (·.id) = rows[k]?.map (·.id) := by
  rw [Array.getElem?_modify]
  split
  · rw [Option.map_map]
    exact congrArg (Option.map · _) (funext hf)
  · rfl

theorem issued_append (h : l.Sound) (a : Address) (size : Nat) (isAccessed : Bool) :
    (l.append a size isAccessed).issued = l.issued ++ [l.nextId] := by
  have hpos : 1 ≤ l.rows.toList.length := by
    rw [Array.length_toList]
    exact h.pos
  rw [issued, issued, body, body, append, Array.toList_push, List.drop_append_of_le_length hpos,
    List.map_append]
  rfl

theorem nextId_record (l : Ledger) (a : Address) (size : Nat) (isAccessed : Bool) :
    (l.record a size isAccessed).2.nextId =
      if l.slots[a]? = none then l.nextId + ObjectId.step else l.nextId := by
  cases ha : l.slots[a]? with
  | none => simp [record, ha, append]
  | some i => simp [record, ha]

theorem Issued.record (h : l.Issued) (hl : l.Sound) (a : Address) (size : Nat)
    (isAccessed : Bool) : (l.record a size isAccessed).2.Issued := by
  cases ha : l.slots[a]? with
  | some i =>
    simp only [Ledger.record, ha]
    exact h.of_eq rfl (issued_eq fun k => map_id_modify l.rows i k fun _ => rfl)
  | none =>
    simp only [Ledger.record, ha]
    have hnext : (l.append a size isAccessed).nextId = l.nextId + 2 := rfl
    constructor
    · have := h.next
      rw [hnext]
      unfold IsIssuable at this ⊢
      omega
    · intro n hn
      rw [issued_append hl, List.mem_append, List.mem_singleton] at hn
      rw [hnext]
      rcases hn with hn | rfl
      · have := h.mem n hn
        exact ⟨this.1, by omega⟩
      · exact ⟨h.next, by omega⟩
    · rw [issued_append hl]
      refine List.pairwise_append.mpr ⟨h.increasing, List.pairwise_singleton _ _, ?_⟩
      intro n hn m hm
      rw [List.mem_singleton.mp hm]
      exact (h.mem n hn).2

theorem map_id_forget (l : Ledger) (a : Address) (k : Nat) :
    (l.forget a).rows[k]?.map (·.id) = l.rows[k]?.map (·.id) := by
  rw [getElem?_rows_forget]
  split
  · rw [Option.map_map]; rfl
  · rfl

theorem nextId_move (l : Ledger) (source target : Address) (size : Nat) :
    (l.move source target size).2.nextId = l.nextId := by
  have hforget : ∀ (l : Ledger), (l.forget target).nextId = l.nextId := by
    intro l
    unfold forget
    split <;> rfl
  unfold move
  split
  · rfl
  · split
    · exact hforget l
    · exact hforget _

theorem Issued.move (h : l.Issued) (source target : Address) (size : Nat) :
    (l.move source target size).2.Issued := by
  refine h.of_eq (nextId_move ..) (issued_eq fun k => ?_)
  by_cases hne : source = target
  · simp [Ledger.move, hne]
  · cases hi : l.slots[source]? with
    | none =>
      have heq : (l.move source target size).2 = l.forget target := by simp [Ledger.move, hne, hi]
      rw [heq, map_id_forget]
    | some i =>
      rw [(moved_move hne hi size).rows]
      split
      · rw [Option.map_map]; rfl
      · split
        · rw [Option.map_map]; rfl
        · rfl

theorem issued_sweep (h : l.Sound) :
    l.sweep.issued = (l.body.filter (·.isKept)).map (·.id.raw) := by
  refine List.ext_getElem? fun i => ?_
  rw [getElem?_issued, getElem?_rows_sweep h, List.getElem?_map, Option.map_map, List.getElem?_map]
  rfl

theorem Issued.sweep (h : l.Issued) (hl : l.Sound) : l.sweep.Issued := by
  have hsublist : l.sweep.issued.Sublist l.issued := by
    rw [issued_sweep hl]
    exact List.filter_sublist.map _
  exact ⟨h.next, fun n hn => h.mem n (hsublist.subset hn), h.increasing.sublist hsublist⟩

/-! ## Later ledgers -/

/-- A later ledger with the same spans. -/
structure Later (l l' : Ledger) : Prop where
  spans : l'.spans = l.spans
  nextId : l.nextId ≤ l'.nextId

theorem Later.refl (l : Ledger) : Later l l := ⟨rfl, Nat.le_refl _⟩

theorem Later.trans {l l' l'' : Ledger} (h : Later l l') (h' : Later l' l'') : Later l l'' :=
  ⟨h'.spans.trans h.spans, Nat.le_trans h.nextId h'.nextId⟩

theorem later_record (l : Ledger) (a : Address) (size : Nat) (isAccessed : Bool) :
    Later l (l.record a size isAccessed).2 := by
  constructor
  · unfold record
    split <;> rfl
  · rw [nextId_record]
    split
    · exact Nat.le_add_right ..
    · exact Nat.le_refl _

theorem later_move (l : Ledger) (source target : Address) (size : Nat) :
    Later l (l.move source target size).2 := by
  have hforget : ∀ l : Ledger, (l.forget target).spans = l.spans := by
    intro l
    unfold forget
    split <;> rfl
  refine ⟨?_, Nat.le_of_eq (nextId_move l source target size).symm⟩
  unfold move
  split
  · rfl
  · split
    · exact hforget l
    · exact hforget _

theorem later_sweep (l : Ledger) : Later l l.sweep := ⟨rfl, Nat.le_refl _⟩

theorem later_trackObject (l : Ledger) (o : HeapObject) : Later l (l.trackObject o) := by
  have hobject : Later l (l.track o.address o.size).2 := later_record ..
  unfold trackObject
  dsimp only
  split
  · exact hobject.trans (later_record ..)
  · exact hobject

theorem later_refresh (l : Ledger) (live : List HeapObject) : Later l (l.refresh live) := by
  have htracked : Later l (live.foldl trackObject l) := by
    induction live generalizing l with
    | nil => exact .refl l
    | cons o os ih => exact (later_trackObject l o).trans (ih (l.trackObject o))
  exact htracked.trans (later_sweep _)

namespace Reachable

theorem sound (h : l.Reachable) : l.Sound := by
  induction h with
  | empty => exact sound_empty
  | record _ a size isAccessed ih => exact sound_record ih a size isAccessed
  | move _ source target size ih => exact sound_move ih source target size
  | sweep _ ih => exact sound_sweep ih
  | spans _ spans ih => exact sound_spans ih spans

theorem issued (h : l.Reachable) : l.Issued := by
  induction h with
  | empty => exact issued_empty
  | record hbefore a size isAccessed ih => exact ih.record hbefore.sound a size isAccessed
  | move _ source target size ih => exact ih.move source target size
  | sweep hbefore ih => exact ih.sweep hbefore.sound
  | spans _ spans ih => exact ih.of_eq rfl rfl

end Reachable

/-! ## Numbers of addresses -/

/-- The number of an address is one that was handed out. -/
theorem Issued.isIssuable (h : l.Issued) (hl : l.Sound) (ha : l.find? a = some id) :
    IsIssuable id.raw := by
  obtain ⟨r, hr, rfl⟩ := Option.map_eq_some_iff.mp ((find?_eq l a).symm.trans ha)
  obtain ⟨-, rs, rs', hbody⟩ := hl.exists_split hr
  refine (h.mem r.id.raw (List.mem_map_of_mem ?_)).1
  rw [hbody]
  exact List.mem_append_right rs List.mem_cons_self

/-- No two addresses have the same number. -/
theorem Issued.find?_inj (h : l.Issued) (hl : l.Sound) (ha : l.find? a = some id)
    (hb : l.find? b = some id) : a = b := by
  obtain ⟨r, hr, rfl⟩ := Option.map_eq_some_iff.mp ((find?_eq l a).symm.trans ha)
  obtain ⟨s, hs, hid⟩ := Option.map_eq_some_iff.mp ((find?_eq l b).symm.trans hb)
  obtain ⟨hra, rs, rs', hbody⟩ := hl.exists_split hr
  obtain ⟨hsb, ss, ss', hbody'⟩ := hl.exists_split hs
  have hmem : s ∈ rs ++ r :: rs' := by
    rw [← hbody, hbody']
    exact List.mem_append_right ss List.mem_cons_self
  -- another row with the number of `r` would stand before or behind it
  have hincreasing := h.increasing
  rw [Ledger.issued, hbody, List.map_append, List.map_cons, List.pairwise_append,
    List.pairwise_cons] at hincreasing
  obtain ⟨-, ⟨hbehind, -⟩, hbefore⟩ := hincreasing
  have hraw : s.id.raw = r.id.raw := congrArg ObjectId.raw hid
  rcases List.mem_append.mp hmem with hmem | hmem
  · have := hbefore _ (List.mem_map_of_mem hmem) _ List.mem_cons_self
    omega
  · rcases List.mem_cons.mp hmem with rfl | hmem
    · rw [hra, Option.some.injEq] at hsb
      exact hsb
    · have := hbehind _ (List.mem_map_of_mem hmem)
      omega

end Ledger

/-! ## Captures -/

namespace Draft

variable {sc : Scope} {S : BackingStore → Prop} {d d' : Draft}

theorem Step.reachable (h : Step sc S d d') (hd : d.ledger.Reachable) :
    d'.ledger.Reachable := by
  cases h with
  | @object a _ _ =>
    rw [addObject_eq]
    exact hd.record a (sc.sizeOf a) true
  | @store store _ _ => exact hd.record store.address _ true
  | native | edge | intern | name => exact hd

theorem Grows.reachable (h : Grows sc S d d') (hd : d.ledger.Reachable) :
    d'.ledger.Reachable :=
  h.invariant (fun _ _ hstep => hstep.reachable) hd

end Draft

theorem Capture.reachable_drawn {c : Capture} (hc : c.ledger.Reachable) (v : View) :
    (c.drawn v).ledger.Reachable :=
  (grows_all fun o _ => c.handlers.owns_any v o).reachable hc

end ManagedHeap
