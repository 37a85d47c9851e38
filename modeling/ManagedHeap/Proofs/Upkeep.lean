import ManagedHeap.Proofs.Readers

/-!
# The ledger at all times

Rows, index and spans of a ledger hang together, `WellKept`, from the start and after every
operation, in whatever order these come and however the sinks of reports answer. So a sweep leaves
as many rows as addresses, and a report that goes through its spans has counted every row,
`Ledger.wellKept_performAll`.
-/
namespace ManagedHeap

/-! ## Rows behind the spans -/

section Walk

variable {σ : Type} {k : Sink σ}

/-- The walk of a report over its spans, and the rows that are left behind the last of them. A sink
that ends the work before leaves it open which rows these are. -/
def walkSpans (k : Sink σ) :
    Nat → List Row → List Span → Batch σ → (List Span × Batch σ) × Option (List Row)
  | _, rows, [], b => (([], b), some rows)
  | index, rows, s :: ss, b =>
    let (t, rest) := tallyBelow s.bound {} rows
    if s.count = t.count ∧ s.size = t.size then
      let ((ss, b), left) := walkSpans k (index + 1) rest ss b
      ((s :: ss, b), left)
    else
      let s := { s with count := t.count, size := t.size }
      let b := b.add k ⟨index, t.count, t.size⟩
      if b.flow = .running then
        let ((ss, b), left) := walkSpans k (index + 1) rest ss b
        ((s :: ss, b), left)
      else ((s :: ss, b), none)

theorem walkSpans_fst (k : Sink σ) (index : Nat) (rows : List Row) (spans : List Span)
    (b : Batch σ) : (walkSpans k index rows spans b).1 = reportSpans k index rows spans b := by
  induction spans generalizing index rows b with
  | nil => rfl
  | cons s ss ih =>
    simp only [walkSpans, reportSpans, ← ih]
    split
    · rfl
    · split <;> rfl

/-- The rows that are left have numbers behind every span. -/
theorem bound_le_of_left {index : Nat} {rows left : List Row} {spans : List Span} {b : Batch σ}
    (hrows : Increasing rows) (hleft : (walkSpans k index rows spans b).2 = some left) :
    ∀ r ∈ left, r ∈ rows ∧ ∀ s ∈ spans, s.bound.raw ≤ r.id.raw := by
  induction spans generalizing index rows b with
  | nil =>
    cases hleft
    exact fun r hr => ⟨hr, fun s hs => (List.not_mem_nil hs).elim⟩
  | cons s ss ih =>
    obtain ⟨hincreasing, hfirst⟩ := increasing_tallyBelow_snd hrows s.bound
    have hrest : (tallyBelow s.bound {} rows).2 = rows.filter (·.isFrom s.bound.raw) := by
      rw [tallyBelow_eq hrows]
    -- whichever way the walk goes on, it does so with the rows behind the first span
    obtain ⟨b', hnext⟩ : ∃ b', (walkSpans k (index + 1) (tallyBelow s.bound {} rows).2 ss b').2 =
        some left := by
      simp only [walkSpans] at hleft
      split at hleft
      · exact ⟨b, hleft⟩
      · split at hleft
        · exact ⟨_, hleft⟩
        · cases hleft
    intro r hr
    obtain ⟨hmem, hbehind⟩ := ih hincreasing hnext r hr
    refine ⟨(List.mem_filter.mp (hrest ▸ hmem)).1, fun s' hs' => ?_⟩
    rcases List.mem_cons.mp hs' with rfl | hs'
    · exact hfirst r hmem
    · exact hbehind s' hs'

end Walk

namespace Ledger

variable {σ : Type} {l : Ledger}

/-- The rows that a report has counted for none of its spans, once it has gone through them. -/
def uncounted (l : Ledger) (live : List HeapObject) (now : Int) (k : Sink σ) (s : σ) :
    Option (List Row) :=
  (walkSpans k 0 (l.refresh live).body (l.openSpans live now)
    { limit := max 1 k.chunkSize, state := s }).2

/-- A report counts every row. -/
theorem uncounted_eq_nil (h : l.Reachable) (live : List HeapObject) (now : Int) (k : Sink σ) (s : σ)
    {left : List Row} (hleft : l.uncounted live now k s = some left) : left = [] := by
  have hissued : (l.refresh live).Issued := (h.trackAll live).sweep.issued
  refine List.eq_nil_iff_forall_not_mem.mpr fun r hr => ?_
  obtain ⟨hmem, hbehind⟩ := bound_le_of_left hissued.increasing_body hleft r hr
  -- the span that the report closes ends at the number due next
  have hlast := hbehind { bound := ⟨(l.refresh live).nextId⟩, time := now }
    (List.mem_append_right _ (List.mem_singleton_self _))
  have hlt := (hissued.mem r.id.raw (List.mem_map_of_mem hmem)).2
  exact absurd hlast (Nat.not_le_of_lt hlt)

/-! ## Row 0 -/

/-- The row that belongs to no object. -/
def blankRow : Row := ⟨ObjectId.unknown, none, 0, true⟩

theorem Reachable.rows_zero (h : l.Reachable) : l.rows[0]? = some blankRow := by
  induction h with
  | empty => rfl
  | @record l hbefore a size isAccessed ih =>
    cases ha : l.slots[a]? with
    | none =>
      have hne : 0 ≠ l.rows.size := Nat.ne_of_lt hbefore.sound.pos
      simp only [Ledger.record, ha, getElem?_rows_append, if_neg hne]
      exact ih
    | some i =>
      have hne : i ≠ 0 := Nat.ne_of_gt (hbefore.sound.index a i ha).1
      simp only [Ledger.record, ha, Array.getElem?_modify, if_neg hne]
      exact ih
  | @move l hbefore source target size ih =>
    have hforget : (l.forget target).rows[0]? = some blankRow := by
      have hne : l.slots[target]? ≠ some 0 := fun ht =>
        absurd (hbefore.sound.index target 0 ht).1 (Nat.lt_irrefl 0)
      rw [getElem?_rows_forget, if_neg hne]
      exact ih
    by_cases hsame : source = target
    · simpa [Ledger.move, hsame] using ih
    · cases hi : l.slots[source]? with
      | none =>
        have heq : (l.move source target size).2 = l.forget target := by
          simp [Ledger.move, hsame, hi]
        rw [heq]
        exact hforget
      | some i =>
        have hne : i ≠ 0 := Nat.ne_of_gt (hbefore.sound.index source i hi).1
        rw [(moved_move hsame hi size).rows, if_neg hne, ← getElem?_rows_forget]
        exact hforget
  | @sweep l hbefore ih =>
    have hrows : l.sweep.rows.toList =
        (l.rows.extract 0 1).toList ++ (l.body.filter (·.isKept)).map (·.rested) :=
      toList_foldl_sweepRow l.body (l.rows.extract 0 1) l.slots
    have hpos : 0 < (l.rows.extract 0 1).toList.length := by
      rw [Array.length_toList, size_extract hbefore.sound]
      exact Nat.one_pos
    have hfirst : (l.rows.extract 0 1)[0]? = l.rows[0]? := by
      have hsize : 0 < min 1 l.rows.size := Nat.lt_min.mpr ⟨Nat.one_pos, hbefore.sound.pos⟩
      rw [Array.getElem?_extract, Nat.sub_zero, if_pos hsize]
    rw [← Array.getElem?_toList, hrows, List.getElem?_append_left hpos, Array.getElem?_toList,
      hfirst]
    exact ih
  | spans _ _ ih => exact ih

/-! ## Operations -/

/-- What can be done to a ledger. -/
inductive Operation : Type 1 where
  | track (a : Address) (size : Nat)
  | resize (a : Address) (size : Nat)
  | move (source target : Address) (size : Nat)
  | sweep
  | refresh (live : List HeapObject)
  | report {σ : Type} (live : List HeapObject) (now : Int) (k : Sink σ) (state : σ)
  | forgetSpans

/-- The ledger after an operation. -/
def perform (l : Ledger) : Operation → Ledger
  | .track a size => (l.track a size).2
  | .resize a size => l.resize a size
  | .move source target size => (l.move source target size).2
  | .sweep => l.sweep
  | .refresh live => l.refresh live
  | .report live now k state => (l.report live now k state).ledger
  | .forgetSpans => l.forgetSpans

/-- The ledger after operations one after the other. -/
def performAll (l : Ledger) (ops : List Operation) : Ledger := ops.foldl perform l

theorem Reachable.perform (h : l.Reachable) (op : Operation) : (l.perform op).Reachable := by
  cases op with
  | track | resize => exact h.record ..
  | move => exact h.move ..
  | sweep => exact h.sweep
  | refresh live => exact (h.trackAll live).sweep
  | report => exact h.report ..
  | forgetSpans => exact h.spans []

theorem Paced.perform (h : l.Paced) (op : Operation) : (l.perform op).Paced := by
  cases op with
  | track | resize => exact h.later (later_record ..)
  | move => exact h.later (later_move ..)
  | sweep => exact h.later (later_sweep l)
  | refresh live => exact h.later (later_refresh l live)
  | report live now k state =>
    obtain ⟨us, rest, hreported⟩ := l.exists_reported live now k state
    exact hreported.paced h
  | forgetSpans => exact paced_of_nil rfl

theorem reachable_performAll (h : l.Reachable) (hpaced : l.Paced) (ops : List Operation) :
    (l.performAll ops).Reachable ∧ (l.performAll ops).Paced := by
  induction ops generalizing l with
  | nil => exact ⟨h, hpaced⟩
  | cons op ops ih => exact ih (h.perform op) (hpaced.perform op)

/-! ## What holds at all times -/

/-- Rows, index and spans hang together. -/
structure WellKept (l : Ledger) : Prop where
  blank : l.rows[0]? = some blankRow
  increasing : ∀ (i j : Nat) r r', 0 < i → i < j → l.rows[i]? = some r → l.rows[j]? = some r' →
    r.id.raw < r'.id.raw
  issued : ∀ (i : Nat) r, 0 < i → l.rows[i]? = some r →
    r.id.raw % 2 = 0 ∧ ObjectId.firstAvailable.raw ≤ r.id.raw ∧ r.id.raw < l.nextId
  index : ∀ a i, l.slots[a]? = some i ↔ 0 < i ∧ ∃ r, l.rows[i]? = some r ∧ r.address = some a
  ordered : l.spans.Pairwise fun s s' => s.bound.raw ≤ s'.bound.raw
  bounded : ∀ s ∈ l.spans, s.bound.raw ≤ l.nextId

theorem getElem?_body_of_pos {i : Nat} {r : Row} (hi : 0 < i) (hr : l.rows[i]? = some r) :
    l.body[i - 1]? = some r := by
  rw [getElem?_body, Nat.sub_add_cancel hi]
  exact hr

theorem Reachable.wellKept (h : l.Reachable) (hpaced : l.Paced) : l.WellKept where
  blank := h.rows_zero
  increasing i j r r' hi hij hr hr' := by
    have hj : 0 < j := Nat.lt_trans hi hij
    obtain ⟨hlt, rfl⟩ := List.getElem?_eq_some_iff.mp (getElem?_body_of_pos hi hr)
    obtain ⟨hlt', rfl⟩ := List.getElem?_eq_some_iff.mp (getElem?_body_of_pos hj hr')
    exact List.pairwise_iff_getElem.mp h.issued.increasing_body (i - 1) (j - 1) hlt hlt' (by omega)
  issued i r hi hr := by
    have hbody := List.mem_of_getElem? (getElem?_body_of_pos hi hr)
    obtain ⟨⟨heven, hfirst⟩, hlt⟩ := h.issued.mem r.id.raw (List.mem_map_of_mem hbody)
    exact ⟨heven, hfirst, hlt⟩
  index a i :=
    ⟨h.sound.index a i, fun ⟨hpos, r, hr, ha⟩ => h.sound.rows a i r hpos hr ha⟩
  ordered := hpaced.ordered
  bounded := hpaced.bounded

/-- After a sweep there are as many rows as addresses, beside row 0. -/
theorem Reachable.size_rows_sweep (h : l.Reachable) :
    l.sweep.rows.size - 1 = l.sweep.slots.size := by
  have hbody : l.sweep.body.length = l.sweep.rows.size - 1 := by
    rw [body, List.length_drop, Array.length_toList]
  rw [← hbody, ← (perm_tracked_sweep h.sound h.issued).length_eq, length_tracked h.sweep.sound]
  rfl

/-- What is checked in the course of an operation: the number of rows at the end of each sweep, and
that no row is left when a report has gone through its spans. -/
def Operation.Checks (l : Ledger) : Operation → Prop
  | .track _ _ | .resize _ _ | .move _ _ _ | .forgetSpans => True
  | .sweep => l.sweep.rows.size - 1 = l.sweep.slots.size
  | .refresh live => (l.refresh live).rows.size - 1 = (l.refresh live).slots.size
  | .report live now k state =>
    (l.refresh live).rows.size - 1 = (l.refresh live).slots.size ∧
      (walkSpans k 0 (l.refresh live).body (l.openSpans live now)
        { limit := max 1 k.chunkSize, state := state }).1 = l.walk live now k state ∧
      ∀ left, l.uncounted live now k state = some left → left = []

theorem Reachable.checks (h : l.Reachable) (op : Operation) : op.Checks l := by
  cases op with
  | track | resize | move | forgetSpans => trivial
  | sweep => exact h.size_rows_sweep
  | refresh live => exact (h.trackAll live).size_rows_sweep
  | report live now k state =>
    exact ⟨(h.trackAll live).size_rows_sweep, walkSpans_fst .., fun left hleft =>
      uncounted_eq_nil h live now k state hleft⟩

/-- Whatever was done to a ledger that started out empty, its rows, index and spans hang together,
and all that is checked in the course of the next operation is true. -/
theorem wellKept_performAll (ops : List Operation) :
    (performAll {} ops).WellKept ∧ ∀ op : Operation, op.Checks (performAll {} ops) := by
  obtain ⟨hreachable, hpaced⟩ := reachable_performAll .empty (paced_of_nil rfl) ops
  exact ⟨hreachable.wellKept hpaced, hreachable.checks⟩

end Ledger

end ManagedHeap
