import ManagedHeap.Document.Basic

/-!
# Edges recovered from counts

A document says of each node how many edges leave it, and lists the edges of all nodes one behind
the other. Nothing makes the counts fit the list: the edges that can be read off are as many as
both allow, and each leaves the node in whose share of the list it stands. The main statement
speaks of the document's plain numbers and of nothing else that is read off them.
-/
namespace ManagedHeap.Document

/-! ## Whole tuples -/

theorem length_threes (ns : List Nat) : (threes ns).length = ns.length / edgeWidth := by
  fun_induction threes ns with
  | case1 a b c rest ih =>
    simp only [List.length_cons, ih, edgeWidth]
    omega
  | case2 ns hshort =>
    have hlt : ns.length < 3 := by
      rcases ns with _ | ⟨a, _ | ⟨b, _ | ⟨c, rest⟩⟩⟩
      iterate 3 simp
      exact (hshort a b c rest rfl).elim
    simp only [List.length_nil, edgeWidth]
    omega

theorem getElem?_threes {ns : List Nat} {k : Nat} {tuple : Nat × Nat × Nat}
    (h : (threes ns)[k]? = some tuple) :
    ns[edgeWidth * k]? = some tuple.1 ∧ ns[edgeWidth * k + 1]? = some tuple.2.1 ∧
      ns[edgeWidth * k + 2]? = some tuple.2.2 := by
  fun_induction threes ns generalizing k with
  | case1 a b c rest ih =>
    cases k with
    | zero =>
      obtain rfl : (a, b, c) = tuple := Option.some.inj h
      exact ⟨rfl, rfl, rfl⟩
    | succ k => exact ih h
  | case2 ns hshort => cases h

theorem length_sixes (ns : List Nat) : (sixes ns).length = ns.length / nodeWidth := by
  fun_induction sixes ns with
  | case1 a b c d e f rest ih =>
    simp only [List.length_cons, ih, nodeWidth]
    omega
  | case2 ns hshort =>
    have hlt : ns.length < 6 := by
      rcases ns with _ | ⟨a, _ | ⟨b, _ | ⟨c, _ | ⟨d, _ | ⟨e, _ | ⟨f, rest⟩⟩⟩⟩⟩⟩
      iterate 6 simp
      exact (hshort a b c d e f rest rfl).elim
    simp only [List.length_nil, nodeWidth]
    omega

theorem getElem?_sixes {ns : List Nat} {i : Nat} {tuple : Nat × Nat × Nat × Nat × Nat × Nat}
    (h : (sixes ns)[i]? = some tuple) : ns[nodeWidth * i + 4]? = some tuple.2.2.2.2.1 := by
  fun_induction sixes ns generalizing i with
  | case1 a b c d e f rest ih =>
    cases i with
    | zero =>
      obtain rfl : (a, b, c, d, e, f) = tuple := Option.some.inj h
      rfl
    | succ i => exact ih h
  | case2 ns hshort => cases h

/-! ## The shares of the nodes -/

/-- How many edges are said to leave a node: the fifth of its six numbers, as long as all six are
there. -/
def countAt (d : Document) (i : Nat) : Nat :=
  if i < d.nodes.length / nodeWidth then (d.nodes[nodeWidth * i + 4]?).getD 0 else 0

/-- How many edges are said to leave the nodes before a node. -/
def edgesBefore (d : Document) : Nat → Nat
  | 0 => 0
  | i + 1 => d.edgesBefore i + d.countAt i

theorem countAt_eq (d : Document) (i : Nat) :
    d.countAt i = ((d.nodeRows[i]?).map (·.edgeCount)).getD 0 := by
  rw [countAt, ← length_sixes, nodeRows, List.getElem?_map]
  by_cases hi : i < (sixes d.nodes).length
  · have htuple : (sixes d.nodes)[i]? = some (sixes d.nodes)[i] := List.getElem?_eq_getElem hi
    rw [if_pos hi, getElem?_sixes htuple, htuple]
    rfl
  · rw [if_neg hi, List.getElem?_eq_none (Nat.le_of_not_lt hi)]
    rfl

theorem edgesBefore_mono (d : Document) {i j : Nat} (h : i ≤ j) :
    d.edgesBefore i ≤ d.edgesBefore j := by
  induction h with
  | refl => exact Nat.le_refl _
  | step _ ih => exact Nat.le_trans ih (Nat.le_add_right ..)

/-- An edge stands in the share of one node at most. -/
theorem share_unique {d : Document} {i j k : Nat} (hi : d.edgesBefore i ≤ k)
    (hi' : k < d.edgesBefore (i + 1)) (hj : d.edgesBefore j ≤ k)
    (hj' : k < d.edgesBefore (j + 1)) : i = j := by
  rcases Nat.lt_trichotomy i j with hlt | heq | hgt
  · have hmono := d.edgesBefore_mono (show i + 1 ≤ j from hlt)
    omega
  · exact heq
  · have hmono := d.edgesBefore_mono (show j + 1 ≤ i from hgt)
    omega

theorem exists_share {d : Document} {count k : Nat} (h : k < d.edgesBefore count) :
    ∃ i < count, d.edgesBefore i ≤ k ∧ k < d.edgesBefore (i + 1) := by
  induction count with
  | zero => exact absurd h (Nat.not_lt_zero k)
  | succ count ih =>
    by_cases hk : k < d.edgesBefore count
    · obtain ⟨i, hi, hshare⟩ := ih hk
      exact ⟨i, Nat.lt_succ_of_lt hi, hshare⟩
    · exact ⟨count, Nat.lt_succ_self count, Nat.le_of_not_lt hk, h⟩

/-! ## Dealing the edges out -/

/-- How many edges the first rows of a list take, as long as there are enough. -/
def taken : List NodeRow → Nat → Nat
  | _, 0 => 0
  | [], _ + 1 => 0
  | n :: ns, i + 1 => n.edgeCount + taken ns i

theorem taken_succ (rows : List NodeRow) (i : Nat) :
    taken rows (i + 1) = taken rows i + ((rows[i]?).map (·.edgeCount)).getD 0 := by
  induction rows generalizing i with
  | nil => cases i <;> rfl
  | cons n ns ih =>
    cases i with
    | zero => simp [taken]
    | succ i =>
      rw [taken, ih, taken, List.getElem?_cons_succ]
      omega

theorem edgesBefore_eq_taken (d : Document) (i : Nat) : d.edgesBefore i = taken d.nodeRows i := by
  induction i with
  | zero => rw [edgesBefore, taken]
  | succ i ih => rw [edgesBefore, ih, countAt_eq, taken_succ]

theorem length_dealEdges (d : Document) (source : Nat) (rows : List NodeRow)
    (tuples : List (Nat × Nat × Nat)) :
    (d.dealEdges source rows tuples).length = min (taken rows rows.length) tuples.length := by
  induction rows generalizing source tuples with
  | nil => simp [dealEdges, taken]
  | cons n ns ih =>
    simp only [dealEdges, List.length_append, List.length_map, List.length_take, ih,
      List.length_drop, List.length_cons, taken]
    omega

/-- The tuple at a place goes to the row in whose share the place lies. -/
theorem getElem?_dealEdges (d : Document) (source : Nat) {rows : List NodeRow}
    (tuples : List (Nat × Nat × Nat)) {i k : Nat} (hle : taken rows i ≤ k)
    (hlt : k < taken rows (i + 1)) (hk : k < tuples.length) :
    (d.dealEdges source rows tuples)[k]? = some (d.edgeRow (source + i) tuples[k]) := by
  induction rows generalizing source tuples i k with
  | nil => exact absurd hlt (Nat.not_lt_zero k)
  | cons n ns ih =>
    rw [dealEdges]
    cases i with
    | zero =>
      have hfirst : k < n.edgeCount := by simpa [taken] using hlt
      rw [List.getElem?_append_left (by simp; omega), List.getElem?_map,
        List.getElem?_take_of_lt hfirst, List.getElem?_eq_getElem hk]
      rfl
    | succ i =>
      -- The first row takes its whole share, since there is a tuple even behind it.
      have hle' : n.edgeCount + taken ns i ≤ k := hle
      have hlt' : k < n.edgeCount + taken ns (i + 1) := hlt
      have hfull : min n.edgeCount tuples.length = n.edgeCount := by omega
      have hrest := ih (source + 1) (tuples.drop n.edgeCount) (i := i) (k := k - n.edgeCount)
        (by omega) (by omega) (by rw [List.length_drop]; omega)
      have hplace : n.edgeCount + (k - n.edgeCount) = k := by omega
      rw [List.getElem?_append_right (by simp; omega), List.length_map, List.length_take, hfull,
        hrest, Nat.add_right_comm]
      simp only [List.getElem_drop, hplace]
      rfl

theorem getElem?_edgeRows {d : Document} {i k : Nat} (hle : d.edgesBefore i ≤ k)
    (hlt : k < d.edgesBefore (i + 1)) :
    d.edgeRows[k]? = ((threes d.edges)[k]?).map (d.edgeRow i) := by
  rw [edgesBefore_eq_taken] at hle hlt
  by_cases hk : k < (threes d.edges).length
  · rw [edgeRows, getElem?_dealEdges d 0 _ hle hlt hk, Nat.zero_add, List.getElem?_eq_getElem hk]
    rfl
  · have hshort : d.edgeRows.length ≤ k := by
      rw [edgeRows, length_dealEdges]
      omega
    rw [List.getElem?_eq_none hshort, List.getElem?_eq_none (Nat.le_of_not_lt hk)]
    rfl

theorem length_edgeRows (d : Document) :
    d.edgeRows.length =
      min (d.edgesBefore (d.nodes.length / nodeWidth)) (d.edges.length / edgeWidth) := by
  have hrows : d.nodeRows.length = d.nodes.length / nodeWidth := by
    rw [nodeRows, List.length_map, length_sixes]
  rw [edgeRows, length_dealEdges, length_threes, hrows, edgesBefore_eq_taken]

/-! ## What an edge is read as -/

/-- An edge as it is read off a code, the number for its name or index, and the place of its
target among the numbers of the nodes. -/
structure EdgeRow.Shows (e : EdgeRow) (d : Document) (code label place : Nat) : Prop where
  kind_eq : e.kind = EdgeKind.ofCode? code
  target_eq : e.target = place / nodeWidth
  index_iff : e.index.isSome ↔ e.kind = some .element ∨ e.kind = some .hidden
  /-- Indexed kinds take the number as it is and never have a name. -/
  indexed : e.index.isSome → e.index = some label ∧ e.name = none
  /-- All others, and a kind that is not known, take it as the position of a string. -/
  named : e.index = none → e.name = d.strings[label]? ∧ (e.name = none ↔ d.strings.length ≤ label)

theorem shows_edgeRow (d : Document) (source : Nat) (tuple : Nat × Nat × Nat) :
    (d.edgeRow source tuple).Shows d tuple.1 tuple.2.1 tuple.2.2 := by
  have hindexed : ((EdgeKind.ofCode? tuple.1).map (·.isIndexed)).getD false = true ↔
      EdgeKind.ofCode? tuple.1 = some .element ∨ EdgeKind.ofCode? tuple.1 = some .hidden := by
    cases EdgeKind.ofCode? tuple.1 with
    | none => simp
    | some kind => cases kind <;> simp [EdgeKind.isIndexed]
  cases hb : ((EdgeKind.ofCode? tuple.1).map (·.isIndexed)).getD false with
  | true =>
    have hkind := hindexed.mp hb
    refine ⟨rfl, rfl, ?_, ?_, ?_⟩
    · simpa [edgeRow, hb] using hkind
    · simp [edgeRow, hb]
    · simp [edgeRow, hb]
  | false =>
    have hkind := mt hindexed.mpr (by rw [hb]; decide)
    refine ⟨rfl, rfl, ?_, ?_, ?_⟩
    · simpa [edgeRow, hb] using hkind
    · simp [edgeRow, hb]
    · simp [edgeRow, hb, string?]

/-- Every document has as many edges as its nodes claim, or as its list holds if that is fewer. The
`k`-th edge is the `k`-th whole tuple of the list, and it leaves the one node whose share of the
list the place `k` lies in. -/
theorem edgeRows_recovered (d : Document) :
    d.edgeRows.length =
      min (d.edgesBefore (d.nodes.length / nodeWidth)) (d.edges.length / edgeWidth) ∧
    ∀ k e, d.edgeRows[k]? = some e →
      e.source < d.nodes.length / nodeWidth ∧
      (∀ i, d.edgesBefore i ≤ k ∧ k < d.edgesBefore (i + 1) ↔ i = e.source) ∧
      ∃ code label place, d.edges[edgeWidth * k]? = some code ∧
        d.edges[edgeWidth * k + 1]? = some label ∧ d.edges[edgeWidth * k + 2]? = some place ∧
        e.Shows d code label place := by
  refine ⟨d.length_edgeRows, ?_⟩
  intro k e he
  have hk : k < d.edgesBefore (d.nodes.length / nodeWidth) := by
    have hlt := (List.getElem?_eq_some_iff.mp he).1
    rw [length_edgeRows] at hlt
    omega
  obtain ⟨i, hi, hle, hlt⟩ := exists_share hk
  rw [getElem?_edgeRows hle hlt] at he
  obtain ⟨tuple, htuple, rfl⟩ := Option.map_eq_some_iff.mp he
  obtain ⟨hcode, hlabel, hplace⟩ := getElem?_threes htuple
  refine ⟨hi, ?_, tuple.1, tuple.2.1, tuple.2.2, hcode, hlabel, hplace, d.shows_edgeRow i tuple⟩
  intro j
  constructor
  · rintro ⟨hj, hj'⟩
    exact share_unique hj hj' hle hlt
  · rintro rfl
    exact ⟨hle, hlt⟩

/-- Three nodes and the start of a fourth; the first has no edge, the second claims two, the third
far more than there are. The edges have a known kind with a string, an unknown kind, an index and a
string that is not in the table; the start of another edge is left over. -/
def misfit : Document where
  header := { layout := default, nodeCount := 9, edgeCount := 0 }
  nodes := [9, 0, 2, 0, 0, 0, 3, 1, 20, 8, 2, 0, 3, 7, 22, 8, 1000000, 0, 3, 1, 24, 8, 5]
  edges := [2, 1, 6, 77, 1, 12, 4, 9, 700, 2, 9, 0, 1]
  strings := ["<dummy>", "x"]

theorem edgeRows_misfit :
    misfit.edgeRows.length = min 1000002 4 ∧
    misfit.edgeRows[1]? = some ⟨1, none, some "x", none, 2⟩ ∧
    misfit.edgeRows[2]? = some ⟨2, some .hidden, none, some 9, 116⟩ ∧
    misfit.edgeRows[3]? = some ⟨2, some .property, none, none, 0⟩ ∧
    (∀ i, misfit.edgesBefore i ≤ 3 ∧ 3 < misfit.edgesBefore (i + 1) ↔ i = 2) := by
  have hlast : misfit.edgeRows[3]? = some ⟨2, some .property, none, none, 0⟩ := rfl
  obtain ⟨hlength, hedges⟩ := edgeRows_recovered misfit
  exact ⟨hlength, rfl, rfl, hlast, (hedges 3 _ hlast).2.1⟩

end ManagedHeap.Document
