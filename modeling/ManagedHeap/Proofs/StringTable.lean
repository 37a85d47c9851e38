import ManagedHeap.Document.Writer
import Mathlib.Data.List.Basic

/-!
# The table of strings

Strings enter the table of a written document on their way, at their first use. A table only grows
at its end, so the number that stands in a record is the position of its string in the finished
table.
-/
namespace ManagedHeap

namespace Names

/-- Position of a string in the table, or behind it. -/
def number (names : Names) (text : String) : Nat := names.toList.idxOf text

/-- The table with several strings entered one after the other. -/
def insertAll (names : Names) (texts : List String) : Names := texts.foldl insert names

theorem position?_eq (names : Names) (text : String) :
    names.position? text = if text ∈ names.toList then some (names.number text) else none := by
  have hlist : names.position? text = names.toList.idxOf? text := by
    rw [position?, toList, ← List.idxOf?_toArray, Array.toArray_toList]
  rw [hlist]
  split
  · next hmem =>
    have hlt := List.idxOf_lt_length_of_mem hmem
    refine List.idxOf?_eq_some_iff.mpr ⟨hlt, List.getElem_idxOf hlt, ?_⟩
    intro j hj heq
    have hne := List.not_of_lt_findIdx hj
    simp [heq] at hne
  · next hmem => exact List.idxOf?_eq_none_iff.mpr hmem

theorem enter_eq (names : Names) (text : String) :
    names.enter text = ((names.insert text).number text, names.insert text) := by
  refine Prod.ext ?_ rfl
  rw [number, toList_insert]
  unfold enter
  rw [position?_eq]
  by_cases hmem : text ∈ names.toList
  · simp [hmem, number]
  · simp only [if_neg hmem, List.idxOf_append_of_notMem hmem]
    simp [toList]

theorem prefix_insert (names : Names) (text : String) :
    names.toList <+: (names.insert text).toList := by
  rw [toList_insert]
  split
  · exact List.prefix_rfl
  · exact List.prefix_append ..

theorem prefix_insertAll (names : Names) (texts : List String) :
    names.toList <+: (names.insertAll texts).toList := by
  induction texts generalizing names with
  | nil => exact List.prefix_rfl
  | cons t ts ih => exact (prefix_insert names t).trans (ih _)

theorem mem_insert (names : Names) (text : String) : text ∈ (names.insert text).toList := by
  rw [toList_insert]
  split
  · assumption
  · simp

/-- A string keeps its number when the table grows. -/
theorem number_of_prefix {names names' : Names} {text : String} (hmem : text ∈ names.toList)
    (h : names.toList <+: names'.toList) : names'.number text = names.number text := by
  obtain ⟨more, hmore⟩ := h
  rw [number, number, ← hmore, List.idxOf_append_of_mem hmem]

theorem getElem?_number {names : Names} {text : String} (hmem : text ∈ names.toList) :
    names.toList[names.number text]? = some text := by
  rw [number, List.getElem?_eq_getElem (List.idxOf_lt_length_of_mem hmem),
    List.getElem_idxOf]

end Names

namespace Document

/-! ## Records with the numbers of a finished table -/

/-- One record for each item; `line` is told which one comes first. -/
def lines {α : Type} (line : Bool → α → String) : Bool → List α → List String
  | _, [] => []
  | first, a :: as => line first a :: lines line false as

/-- The record of a node whose name is looked up in a finished table. -/
def numberedNode (table : Names) (first : Bool) (n : Node) : String :=
  nodeLine first (table.number n.name) n

/-- The number that stands for a label when names are looked up in a finished table. -/
def labelNumber (table : Names) : Label → Nat
  | .index n => n
  | .name text => table.number text

def numberedEdge (table : Names) (first : Bool) (e : Edge) : String :=
  edgeLine first (labelNumber table e.label) e

theorem nodeLines_names (first : Bool) (strings : Names) (ns : List Node) :
    (nodeLines first strings ns).2 = strings.insertAll (ns.map (·.name)) := by
  induction ns generalizing first strings with
  | nil => rfl
  | cons n ns ih =>
    simp only [nodeLines, ih]
    rfl

theorem edgeLines_names (first : Bool) (strings : Names) (es : List Edge) :
    (edgeLines first strings es).2 = strings.insertAll (es.filterMap (·.label.name?)) := by
  induction es generalizing first strings with
  | nil => rfl
  | cons e es ih =>
    simp only [edgeLines, ih]
    cases hl : e.label with
    | index n => simp [hl, Label.name?, enterLabel]
    | name text => simp [hl, Label.name?, enterLabel, Names.insertAll, Names.insert]

/-- Every name in the records of nodes is its position in any later table. -/
theorem nodeLines_eq {first : Bool} {strings table : Names} {ns : List Node}
    (h : (nodeLines first strings ns).2.toList <+: table.toList) :
    (nodeLines first strings ns).1 = lines (numberedNode table) first ns := by
  induction ns generalizing first strings with
  | nil => rfl
  | cons n ns ih =>
    simp only [nodeLines, Names.enter_eq] at h ⊢
    have hprefix : (strings.insert n.name).toList <+: table.toList := by
      refine List.IsPrefix.trans ?_ h
      rw [nodeLines_names]
      exact Names.prefix_insertAll ..
    rw [ih h, lines, numberedNode, Names.number_of_prefix (Names.mem_insert strings n.name) hprefix]

/-- Every name in the records of edges is its position in any later table. -/
theorem edgeLines_eq {first : Bool} {strings table : Names} {es : List Edge}
    (h : (edgeLines first strings es).2.toList <+: table.toList) :
    (edgeLines first strings es).1 = lines (numberedEdge table) first es := by
  induction es generalizing first strings with
  | nil => rfl
  | cons e es ih =>
    simp only [edgeLines] at h ⊢
    have hnumber : (enterLabel strings e.label).1 = labelNumber table e.label := by
      cases hl : e.label with
      | index n => rfl
      | name text =>
        have hprefix : (strings.insert text).toList <+: table.toList := by
          refine List.IsPrefix.trans ?_ h
          rw [edgeLines_names, hl]
          exact Names.prefix_insertAll ..
        simp only [enterLabel, Names.enter_eq, labelNumber]
        exact (Names.number_of_prefix (Names.mem_insert strings text) hprefix).symm
    rw [ih h, lines, numberedEdge, hnumber]

/-! ## The finished table -/

/-- The names that a graph's records use, in the order of their use. -/
def usedNames (g : Graph) (edges : List Edge) : List String :=
  g.nodes.toList.map (·.name) ++ edges.filterMap (·.label.name?)

/-- The table at the end of a document. -/
def finalStrings (g : Graph) (edges : List Edge) : Names :=
  firstStrings.insertAll (usedNames g edges)

theorem insertAll_append (names : Names) (xs ys : List String) :
    names.insertAll (xs ++ ys) = (names.insertAll xs).insertAll ys :=
  List.foldl_append ..

theorem mem_insertAll {names : Names} {texts : List String} {text : String} :
    text ∈ (names.insertAll texts).toList ↔ text ∈ names.toList ∨ text ∈ texts := by
  induction texts generalizing names with
  | nil => simp [Names.insertAll]
  | cons t ts ih =>
    have hstep : names.insertAll (t :: ts) = (names.insert t).insertAll ts := rfl
    rw [hstep, ih, Names.toList_insert]
    by_cases hmem : t ∈ names.toList
    · rw [if_pos hmem]
      constructor
      · rintro (h | h)
        · exact .inl h
        · exact .inr (List.mem_cons_of_mem _ h)
      · rintro (h | h)
        · exact .inl h
        · rcases List.mem_cons.mp h with rfl | h
          · exact .inl hmem
          · exact .inr h
    · simp [hmem, or_assoc]

theorem nodup_insertAll {names : Names} (texts : List String) (h : names.toList.Nodup) :
    (names.insertAll texts).toList.Nodup := by
  induction texts generalizing names with
  | nil => exact h
  | cons t ts ih =>
    apply ih
    rw [Names.toList_insert]
    split
    · exact h
    · next hmem => exact List.nodup_append.mpr ⟨h, by simp, by rintro a ha b hb rfl; simp_all⟩

/-- The records of a document, looked up in its finished table. -/
theorem parts_eq (g : Graph) (edges : List Edge) :
    (nodePart g).1 = lines (numberedNode (finalStrings g edges)) true g.nodes.toList ∧
      (edgeLines true (nodePart g).2 edges).1 =
        lines (numberedEdge (finalStrings g edges)) true edges ∧
      (edgeLines true (nodePart g).2 edges).2 = finalStrings g edges := by
  have hfinal : (edgeLines true (nodePart g).2 edges).2 = finalStrings g edges := by
    rw [edgeLines_names, nodePart, nodeLines_names, finalStrings, usedNames, insertAll_append]
  refine ⟨?_, ?_, hfinal⟩
  · apply nodeLines_eq
    rw [← hfinal, edgeLines_names]
    exact Names.prefix_insertAll ..
  · apply edgeLines_eq
    exact hfinal ▸ List.prefix_rfl

end Document

end ManagedHeap
