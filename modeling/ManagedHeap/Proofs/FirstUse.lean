import ManagedHeap.Proofs.Cutting
import ManagedHeap.Proofs.RoundTrip
import Mathlib.Data.List.Nodup

/-!
# Strings in the order of their first use

A table with several strings entered is the table before, followed by those strings that it did not
have, each where it came first. From this the section of strings at the end of a document is known
exactly, and with it every number that stands for a name in the sections before.
-/
namespace ManagedHeap

/-- Strings that are not there yet go to the end, each once and in the order of their first use. -/
theorem Names.toList_insertAll (names : Names) (texts : List String) :
    (names.insertAll texts).toList =
      names.toList ++ (texts.filter (· ∉ names.toList)).eraseDups := by
  induction texts generalizing names with
  | nil => simp [insertAll]
  | cons t ts ih =>
    have hstep : names.insertAll (t :: ts) = (names.insert t).insertAll ts := rfl
    rw [hstep, ih, toList_insert]
    by_cases hmem : t ∈ names.toList
    · rw [if_pos hmem, List.filter_cons_of_neg (by simpa using hmem)]
    · have hlater : ts.filter (· ∉ names.toList ++ [t]) =
          (ts.filter (· ∉ names.toList)).filter (fun b => !b == t) := by
        rw [List.filter_filter]
        refine List.filter_congr fun b _ => ?_
        simp [and_comm, beq_eq_decide]
      rw [if_neg hmem, List.filter_cons_of_pos (by simpa using hmem), List.eraseDups_cons,
        hlater, List.append_assoc, List.singleton_append]

namespace Document

variable {g : Graph}

theorem toList_firstStrings : firstStrings.toList = [placeholder] := by
  rw [firstStrings, Names.toList_insert]
  rfl

/-- The table at the end of a document, with the placeholder at its head. -/
theorem toList_finalStrings (g : Graph) (edges : List Edge) :
    (finalStrings g edges).toList =
      placeholder :: ((usedNames g edges).filter (· != placeholder)).eraseDups := by
  have hfilter : (usedNames g edges).filter (· ∉ firstStrings.toList) =
      (usedNames g edges).filter (· != placeholder) := by
    refine List.filter_congr fun text _ => ?_
    simp [toList_firstStrings, bne, beq_eq_decide]
  rw [finalStrings, Names.toList_insertAll, hfilter, toList_firstStrings, List.singleton_append]

theorem nodup_finalStrings (g : Graph) (edges : List Edge) :
    (finalStrings g edges).toList.Nodup :=
  nodup_insertAll _ (by rw [toList_firstStrings]; exact List.nodup_singleton _)

theorem getElem?_finalStrings {edges : List Edge} {text : String}
    (h : text ∈ usedNames g edges) :
    (finalStrings g edges).toList[(finalStrings g edges).number text]? = some text :=
  Names.getElem?_number (mem_insertAll.mpr (.inr h))

/-! ## Edges in the order of the document -/

/-- The edges of a document are the children of the first node, then those of the second, and so
on. -/
theorem edgesBySource_eq (g : Graph) :
    edgesBySource g = ((List.range g.nodeCount).mapM g.children).map List.flatten := by
  have hfold : ∀ (is : List Nat) (es : List Edge),
      is.foldlM (fun es i => do .ok (es ++ (← g.children i))) es =
        (is.mapM g.children).map (fun kids => es ++ kids.flatten) := by
    intro is
    induction is with
    | nil => intro es; simp [pure, Except.pure, Except.map]
    | cons i is ih =>
      intro es
      rw [List.foldlM_cons, List.mapM_cons]
      cases hchildren : g.children i with
      | error f => rfl
      | ok kids =>
        refine (ih (es ++ kids)).trans ?_
        cases is.mapM g.children with
        | error f => rfl
        | ok rest => simp [Except.map, bind, Except.bind, pure, Except.pure]
  rw [edgesBySource, hfold]
  rfl

theorem exists_kids (hgrouped : g.isGrouped = true) :
    ∃ kids, (List.range g.nodeCount).mapM g.children = .ok kids ∧
      edgesBySource g = .ok kids.flatten := by
  obtain ⟨edges, hedges⟩ := exists_edgesBySource hgrouped
  rw [edgesBySource_eq] at hedges
  cases hkids : (List.range g.nodeCount).mapM g.children with
  | error f => rw [hkids] at hedges; cases hedges
  | ok kids => exact ⟨kids, rfl, by rw [edgesBySource_eq, hkids]; rfl⟩

/-! ## The section of strings -/

/-- All records behind the opening, with names looked up in the finished table. -/
theorem bodyLines_eq (g : Graph) (edges : List Edge) :
    bodyLines g edges = lines (numberedNode (finalStrings g edges)) true g.nodes.toList ++
      edgesOpening :: lines (numberedEdge (finalStrings g edges)) true edges ++
      samplesOpening :: sampleLines true g.samples ++
      stringsOpening :: stringLines true (finalStrings g edges).toList ++ [closing] := by
  obtain ⟨hnodes, hedges, hstrings⟩ := parts_eq g edges
  rw [bodyLines, hnodes, tailLines]
  simp only [hedges, hstrings]
  simp

theorem strings_of_nodes (g : Graph) (edges : List Edge) :
    (sixes (written g edges).nodes).map (fun r => (written g edges).string? r.2.1) =
      g.nodes.toList.map (some ·.name) := by
  rw [written, sixes_flatMap, List.map_map]
  refine List.map_congr_left fun n hn => ?_
  exact string?_written (List.mem_append_left _ (List.mem_map_of_mem hn))

theorem strings_of_edges (g : Graph) (edges : List Edge) :
    (threes (written g edges).edges).map (·.2.1) =
      edges.map fun e => labelNumber (finalStrings g edges) e.label := by
  rw [written, threes_flatMap, List.map_map]
  rfl

/-- The strings of a document are the placeholder and behind it every other string that is used, by
nodes in their order and then by edges in the order of the document, each where it is used first.
No string stands there twice and none but the placeholder without use. Every record that refers to
a string has its position in that table, whatever the wanted size of chunks, and is read back so if
the numbers of the document fit. -/
theorem write_strings_by_first_use (hgrouped : g.isGrouped = true)
    (hroot : ∀ n, g.nodes[0]? = some n → n.kind = .synthetic) :
    ∃ kids table, (List.range g.nodeCount).mapM g.children = .ok kids ∧
      Names.toList table = placeholder ::
        ((g.nodes.toList.map (·.name) ++ kids.flatten.filterMap (·.label.name?)).filter
          (· != placeholder)).eraseDups ∧
      table.toList.Nodup ∧
      (∀ text ∈ table.toList.tail, (∃ n ∈ g.nodes, n.name = text) ∨
        ∃ es ∈ kids, ∃ e ∈ es, e.label = .name text) ∧
      (∀ n ∈ g.nodes, table.toList[table.number n.name]? = some n.name) ∧
      (∀ es ∈ kids, ∀ e ∈ es, ∀ text, e.label = .name text →
        table.toList[table.number text]? = some text) ∧
      ∀ chunkSize < wordLimit 63, ∃ sink,
        write g (Sink.collecting chunkSize none) {} = .ok (.completed, sink) ∧
        sink.text = String.join (opening g ::
          lines (fun first n => nodeLine first (table.number n.name) n) true g.nodes.toList ++
          edgesOpening ::
            lines (fun first e => edgeLine first (labelNumber table e.label) e) true
              kids.flatten ++
          samplesOpening :: sampleLines true g.samples ++
          stringsOpening :: stringLines true table.toList ++ [closing]) ∧
        ((written g kids.flatten).Fits → ∃ d, read sink.text = .ok d ∧
          d.strings = table.toList ∧
          (sixes d.nodes).map (fun r => d.string? r.2.1) = g.nodes.toList.map (some ·.name) ∧
          (threes d.edges).map (·.2.1) =
            kids.flatten.map fun e => labelNumber table e.label) := by
  obtain ⟨kids, hkids, hedges⟩ := exists_kids hgrouped
  have hnode : ∀ n ∈ g.nodes, n.name ∈ usedNames g kids.flatten := fun n hn =>
    List.mem_append_left _ (List.mem_map_of_mem (Array.mem_toList_iff.mpr hn))
  have hedge : ∀ es ∈ kids, ∀ e ∈ es, ∀ text, e.label = .name text →
      text ∈ usedNames g kids.flatten := fun es hes e he text hlabel =>
    List.mem_append_right _ (List.mem_filterMap.mpr
      ⟨e, List.mem_flatten.mpr ⟨es, hes, he⟩, by rw [hlabel]; rfl⟩)
  refine ⟨kids, finalStrings g kids.flatten, hkids, toList_finalStrings .., nodup_finalStrings ..,
    fun text htext => ?_, fun n hn => getElem?_finalStrings (hnode n hn),
    fun es hes e he text hlabel => getElem?_finalStrings (hedge es hes e he text hlabel),
    fun chunkSize hsize => ?_⟩
  · rw [toList_finalStrings, List.tail_cons, List.mem_eraseDups, List.mem_filter] at htext
    rcases List.mem_append.mp htext.1 with huse | huse
    · obtain ⟨n, hn, rfl⟩ := List.mem_map.mp huse
      exact .inl ⟨n, Array.mem_toList_iff.mp hn, rfl⟩
    · obtain ⟨e, he, hname⟩ := List.mem_filterMap.mp huse
      obtain ⟨es, hes, he⟩ := List.mem_flatten.mp he
      refine .inr ⟨es, hes, e, he, ?_⟩
      cases hlabel : e.label with
      | index n => rw [hlabel] at hname; cases hname
      | name text' => rw [hlabel] at hname; exact congrArg Label.name (Option.some.inj hname)
  · obtain ⟨sink, hwrite, -, htext⟩ := exists_write (records_of_edges hroot hedges) hsize
    refine ⟨sink, hwrite, ?_, fun hfits => ⟨_, ?_, rfl, strings_of_nodes .., strings_of_edges ..⟩⟩
    · rw [htext, bodyLines_eq]
      rfl
    · rw [htext]
      exact read_written hfits

/-- Three nodes, one of them with the name of the placeholder, and edges that were drawn in another
order than that of their sources. -/
def sharedNames : Graph :=
  let nodes : List Node := [{ kind := .synthetic, name := "top", id := .root, selfSize := 0 },
    { kind := .object, name := placeholder, id := ⟨3⟩, selfSize := 8 },
    { kind := .object, name := "b", id := ⟨5⟩, selfSize := 8 }]
  let edges : List Edge := [⟨.property, .name "next", 2, 1⟩, ⟨.property, .name "a", 0, 2⟩,
    ⟨.element, .index 7, 0, 1⟩, ⟨.internal, .name "b", 1, 1⟩,
    ⟨.property, .name placeholder, 1, 2⟩]
  (edges.foldl Graph.pushEdge (nodes.foldl Graph.pushNode .empty)).group

/-- A name that is used twice stands in the table once, the placeholder only at its head, and the
names of edges in the order of the document. -/
theorem write_strings_shared_names : ∃ edges table sink,
    sharedNames.isGrouped = true ∧
    (∀ n, sharedNames.nodes[0]? = some n → n.kind = .synthetic) ∧
    write sharedNames (Sink.collecting 5 none) {} = .ok (.completed, sink) ∧
    Names.toList table = [placeholder, "top", "b", "a", "next"] ∧
    sink.text = String.join (opening sharedNames ::
      lines (fun first n => nodeLine first (table.number n.name) n) true
        sharedNames.nodes.toList ++
      edgesOpening :: lines (fun first e => edgeLine first (labelNumber table e.label) e) true
        edges ++
      samplesOpening :: sampleLines true sharedNames.samples ++
      stringsOpening :: stringLines true table.toList ++ [closing]) ∧
    edges.map (fun e => labelNumber table e.label) = [3, 7, 2, 0, 4] := by
  have hroot : ∀ n, sharedNames.nodes[0]? = some n → n.kind = .synthetic := by
    intro n hn
    have hkind : sharedNames.nodes[0]?.map (·.kind) = some .synthetic := by decide +kernel
    rw [hn] at hkind
    exact Option.some.inj hkind
  obtain ⟨kids, table, hkids, htable, -, -, -, -, hwrite⟩ :=
    write_strings_by_first_use (g := sharedNames) rfl hroot
  obtain ⟨sink, hsink, htext, -⟩ := hwrite 5 (by decide)
  have hsplit : kids = [[⟨.property, .name "a", 0, 2⟩, ⟨.element, .index 7, 0, 1⟩],
      [⟨.internal, .name "b", 1, 1⟩, ⟨.property, .name placeholder, 1, 2⟩],
      [⟨.property, .name "next", 2, 1⟩]] :=
    Except.ok.inj (hkids.symm.trans (by decide +kernel))
  subst hsplit
  have hstrings : table.toList = [placeholder, "top", "b", "a", "next"] :=
    htable.trans (by decide +kernel)
  refine ⟨_, table, sink, rfl, hroot, hsink, hstrings, htext, ?_⟩
  simp only [List.flatten_cons, List.flatten_nil, List.append_nil, List.cons_append,
    List.nil_append, List.map_cons, List.map_nil, labelNumber, Names.number, hstrings]
  decide +kernel

end Document

end ManagedHeap
