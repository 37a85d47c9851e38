import ManagedHeap.Document.Reader
import ManagedHeap.Proofs.Building
import ManagedHeap.Proofs.Packing
import ManagedHeap.Proofs.Reading
import ManagedHeap.Proofs.StringTable
import Mathlib.Data.List.Dedup
import Mathlib.Data.List.Perm.Subperm

/-!
# Documents are read as they were written

The text of a document is taken apart section by section: each line of numbers, the table of
strings and the members of the three nested records. What is read is the graph, with names as
positions in the table; from there its rows are recovered.
-/
namespace ManagedHeap.Document

open Json

/-! ## The layout description -/

theorem reads_field {α β : Type} {key : String} {get : α → Option β} {set : α → β → α}
    {read : Reader β} {a : α} {cs : List Char} {x : β} (h : Reads read cs x) :
    Reads ((field key get set read).read a) cs (set a x) := by
  intro rest hr
  simp [field, h rest hr, Except.map]

theorem reads_texts (depth : Nat) (texts : List String) :
    Reads (readTexts (depth + 1)) (textsJson texts).chars texts :=
  reads_arr fun text _ => ⟨starts_quoteChars text, reads_text text⟩

theorem reads_values {depth : Nat} {vs : List Json} (h : ∀ v ∈ vs, Plain depth v) :
    Reads (readValues (depth + 1)) (Json.arr vs).chars vs := by
  have hread : Reads (readArray (depth + 1) readValue) (Json.arr (vs.map id)).chars vs :=
    reads_arr fun v hv => ⟨(h v hv).starts, reads_plain (h v hv)⟩
  rwa [List.map_id] at hread

theorem plain_textsJson (depth : Nat) (texts : List String) :
    Plain (depth + 1) (textsJson texts) := by
  refine .arr depth ?_
  intro v hv
  obtain ⟨text, -, rfl⟩ := List.mem_map.mp hv
  exact .str depth text

/-- A layout description with everything given. -/
def Meta.given (m : Meta) : GivenMeta where
  nodeFields := some m.nodeFields
  nodeTypes := some m.nodeTypes
  edgeFields := some m.edgeFields
  edgeTypes := some m.edgeTypes
  traceFunctionInfoFields := some m.traceFunctionInfoFields
  traceNodeFields := some m.traceNodeFields
  sampleFields := some m.sampleFields

theorem Meta.complete_given (m : Meta) : m.given.complete = .ok m := rfl

/-- The layout description of a written document, as it is read. -/
def writtenLayout : Meta where
  nodeFields := ["type", "name", "id", "self_size", "edge_count", "trace_node_id"]
  nodeTypes := [textsJson (NodeKind.all.map (·.label)), .str "string", .str "number",
    .str "number", .str "number", .str "number"]
  edgeFields := ["type", "name_or_index", "to_node"]
  edgeTypes := [textsJson (EdgeKind.all.map (·.label)), .str "string_or_number", .str "node"]
  traceFunctionInfoFields := ["function_id", "name", "script_name", "script_id", "line", "column"]
  traceNodeFields := ["id", "function_info_index", "count", "size", "children"]
  sampleFields := ["timestamp_us", "last_assigned_id"]

/-- The members stand in the order of their keys. -/
theorem writtenMeta_eq : writtenMeta = .obj [
    ("edge_fields", textsJson writtenLayout.edgeFields),
    ("edge_types", .arr writtenLayout.edgeTypes),
    ("node_fields", textsJson writtenLayout.nodeFields),
    ("node_types", .arr writtenLayout.nodeTypes),
    ("sample_fields", textsJson writtenLayout.sampleFields),
    ("trace_function_info_fields", textsJson writtenLayout.traceFunctionInfoFields),
    ("trace_node_fields", textsJson writtenLayout.traceNodeFields)] := by
  simp only [writtenMeta, writtenLayout, ofMembers, insertMember, List.foldl_cons, List.foldl_nil,
    String.reduceLT, String.reduceEq, ↓reduceIte]

theorem chars_obj (ms : List (String × Json)) :
    (Json.obj ms).chars = '{' :: memberChars true ms := by rw [chars]

theorem members_writtenMeta (depth : Nat) :
    ∃ cs, writtenMeta.chars = '{' :: (cs ++ ['}']) ∧
      Members (readField (metaFields (depth + 2))) true {} cs writtenLayout.given := by
  have hedge : ∀ v ∈ writtenLayout.edgeTypes, Plain (depth + 1) v := by
    intro v hv
    simp only [writtenLayout, List.mem_cons, List.not_mem_nil, or_false] at hv
    rcases hv with rfl | rfl | rfl
    · exact plain_textsJson depth _
    all_goals exact .str _ _
  have hnode : ∀ v ∈ writtenLayout.nodeTypes, Plain (depth + 1) v := by
    intro v hv
    simp only [writtenLayout, List.mem_cons, List.not_mem_nil, or_false] at hv
    rcases hv with rfl | rfl | rfl | rfl | rfl | rfl
    · exact plain_textsJson depth _
    all_goals exact .str _ _
  refine ⟨_, ?_,
    .field "edge_fields" blank_nil rfl rfl (reads_field (reads_texts _ writtenLayout.edgeFields)) <|
    .field "edge_types" blank_nil rfl rfl (reads_field (reads_values hedge)) <|
    .field "node_fields" blank_nil rfl rfl (reads_field (reads_texts _ writtenLayout.nodeFields)) <|
    .field "node_types" blank_nil rfl rfl (reads_field (reads_values hnode)) <|
    .field "sample_fields" blank_nil rfl rfl
      (reads_field (reads_texts _ writtenLayout.sampleFields)) <|
    .field "trace_function_info_fields" blank_nil rfl rfl
      (reads_field (reads_texts _ writtenLayout.traceFunctionInfoFields)) <|
    .field "trace_node_fields" blank_nil rfl rfl
      (reads_field (reads_texts _ writtenLayout.traceNodeFields)) <|
    .nil false _⟩
  rw [writtenMeta_eq, chars_obj]
  simp only [memberChars, pairChars, comma, List.append_assoc, List.cons_append, List.nil_append,
    ↓reduceIte, List.append_nil, Bool.false_eq_true]

theorem reads_meta (depth : Nat) :
    Reads (readMeta (depth + 3)) writtenMeta.chars writtenLayout := by
  obtain ⟨cs, htext, hmembers⟩ := members_writtenMeta depth
  have hrecord : Reads (readRecord (depth + 3) metaFields {}) writtenMeta.chars
      writtenLayout.given := by
    rw [htext]
    exact reads_record hmembers
  intro rest hr
  rw [readMeta, hrecord rest hr]
  simp only [Meta.complete_given, bind, Except.bind]

/-! ## Lines of numbers -/

section
variable {α β : Type} {r : Reader β} {f : β → List Char} {line : Bool → α → String}
  {values : α → List β}

/-- Lines that each hold several items are the items of one array. -/
theorem items_lines
    (hline : ∀ first a,
      (line first a).toList = comma first ++ (separated ((values a).map f) ++ ['\n']))
    (hne : ∀ a, values a ≠ []) {as : List α}
    (hread : ∀ a ∈ as, ∀ x ∈ values a, Starts (f x) ∧ Reads r (f x) x) (first : Bool) :
    Items r first ((lines line first as).flatMap String.toList) (as.flatMap values) := by
  induction as generalizing first with
  | nil => exact .nil first
  | cons a as ih =>
    have hrest := ih (fun b hb => hread b (List.mem_cons_of_mem _ hb)) false
    have hnewline : Blank ['\n'] := by simp [Blank, isBlank]
    have hall := Items.line (hread a List.mem_cons_self) (hne a) hnewline hrest first
    simpa [lines, hline] using hall

end

/-- A node as numbers. -/
def nodeNumbers (table : Names) (n : Node) : List Nat :=
  [n.kind.toCode, table.number n.name, n.id.raw, n.selfSize, n.childCount, n.traceNode]

/-- An edge as numbers. -/
def edgeNumbers (table : Names) (e : Edge) : List Nat :=
  [e.kind.toCode, labelNumber table e.label, e.target * nodeWidth]

def sampleNumbers (s : Sample) : List Int := [s.time, s.nextId.raw]

theorem toList_separator (first : Bool) : (separator first).toList = comma first := by
  cases first <;> rfl

theorem toList_numberedNode (table : Names) (first : Bool) (n : Node) :
    (numberedNode table first n).toList =
      comma first ++ (separated ((nodeNumbers table n).map (Nat.toDigits 10)) ++ ['\n']) := by
  simp [numberedNode, nodeLine, nodeNumbers, separated, toList_separator]

theorem toList_numberedEdge (table : Names) (first : Bool) (e : Edge) :
    (numberedEdge table first e).toList =
      comma first ++ (separated ((edgeNumbers table e).map (Nat.toDigits 10)) ++ ['\n']) := by
  simp [numberedEdge, edgeLine, edgeNumbers, separated, toList_separator]

/-- The record of a sample. -/
def sampleLine (first : Bool) (s : Sample) : String :=
  separator first ++ toString s.time ++ "," ++ toString s.nextId.raw ++ "\n"

theorem sampleLines_eq (first : Bool) (ss : List Sample) :
    sampleLines first ss = lines sampleLine first ss := by
  induction ss generalizing first with
  | nil => rfl
  | cons s ss ih => rw [sampleLines, lines, ih, sampleLine]

theorem toList_sampleLine (first : Bool) (s : Sample) :
    (sampleLine first s).toList =
      comma first ++
        (separated ((sampleNumbers s).map fun n => (toString n).toList) ++ ['\n']) := by
  have hid : (toString (s.nextId.raw : Int)).toList = Nat.toDigits 10 s.nextId.raw := by
    rw [toList_toString_int, if_neg (by omega), Int.natAbs_natCast]
  simp only [sampleNumbers, List.map_cons, List.map_nil, hid]
  simp [sampleLine, separated, toList_separator]

theorem items_stringLines (texts : List String) (first : Bool) :
    Items readText first ((stringLines first texts).flatMap String.toList) texts := by
  induction texts generalizing first with
  | nil => exact .nil first
  | cons text texts ih =>
    have hrest := ih false
    have hstart := starts_quoteChars text
    have hread := reads_text text
    cases first with
    | true =>
      have hall : Items readText true _ _ := .cons blank_nil hstart hread blank_nil hrest
      simpa [stringLines, quote, comma] using hall
    | false =>
      have hnewline : Blank ['\n'] := by simp [Blank, isBlank]
      have hall : Items readText false _ _ := .cons hnewline hstart hread blank_nil hrest
      simpa [stringLines, quote, comma] using hall

/-! ## The whole text -/

/-- A header with everything given. -/
def Header.given (h : Header) : GivenHeader where
  layout := some h.layout
  nodeCount := some h.nodeCount
  edgeCount := some h.edgeCount
  traceFunctionCount := some h.traceFunctionCount

theorem Header.complete_given (h : Header) : h.given.complete = .ok h := rfl

/-- A document with everything given. -/
def given (d : Document) : Given where
  header := some d.header
  nodes := some d.nodes
  edges := some d.edges
  traceFunctionInfos := some d.traceFunctionInfos
  traceTree := some d.traceTree
  samples := some d.samples
  strings := some d.strings

theorem complete_given (d : Document) : d.given.complete = .ok d := rfl

def writtenHeader (g : Graph) : Header where
  layout := writtenLayout
  nodeCount := g.nodeCount
  edgeCount := g.edgeCount

/-- The document of a graph whose edges are written in the given order. -/
def written (g : Graph) (edges : List Edge) : Document where
  header := writtenHeader g
  nodes := g.nodes.toList.flatMap (nodeNumbers (finalStrings g edges))
  edges := edges.flatMap (edgeNumbers (finalStrings g edges))
  samples := g.samples.flatMap sampleNumbers
  strings := (finalStrings g edges).toList

/-- Every number of a document has its place in a word of 64 bits. -/
structure Fits (d : Document) : Prop where
  nodeCount : d.header.nodeCount < wordLimit 64
  edgeCount : d.header.edgeCount < wordLimit 64
  nodes : ∀ n ∈ d.nodes, n < wordLimit 64
  edges : ∀ n ∈ d.edges, n < wordLimit 64
  samples : ∀ n ∈ d.samples, -(wordLimit 63 : Int) ≤ n ∧ n < wordLimit 63

/-- The text between the braces of a header. -/
def headerChars (g : Graph) : List Char :=
  quoteChars "meta" ++ ':' ::
    (writtenMeta.chars ++ ',' :: (quoteChars "node_count" ++ ':' ::
      (Nat.toDigits 10 g.nodeCount ++ ',' :: (quoteChars "edge_count" ++ ':' ::
        (Nat.toDigits 10 g.edgeCount ++ ',' :: (quoteChars "trace_function_count" ++ ':' ::
          (Nat.toDigits 10 0 ++ [])))))))

theorem toList_opening (g : Graph) :
    (opening g).toList = '{' :: (quoteChars "snapshot" ++ ':' :: '{' :: (headerChars g ++
      '}' :: ',' :: '\n' :: (quoteChars "nodes" ++ [':', '[']))) := by
  have hfront : "\x7b\"snapshot\":\x7b\"meta\":".toList =
      '{' :: (quoteChars "snapshot" ++ ':' :: '{' :: (quoteChars "meta" ++ [':'])) := rfl
  have hnodes : ",\"node_count\":".toList = ',' :: (quoteChars "node_count" ++ [':']) := rfl
  have hedges : ",\"edge_count\":".toList = ',' :: (quoteChars "edge_count" ++ [':']) := rfl
  have hback : ",\"trace_function_count\":0\x7d,\n\"nodes\":[".toList =
      ',' :: (quoteChars "trace_function_count" ++ ':' :: (Nat.toDigits 10 0 ++
        '}' :: ',' :: '\n' :: (quoteChars "nodes" ++ [':', '[']))) := rfl
  unfold opening render headerChars
  simp only [String.toList_append, String.toList_ofList, hfront, hnodes, hedges, hback]
  simp only [List.append_assoc, List.cons_append, List.nil_append, toString, Nat.toList_repr]

theorem members_header (g : Graph) (depth : Nat) (hnodes : g.nodeCount < wordLimit 64)
    (hedges : g.edgeCount < wordLimit 64) :
    Members (readField (headerFields (depth + 3))) true {} (headerChars g)
      (writtenHeader g).given :=
  .field "meta" blank_nil rfl rfl (reads_field (reads_meta depth)) <|
  .field "node_count" blank_nil rfl rfl (reads_field (reads_nat hnodes hnodes)) <|
  .field "edge_count" blank_nil rfl rfl (reads_field (reads_nat hedges hedges)) <|
  .field "trace_function_count" blank_nil rfl rfl
    (reads_field (reads_nat (by decide) (by decide))) <|
  .nil false _

theorem reads_header (g : Graph) (depth : Nat) (hnodes : g.nodeCount < wordLimit 64)
    (hedges : g.edgeCount < wordLimit 64) :
    Reads (readHeader (depth + 4)) ('{' :: (headerChars g ++ ['}'])) (writtenHeader g) := by
  have hrecord : Reads (readRecord (depth + 4) headerFields {}) ('{' :: (headerChars g ++ ['}']))
      (writtenHeader g).given := reads_record (members_header g depth hnodes hedges)
  intro rest hr
  rw [readHeader, hrecord rest hr]
  simp only [Header.complete_given, bind, Except.bind]

theorem items_nodes {g : Graph} {edges : List Edge} (h : (written g edges).Fits) :
    Items (readNat 64) true
      ((lines (numberedNode (finalStrings g edges)) true g.nodes.toList).flatMap String.toList)
      (written g edges).nodes := by
  refine items_lines (toList_numberedNode _) (fun n => List.cons_ne_nil _ _) ?_ true
  intro n hn x hx
  have hlt := h.nodes x (List.mem_flatMap.mpr ⟨n, hn, hx⟩)
  exact ⟨starts_toDigits x, reads_nat hlt hlt⟩

theorem items_edges {g : Graph} {edges : List Edge} (h : (written g edges).Fits) :
    Items (readNat 64) true
      ((lines (numberedEdge (finalStrings g edges)) true edges).flatMap String.toList)
      (written g edges).edges := by
  refine items_lines (toList_numberedEdge _) (fun n => List.cons_ne_nil _ _) ?_ true
  intro e he x hx
  have hlt := h.edges x (List.mem_flatMap.mpr ⟨e, he, hx⟩)
  exact ⟨starts_toDigits x, reads_nat hlt hlt⟩

theorem items_samples {g : Graph} {edges : List Edge} (h : (written g edges).Fits) :
    Items readSigned true ((sampleLines true g.samples).flatMap String.toList)
      (written g edges).samples := by
  rw [sampleLines_eq]
  refine items_lines toList_sampleLine (fun n => List.cons_ne_nil _ _) ?_ true
  intro s hs x hx
  obtain ⟨hmin, hmax⟩ := h.samples x (List.mem_flatMap.mpr ⟨s, hs, hx⟩)
  have h63 : wordLimit 63 ≤ wordLimit 64 := by decide
  exact ⟨starts_toString_int x, reads_int hmin (by omega) hmin (by omega)⟩

/-- The text of a written document is that of a record with all seven members. -/
theorem members_written {g : Graph} {edges : List Edge} (h : (written g edges).Fits) :
    ∃ cs, (opening g :: bodyLines g edges).flatMap String.toList = '{' :: (cs ++ ['}']) ∧
      Members (readField (fields 126)) true {} cs (written g edges).given := by
  obtain ⟨hnodes, hedges, hstrings⟩ := parts_eq g edges
  have hnewline : Blank ['\n'] := by simp [Blank, isBlank]
  refine ⟨_, ?_,
    .field "snapshot" blank_nil rfl rfl
      (reads_field (reads_header g 122 h.nodeCount h.edgeCount)) <|
    .field "nodes" hnewline rfl rfl (reads_field (reads_array (items_nodes h))) <|
    .field "edges" hnewline rfl rfl (reads_field (reads_array (items_edges h))) <|
    .field "trace_function_infos" hnewline rfl rfl (reads_field (reads_array (.nil true))) <|
    .field "trace_tree" hnewline rfl rfl (reads_field (reads_array (.nil true))) <|
    .field "samples" hnewline rfl rfl (reads_field (reads_array (items_samples h))) <|
    .field "strings" hnewline rfl rfl
      (reads_field (reads_array (items_stringLines (written g edges).strings true))) <|
    .nil false _⟩
  have hopen : edgesOpening.toList =
      ']' :: ',' :: '\n' :: (quoteChars "edges" ++ [':', '[']) := rfl
  have hsamples : samplesOpening.toList =
      ']' :: ',' :: '\n' :: (quoteChars "trace_function_infos" ++ ':' :: '[' ::
        ']' :: ',' :: '\n' :: (quoteChars "trace_tree" ++ ':' :: '[' ::
          ']' :: ',' :: '\n' :: (quoteChars "samples" ++ [':', '[']))) := rfl
  have htable : stringsOpening.toList =
      ']' :: ',' :: '\n' :: (quoteChars "strings" ++ [':', '[']) := rfl
  have hclose : closing.toList = [']', '}'] := rfl
  simp only [bodyLines, tailLines, hnodes, hedges, hstrings, written, List.flatMap_cons,
    List.flatMap_append, List.flatMap_nil, toList_opening, hopen, hsamples, htable, hclose, comma,
    List.append_assoc, List.cons_append, List.nil_append, List.append_nil, ↓reduceIte,
    Bool.false_eq_true]

/-- The text of a document is read as the document. -/
theorem read_written {g : Graph} {edges : List Edge} (h : (written g edges).Fits) :
    read (String.join (opening g :: bodyLines g edges)) = .ok (written g edges) := by
  obtain ⟨cs, hcs, hmembers⟩ := members_written h
  have hrecord := reads_record hmembers [] trivial
  rw [← hcs, ← String.toList_join, List.append_nil] at hrecord
  simp only [read, readWhole, maxDepth, hrecord, complete_given, bind, Except.bind]
  rfl

theorem mapM_ok {α β ε : Type} {f : α → Except ε β} {h : α → β} {as : List α}
    (hf : ∀ a ∈ as, f a = .ok (h a)) : as.mapM f = .ok (as.map h) := by
  induction as with
  | nil => rfl
  | cons a as ih =>
    rw [List.mapM_cons, hf a List.mem_cons_self, ih fun b hb => hf b (List.mem_cons_of_mem _ hb)]
    rfl

theorem edgesBySource_group {g : Graph} (h : g.Sound) :
    edgesBySource g.group = .ok ((List.range g.nodeCount).flatMap g.edgesFrom) := by
  have hfold : ∀ (is : List Nat) (es : List Edge), (∀ i ∈ is, i < g.nodeCount) →
      is.foldlM (fun es i => do .ok (es ++ (← g.group.children i))) es =
        (.ok (es ++ is.flatMap g.edgesFrom) : Except Graph.Fault (List Edge)) := by
    intro is
    induction is with
    | nil => intro es _; simp [pure, Except.pure]
    | cons i is ih =>
      intro es his
      rw [List.foldlM_cons, Graph.children_group h (his i List.mem_cons_self)]
      have hrest := ih (es ++ g.edgesFrom i) fun j hj => his j (List.mem_cons_of_mem _ hj)
      rw [List.flatMap_cons, ← List.append_assoc, ← hrest]
      rfl
  have hall := hfold (List.range g.nodeCount) [] (fun i hi => List.mem_range.mp hi)
  rw [edgesBySource, Graph.nodeCount_group]
  exact hall

/-! ## Rows -/

/-- The row that a node is read as. -/
def NodeRow.ofNode (n : Node) : NodeRow where
  kind := some n.kind
  name := n.name
  id := n.id.raw
  selfSize := n.selfSize
  edgeCount := n.childCount
  traceNode := n.traceNode

/-- The row that an edge is read as. -/
def EdgeRow.ofEdge (e : Edge) : EdgeRow where
  source := e.source
  kind := some e.kind
  name := e.label.name?
  index := e.label.index?
  target := e.target

theorem sixes_flatMap (table : Names) (ns : List Node) :
    sixes (ns.flatMap (nodeNumbers table)) = ns.map fun n =>
      (n.kind.toCode, table.number n.name, n.id.raw, n.selfSize, n.childCount, n.traceNode) := by
  induction ns with
  | nil => rfl
  | cons n ns ih =>
    rw [List.flatMap_cons, nodeNumbers]
    simp only [List.cons_append, List.nil_append, sixes, ih, List.map_cons]

theorem threes_flatMap (table : Names) (es : List Edge) :
    threes (es.flatMap (edgeNumbers table)) = es.map fun e =>
      (e.kind.toCode, labelNumber table e.label, e.target * nodeWidth) := by
  induction es with
  | nil => rfl
  | cons e es ih =>
    rw [List.flatMap_cons, edgeNumbers]
    simp only [List.cons_append, List.nil_append, threes, ih, List.map_cons]

theorem string?_written {g : Graph} {edges : List Edge} {text : String}
    (h : text ∈ usedNames g edges) :
    (written g edges).string? ((finalStrings g edges).number text) = some text :=
  Names.getElem?_number (mem_insertAll.mpr (.inr h))

theorem nodeRows_written (g : Graph) (edges : List Edge) :
    (written g edges).nodeRows = g.nodes.toList.map NodeRow.ofNode := by
  rw [nodeRows, written, sixes_flatMap, List.map_map]
  apply List.map_congr_left
  intro n hn
  have hname : n.name ∈ usedNames g edges :=
    List.mem_append_left _ (List.mem_map_of_mem hn)
  have hstring := string?_written hname
  rw [written] at hstring
  simp [NodeRow.ofNode, hstring]

theorem edgeRow_written {g : Graph} {edges : List Edge} {e : Edge} (he : e ∈ edges)
    (hlabel : e.isLabelled = true) :
    (written g edges).edgeRow e.source
        (e.kind.toCode, labelNumber (finalStrings g edges) e.label, e.target * nodeWidth) =
      EdgeRow.ofEdge e := by
  have htarget : e.target * nodeWidth / nodeWidth = e.target :=
    Nat.mul_div_cancel _ (by decide)
  rw [Edge.isLabelled, beq_iff_eq] at hlabel
  cases hl : e.label with
  | index n =>
    rw [hl] at hlabel
    simp [edgeRow, EdgeRow.ofEdge, labelNumber, hl, hlabel, htarget, Label.isIndex, Label.name?,
      Label.index?]
  | name text =>
    rw [hl] at hlabel
    have hname : text ∈ usedNames g edges :=
      List.mem_append_right _ (List.mem_filterMap.mpr ⟨e, he, by rw [hl]; rfl⟩)
    simp [edgeRow, EdgeRow.ofEdge, labelNumber, hl, hlabel, htarget, Label.isIndex, Label.name?,
      Label.index?, string?_written hname]

/-- Edges that come in groups of the right sizes are dealt out group by group. -/
theorem dealEdges_groups {d : Document} {tuple : Edge → Nat × Nat × Nat} {rows : List NodeRow}
    {groups : List (List Edge)} {start : Nat}
    (hcount : rows.map (·.edgeCount) = groups.map List.length)
    (hrow : ∀ i es, groups[i]? = some es → ∀ e ∈ es,
      d.edgeRow (start + i) (tuple e) = EdgeRow.ofEdge e) :
    d.dealEdges start rows (groups.flatten.map tuple) = groups.flatten.map EdgeRow.ofEdge := by
  induction rows generalizing groups start with
  | nil =>
    have hnil : groups = [] := by simpa using hcount.symm
    subst hnil
    rfl
  | cons r rows ih =>
    cases groups with
    | nil => simp at hcount
    | cons es groups =>
      simp only [List.map_cons, List.cons.injEq] at hcount
      obtain ⟨hlen, hcount⟩ := hcount
      have hrow' : ∀ i es, groups[i]? = some es → ∀ e ∈ es,
          d.edgeRow (start + 1 + i) (tuple e) = EdgeRow.ofEdge e := by
        intro i es hes e he
        rw [Nat.add_right_comm, Nat.add_assoc]
        exact hrow (i + 1) es hes e he
      have hrest := ih hcount hrow'
      have htake : ((es ++ groups.flatten).map tuple).take r.edgeCount = es.map tuple := by
        rw [hlen, List.map_append, List.take_left' (by simp)]
      have hdrop : ((es ++ groups.flatten).map tuple).drop r.edgeCount =
          groups.flatten.map tuple := by
        rw [hlen, List.map_append, List.drop_left' (by simp)]
      rw [dealEdges, List.flatten_cons, htake, hdrop, hrest, List.map_map, List.map_append]
      congr 1
      apply List.map_congr_left
      intro e he
      exact hrow 0 es rfl e he

/-! ## The round trip -/

/-- The edges in the order in which they are written are those of the graph. -/
theorem mem_edgesFrom {g : Graph} {e : Edge} {i : NodeIndex} :
    e ∈ g.edgesFrom i ↔ e ∈ g.edges.toList ∧ e.source = i := by
  simp [Graph.edgesFrom]

theorem usedNames_group_subset (g : Graph) :
    usedNames g.group ((List.range g.nodeCount).flatMap g.edgesFrom) ⊆
      usedNames g g.edges.toList := by
  intro text htext
  rw [usedNames, Graph.map_nodes_group g fun _ _ => rfl] at htext
  rcases List.mem_append.mp htext with hnode | hedge
  · exact List.mem_append_left _ hnode
  · obtain ⟨e, he, hname⟩ := List.mem_filterMap.mp hedge
    obtain ⟨i, -, hi⟩ := List.mem_flatMap.mp he
    exact List.mem_append_right _ (List.mem_filterMap.mpr ⟨e, (mem_edgesFrom.mp hi).1, hname⟩)

/-- A table is no longer than its placeholder and the distinct names that enter it. -/
theorem length_finalStrings_le {g : Graph} {edges : List Edge} {texts : List String}
    (h : usedNames g edges ⊆ texts) :
    (finalStrings g edges).toList.length ≤ texts.dedup.length + 1 := by
  have hnodup : (finalStrings g edges).toList.Nodup :=
    nodup_insertAll _ (by simp [firstStrings, Names.toList_insert])
  have hsubset : (finalStrings g edges).toList ⊆ placeholder :: texts.dedup := by
    intro text htext
    rcases mem_insertAll.mp htext with hfirst | hused
    · exact List.mem_cons.mpr (.inl (by simpa [firstStrings, Names.toList_insert] using hfirst))
    · exact List.mem_cons_of_mem _ (List.mem_dedup.mpr (h hused))
  simpa using (List.subperm_of_subset hnodup hsubset).length_le

theorem edgeRows_written {g : Graph} (h : g.Sound) :
    (written g.group ((List.range g.nodeCount).flatMap g.edgesFrom)).edgeRows =
      ((List.range g.nodeCount).flatMap g.edgesFrom).map EdgeRow.ofEdge := by
  have hflat : (List.range g.nodeCount).flatMap g.edgesFrom =
      ((List.range g.nodeCount).map g.edgesFrom).flatten := List.flatMap_def
  rw [edgeRows, nodeRows_written, written, threes_flatMap, hflat]
  apply dealEdges_groups
  · rw [List.map_map, Graph.map_nodes_group g fun _ _ => rfl]
    apply List.ext_getElem?
    intro i
    rcases Nat.lt_or_ge i g.nodes.size with hi | hi
    · simp [hi, Graph.nodeCount, NodeRow.ofNode, h.counted i hi]
    · simp [hi, Graph.nodeCount]
  · intro i es hes e he
    rw [List.getElem?_map, Option.map_eq_some_iff] at hes
    obtain ⟨j, hj, rfl⟩ := hes
    obtain ⟨hlt, hget⟩ := List.getElem?_eq_some_iff.mp hj
    have hji : i = j := by simpa using hget
    subst hji
    obtain ⟨hmem, hsource⟩ := mem_edgesFrom.mp he
    have hall : e ∈ ((List.range g.nodeCount).map g.edgesFrom).flatten := by
      rw [← hflat]
      exact List.mem_flatMap.mpr ⟨i, List.mem_of_getElem? hj, he⟩
    have hrow := edgeRow_written (g := g.group) hall (h.labelled e hmem)
    rw [hsource, written] at hrow
    rw [Nat.zero_add]
    exact hrow

theorem mem_nodes_group {g : Graph} (h : g.Sound) {n : Node} (hn : n ∈ g.group.nodes.toList) :
    ∃ (i : Nat) (hi : i < g.nodes.size) (start : Nat),
      n = { g.nodes[i] with childStart := start } := by
  obtain ⟨i, hi⟩ := List.mem_iff_getElem?.mp hn
  rw [Array.getElem?_toList, Graph.getElem?_nodes_group h, Option.map_eq_some_iff] at hi
  obtain ⟨m, hm, rfl⟩ := hi
  obtain ⟨hlt, rfl⟩ := Array.getElem?_eq_some_iff.mp hm
  exact ⟨i, hlt, _, rfl⟩

/-- A graph of ordinary size makes a document whose numbers fit. -/
theorem fits_written {g : Graph} (hsound : g.Sound) (hfits : g.Fits)
    (hedges : g.edgeCount < wordLimit 32)
    (hstrings : (usedNames g g.edges.toList).dedup.length < wordLimit 32)
    (hroom : g.hasRoom 0 0 = true) :
    (written g.group ((List.range g.nodeCount).flatMap g.edgesFrom)).Fits := by
  have h32 : wordLimit 32 = 4294967296 := rfl
  have h63 : wordLimit 63 = 9223372036854775808 := rfl
  have h64 : wordLimit 64 = 18446744073709551616 := rfl
  have hcount : g.nodeCount * 48 < wordLimit 63 := by
    simp only [Graph.hasRoom, Bool.and_eq_true, decide_eq_true_eq] at hroom
    exact hroom.1
  have hnumber : ∀ text, (finalStrings g.group
      ((List.range g.nodeCount).flatMap g.edgesFrom)).number text < wordLimit 64 := by
    intro text
    have hlen := length_finalStrings_le (usedNames_group_subset g)
    have hidx := List.idxOf_le_length (a := text)
      (l := (finalStrings g.group ((List.range g.nodeCount).flatMap g.edgesFrom)).toList)
    rw [Names.number]
    omega
  refine ⟨?_, ?_, ?_, ?_, ?_⟩
  · show g.group.nodeCount < _
    rw [Graph.nodeCount_group]
    omega
  · show g.edgeCount < _
    omega
  · intro x hx
    obtain ⟨n, hn, hx⟩ := List.mem_flatMap.mp hx
    obtain ⟨i, hi, start, rfl⟩ := mem_nodes_group hsound hn
    obtain ⟨hid, hsize, htrace⟩ := hfits.nodes g.nodes[i] (by simp)
    have hchild : g.nodes[i].childCount ≤ g.edgeCount := by
      rw [hsound.counted i hi]
      exact List.length_filter_le ..
    simp only [nodeNumbers, List.mem_cons, List.not_mem_nil, or_false] at hx
    rcases hx with rfl | rfl | rfl | rfl | rfl | rfl
    · cases g.nodes[i].kind <;> decide
    · exact hnumber _
    · exact hid
    · exact hsize
    · omega
    · omega
  · intro x hx
    obtain ⟨e, he, hx⟩ := List.mem_flatMap.mp hx
    obtain ⟨i, -, hi⟩ := List.mem_flatMap.mp he
    have hmem := (mem_edgesFrom.mp hi).1
    simp only [edgeNumbers, List.mem_cons, List.not_mem_nil, or_false] at hx
    rcases hx with rfl | rfl | rfl
    · cases e.kind <;> decide
    · cases hl : e.label with
      | index n =>
        have hn : n < wordLimit 32 := hfits.edges e hmem n (by rw [hl]; rfl)
        rw [labelNumber]
        omega
      | name text => exact hnumber text
    · have htarget : e.target * nodeWidth ≤ g.nodeCount * nodeWidth :=
        Nat.mul_le_mul_right _ (Nat.le_of_lt (hsound.target_lt e hmem))
      refine Nat.lt_of_le_of_lt htarget ?_
      rw [nodeWidth]
      omega
  · intro x hx
    obtain ⟨s, hs, hx⟩ := List.mem_flatMap.mp hx
    obtain ⟨hmin, hmax, hid⟩ := hfits.samples s hs
    simp only [sampleNumbers, List.mem_cons, List.not_mem_nil, or_false] at hx
    rcases hx with rfl | rfl
    · exact ⟨hmin, hmax⟩
    · omega

/-- A graph that was built by calls and grouped is written to a sink without a limit, whatever the
chunk size, and its nodes, its edges by source and its samples are read back from what the sink
got. Only a sink that wants chunks too large to be addressed gets nothing. The arrays here have no
bound of their own, so that the graph itself can be addressed is the assumption `hroom`. -/
theorem read_write_build {calls : List Graph.Call} {g : Graph} (hbuild : Graph.build calls = .ok g)
    (hcalls : ∀ c ∈ calls, c.Fits) (hroot : ∀ n, g.nodes[0]? = some n → n.kind = .synthetic)
    (hedges : g.edgeCount < wordLimit 32)
    (hstrings : (usedNames g g.edges.toList).dedup.length < wordLimit 32)
    (hroom : g.hasRoom 0 0 = true) (chunkSize : Nat) :
    (chunkSize < wordLimit 63 → ∃ sink d kids,
      write g.group (Sink.collecting chunkSize none) {} = .ok (.completed, sink) ∧
      sink.isFinished = true ∧
      read sink.text = .ok d ∧
      d.header.nodeCount = g.group.nodeCount ∧
      d.header.edgeCount = g.group.edgeCount ∧
      d.nodeRows = g.group.nodes.toList.map NodeRow.ofNode ∧
      (List.range g.group.nodeCount).mapM g.group.children = .ok kids ∧
      d.edgeRows = kids.flatten.map EdgeRow.ofEdge ∧
      d.samples = g.group.samples.flatMap fun s => [s.time, (s.nextId.raw : Int)]) ∧
    (wordLimit 63 ≤ chunkSize →
      write g.group (Sink.collecting chunkSize none) {} = .error (.sink .chunkTooLarge)) := by
  have hsound := Graph.sound_build hbuild
  have hfits := fits_written hsound (Graph.fits_build hcalls hbuild) hedges hstrings hroom
  have hroot' : ∀ n, g.group.nodes[0]? = some n → n.kind = .synthetic := by
    intro n hn
    rw [Graph.getElem?_nodes_group hsound, Option.map_eq_some_iff] at hn
    obtain ⟨m, hm, rfl⟩ := hn
    exact hroot m hm
  constructor
  · intro hsize
    obtain ⟨sink, hwrite, hclosed, htext⟩ :=
      exists_write (records_of_edges hroot' (edgesBySource_group hsound)) hsize
    have hkids := mapM_ok (f := g.group.children) fun i (hi : i ∈ List.range g.nodeCount) =>
      Graph.children_group hsound (List.mem_range.mp hi)
    rw [Graph.nodeCount_group]
    have hread := read_written hfits
    rw [← htext] at hread
    refine ⟨sink, _, _, hwrite, hclosed, hread, Graph.nodeCount_group g, rfl,
      nodeRows_written .., hkids, ?_, rfl⟩
    rw [edgeRows_written hsound, List.flatMap_def]
  · intro hsize
    rw [write, Chunker.start_of_le hsize]

/-- Two nodes with names that must be escaped and the largest of numbers, in chunks of 3 bytes. -/
theorem read_write_two_nodes : ∃ g sink d,
    Graph.build [.node .synthetic "" .root 0 0,
      .node .string "\"\\\n\x01é😀" ⟨wordLimit 64 - 1⟩ 40 7,
      .edge ⟨.property, .name "next\t", 1, 0⟩, .edge ⟨.element, .index 5, 0, 1⟩,
      .rename 0 "top", .samples [⟨-3, ⟨9⟩⟩]] = .ok g ∧
    write g.group (Sink.collecting 3 none) {} = .ok (.completed, sink) ∧
    read sink.text = .ok d ∧
    d.nodeRows = [⟨some .synthetic, "top", 2, 0, 1, 0⟩,
      ⟨some .string, "\"\\\n\x01é😀", wordLimit 64 - 1, 40, 1, 7⟩] ∧
    d.edgeRows = [⟨0, some .element, none, some 5, 1⟩,
      ⟨1, some .property, some "next\t", none, 0⟩] ∧
    d.samples = [-3, 9] := by
  have hcalls : ∀ c ∈ [Graph.Call.node .synthetic "" .root 0 0,
      .node .string "\"\\\n\x01é😀" ⟨wordLimit 64 - 1⟩ 40 7,
      .edge ⟨.property, .name "next\t", 1, 0⟩, .edge ⟨.element, .index 5, 0, 1⟩,
      .rename 0 "top", .samples [⟨-3, ⟨9⟩⟩]], c.Fits := by
    simp [Graph.Call.Fits, Node.Fits, Edge.Fits, Sample.Fits, ObjectId.root, Label.index?,
      wordLimit]
  obtain ⟨sink, d, kids, hwrite, -, hread, -, -, hnodes, hkids, hedges, hsamples⟩ :=
    (read_write_build rfl hcalls (by rintro n ⟨⟩; rfl) (by decide) (by decide) (by decide) 3).1
      (by decide)
  have hsplit : kids = [[⟨.element, .index 5, 0, 1⟩], [⟨.property, .name "next\t", 1, 0⟩]] :=
    Except.ok.inj (hkids.symm.trans (by decide +kernel))
  subst hsplit
  exact ⟨_, sink, d, rfl, hwrite, hread, hnodes, hedges, hsamples⟩

/-- No graph is written in chunks of 2^63 bytes, not even the synthetic nodes alone. -/
theorem write_unaddressable_chunks : ∃ g, Graph.build [.roots] = .ok g ∧
    write g.group (Sink.collecting (wordLimit 63) none) {} = .error (.sink .chunkTooLarge) :=
  ⟨_, rfl, rfl⟩

end ManagedHeap.Document
