import ManagedHeap.Proofs.Completion

/-!
# The stations of a capture

A capture notes its progress behind every object of either pass, behind every native object and once
more at the end. What happens there depends on how many nodes are drawn and on nothing else of the
draft. So a capture goes from station to station, `Capture.follows_run`, up to the first one at
which there are too many nodes or its control asks it to stop.
-/
namespace ManagedHeap

/-- A place at which a capture notes its progress. -/
structure Station where
  stage : Stage
  /-- How many nodes are drawn. -/
  nodes : Nat
  /-- Whether all work is done. -/
  isLast : Bool := false
  deriving DecidableEq, Repr

namespace Progress

/-- The progress as a station finds it. -/
def approach (p : Progress) (x : Station) : Progress := if x.isLast then p.complete else p.step

/-- Note the progress at a station. -/
def arrive (p : Progress) (x : Station) : Option Halt × Progress :=
  (p.approach x).report x.isLast x.nodes

/-- Go from station to station up to the first halt. Gives the stage of the halt, if any. -/
def travel : List Station → Progress → Option (Stage × Halt) × Progress
  | [], p => (none, p)
  | x :: xs, p =>
    match p.arrive x with
    | (some halt, p) => (some (x.stage, halt), p)
    | (none, p) => travel xs p

variable {p : Progress} {x : Station} {xs ys : List Station} {halt : Halt}

theorem travel_cons_of_halt (h : (p.arrive x).1 = some halt) :
    p.travel (x :: xs) = (some (x.stage, halt), (p.arrive x).2) := by
  rw [travel]
  split
  · next heq => rw [heq] at h ⊢; rw [Option.some.inj h]
  · next heq => rw [heq] at h; cases h

theorem travel_cons_of_none (h : (p.arrive x).1 = none) :
    p.travel (x :: xs) = (p.arrive x).2.travel xs := by
  rw [travel]
  split
  · next heq => rw [heq] at h; cases h
  · next heq => rw [heq]

/-- A journey that comes to a halt goes no further. -/
theorem travel_append_of_some {end? : Stage × Halt} (h : (p.travel xs).1 = some end?) :
    p.travel (xs ++ ys) = p.travel xs := by
  induction xs generalizing p with
  | nil => cases h
  | cons x xs ih =>
    cases hx : (p.arrive x).1 with
    | some halt => rw [List.cons_append, travel_cons_of_halt hx, travel_cons_of_halt hx]
    | none =>
      rw [travel_cons_of_none hx] at h
      rw [List.cons_append, travel_cons_of_none hx, travel_cons_of_none hx, ih h]

theorem travel_append_of_none (h : (p.travel xs).1 = none) :
    p.travel (xs ++ ys) = (p.travel xs).2.travel ys := by
  induction xs generalizing p with
  | nil => rfl
  | cons x xs ih =>
    cases hx : (p.arrive x).1 with
    | some halt => rw [travel_cons_of_halt hx] at h; cases h
    | none =>
      rw [travel_cons_of_none hx] at h
      rw [List.cons_append, travel_cons_of_none hx, travel_cons_of_none hx, ih h]

/-! ## What happens at a station -/

theorem maxNodes_approach (p : Progress) (x : Station) : (p.approach x).maxNodes = p.maxNodes := by
  unfold approach
  split <;> rfl

theorem control_approach (p : Progress) (x : Station) : (p.approach x).control = p.control := by
  unfold approach
  split <;> rfl

theorem report_of_lt {force : Bool} {nodes : Nat} (h : p.maxNodes < nodes) :
    p.report force nodes = (some .tooManyNodes, p) := by
  rw [report, if_pos h]

/-- Only the work done and the reports change. -/
theorem report_snd (p : Progress) (force : Bool) (nodes : Nat) :
    ∃ reports, (p.report force nodes).2 = { p with reports := reports } := by
  unfold report
  split
  · exact ⟨p.reports, rfl⟩
  · split
    · exact ⟨p.reports, rfl⟩
    · split
      · exact ⟨_, rfl⟩
      · exact ⟨p.reports, rfl⟩

theorem maxNodes_arrive (p : Progress) (x : Station) : (p.arrive x).2.maxNodes = p.maxNodes := by
  obtain ⟨reports, heq⟩ := (p.approach x).report_snd x.isLast x.nodes
  rw [arrive, heq]
  exact maxNodes_approach p x

theorem control_arrive (p : Progress) (x : Station) : (p.arrive x).2.control = p.control := by
  obtain ⟨reports, heq⟩ := (p.approach x).report_snd x.isLast x.nodes
  rw [arrive, heq]
  exact control_approach p x

theorem arrive_of_lt (h : p.maxNodes < x.nodes) : (p.arrive x).1 = some .tooManyNodes := by
  rw [arrive, report_of_lt ((maxNodes_approach p x).symm ▸ h)]

/-! ## The limit on nodes -/

/-- Without a control only the number of nodes counts. -/
theorem travel_uncontrolled (hcontrol : p.control = none) (xs : List Station) :
    (p.travel xs).1 =
      (xs.find? (p.maxNodes < ·.nodes)).map fun x => (x.stage, .tooManyNodes) := by
  induction xs generalizing p with
  | nil => rfl
  | cons x xs ih =>
    by_cases hlt : p.maxNodes < x.nodes
    · rw [travel_cons_of_halt (arrive_of_lt hlt), List.find?_cons_of_pos (by simpa using hlt)]
      rfl
    · have hgo : (p.arrive x).1 = none := by
        rw [arrive, report, if_neg (by rwa [maxNodes_approach]), control_approach, hcontrol]
      rw [travel_cons_of_none hgo, List.find?_cons_of_neg (by simpa using hlt),
        ih ((control_arrive p x).trans hcontrol), maxNodes_arrive]

end Progress

/-! ## The stations of each part of a capture -/

/-- The stage that a pass takes place in. -/
def Pass.stage : Pass → Stage
  | .first => .firstPass
  | .second => .secondPass

/-- A station behind each object that is visited. -/
def Survey.stations (sc : Scope) (handlers : Handlers) (pass : Pass) :
    List HeapObject → Survey → List Station
  | [], _ => []
  | o :: os, s =>
    { stage := pass.stage, nodes := (s.visit sc handlers pass o).graph.nodeCount } ::
      stations sc handlers pass os (s.visit sc handlers pass o)

/-- A station behind each native object that is added. -/
def Draft.stations : List Companion → Draft → List Station
  | [], _ => []
  | c :: cs, d =>
    { stage := .secondPass, nodes := (d.addCompanion c).2.graph.nodeCount } ::
      stations cs (d.addCompanion c).2

section Growth

open Draft (Grows Step)

variable {sc : Scope} {S : BackingStore → Prop} {d d' : Draft}

theorem Draft.Step.nodeCount_le (h : Step sc S d d') :
    d.graph.nodeCount ≤ d'.graph.nodeCount := by
  cases h with
  | @object a _ _ =>
    rw [addObject_eq]
    exact Nat.le_of_lt (Nat.lt_of_lt_of_eq (Nat.lt_succ_self _)
      (Graph.nodeCount_pushNode d.graph _).symm)
  | store | native =>
    exact Nat.le_of_lt (Nat.lt_of_lt_of_eq (Nat.lt_succ_self _)
      (Graph.nodeCount_pushNode d.graph _).symm)
  | edge => exact Nat.le_of_eq (Graph.nodeCount_pushEdge ..).symm
  | intern => exact Nat.le_refl _
  | name => exact Nat.le_of_eq (Graph.nodeCount_nameIfEmpty ..).symm

theorem Draft.Grows.nodeCount_le (h : Grows sc S d d') :
    d.graph.nodeCount ≤ d'.graph.nodeCount := by
  induction h with
  | refl => exact Nat.le_refl _
  | tail _ hlast ih => exact Nat.le_trans ih hlast.nodeCount_le

theorem Survey.nodes_le_of_mem_stations {handlers : Handlers} {pass : Pass}
    {os : List HeapObject} {s : Survey} :
    ∀ x ∈ s.stations sc handlers pass os,
      x.nodes ≤ (s.visitAll sc handlers pass os).graph.nodeCount := by
  induction os generalizing s with
  | nil => intro x hx; cases hx
  | cons o os ih =>
    have hrest : Grows sc Any (s.visit sc handlers pass o).draft
        (s.visitAll sc handlers pass (o :: os)).draft :=
      grows_visitAll (fun x _ => handlers.owns_any sc.view x) pass _
    exact List.forall_mem_cons.mpr ⟨hrest.nodeCount_le, ih⟩

theorem Draft.nodes_le_of_mem_stations (sc : Scope) {groups : List NodeIndex}
    {cs : List Companion} {d : Draft} :
    ∀ x ∈ d.stations cs, x.nodes ≤ (d.addCompanions groups cs).graph.nodeCount := by
  induction cs generalizing groups d with
  | nil => intro x hx; cases hx
  | cons c cs ih =>
    have hrest : Grows sc Any (d.addCompanion c).2 (d.addCompanions groups (c :: cs)) :=
      grows_addCompanions _ cs _
    exact List.forall_mem_cons.mpr ⟨hrest.nodeCount_le, ih⟩

end Growth

/-! ### A walk goes from station to station -/

namespace Walk

/-- How far a walk has come. -/
def journey (w : Walk) (stage : Stage) : Option (Stage × Halt) × Progress :=
  (w.halt.map (stage, ·), w.progress)

variable {sc : Scope} {handlers : Handlers} {pass : Pass} {w : Walk} {halt : Halt}

theorem visitAll_of_halt (h : w.halt = some halt) (os : List HeapObject) :
    visitAll sc handlers pass os w = w := by
  cases os with
  | nil => rfl
  | cons o os => rw [visitAll, if_pos (by rw [h]; rfl)]

theorem addCompanions_of_halt (h : w.halt = some halt) (groups : List NodeIndex)
    (cs : List Companion) : addCompanions groups cs w = w := by
  cases cs with
  | nil => rw [addCompanions, if_pos (by rw [h]; rfl)]
  | cons c cs => rw [addCompanions, if_pos (by rw [h]; rfl)]

/-- Counting a unit of work is arriving at a station. -/
theorem travel_of_tick (w : Walk) (stage : Stage) (xs : List Station) :
    w.progress.travel ({ stage := stage, nodes := w.survey.graph.nodeCount } :: xs) =
      match w.tick.halt with
      | none => w.tick.progress.travel xs
      | some _ => w.tick.journey stage := by
  have harrive : w.progress.arrive { stage := stage, nodes := w.survey.graph.nodeCount } =
      (w.tick.halt, w.tick.progress) := rfl
  cases hhalt : w.tick.halt with
  | none => rw [Progress.travel_cons_of_none (by rw [harrive, hhalt]), harrive]
  | some halt =>
    rw [Progress.travel_cons_of_halt (by rw [harrive, hhalt]), harrive, journey, hhalt]
    rfl

/-- What a walk has left when it goes on is ahead of it. -/
theorem travel_append_of_journey {p : Progress} {xs ys : List Station} {w' : Walk}
    {stage stage' : Stage} (hhalt : w.halt = none) (h : p.travel xs = w.journey stage)
    (h' : w.progress.travel ys = w'.journey stage') :
    p.travel (xs ++ ys) = w'.journey stage' := by
  have hend : (p.travel xs).1 = none := by rw [h, journey, hhalt]; rfl
  rw [Progress.travel_append_of_none hend, h]
  exact h'

theorem travel_append_of_halt {p : Progress} {xs ys : List Station} {stage : Stage}
    (hhalt : w.halt = some halt) (h : p.travel xs = w.journey stage) :
    p.travel (xs ++ ys) = w.journey stage := by
  have hend : (p.travel xs).1 = some (stage, halt) := by rw [h, journey, hhalt]; rfl
  rw [Progress.travel_append_of_some hend, h]

theorem travel_visitAll (h : w.halt = none) (os : List HeapObject) :
    w.progress.travel (w.survey.stations sc handlers pass os) =
      (visitAll sc handlers pass os w).journey pass.stage := by
  induction os generalizing w with
  | nil => rw [visitAll, journey, h]; rfl
  | cons o os ih =>
    rw [visitAll, if_neg (by simp [h])]
    refine (travel_of_tick { w with survey := w.survey.visit sc handlers pass o } _ _).trans ?_
    split
    · next hhalt => exact ih hhalt
    · next hhalt => rw [visitAll_of_halt hhalt]

theorem travel_addCompanions (h : w.halt = none) (groups : List NodeIndex)
    (cs : List Companion) :
    w.progress.travel (w.survey.draft.stations cs) =
      (addCompanions groups cs w).journey .secondPass := by
  induction cs generalizing groups w with
  | nil => rw [addCompanions, if_neg (by simp [h]), journey, h]; rfl
  | cons c cs ih =>
    rw [addCompanions, if_neg (by simp [h])]
    dsimp only
    refine (travel_of_tick { w with
      survey := { w.survey with draft := (w.survey.draft.addCompanion c).2 } } _ _).trans ?_
    split
    · next hhalt => exact ih hhalt _
    · next hhalt => rw [addCompanions_of_halt hhalt]

end Walk

/-! ## Captures -/

namespace Capture

/-- The stations of the first pass. -/
def firstStations (c : Capture) (v : View) : List Station :=
  (c.rooted v).stations (c.scope v) c.handlers .first v.live

/-- The stations of the second pass and of the native objects behind it. -/
def laterStations (c : Capture) (v : View) : List Station :=
  (c.onceRead v).stations (c.scope v) c.handlers .second v.live ++
    (c.twiceRead v).draft.stations v.companions

/-- The stations of a capture, in order. -/
def stations (c : Capture) (v : View) : List Station :=
  c.firstStations v ++ (c.laterStations v ++
    [{ stage := .grouped, nodes := (c.drawn v).graph.nodeCount, isLast := true }])

/-- The journey of a capture through its stations. -/
def journey (c : Capture) (v : View) : Option (Stage × Halt) × Progress :=
  (Progress.start c.settings c.control (work v)).travel (c.stations v)

/-- What a capture comes to that ends its journey so, if `limit` nodes are allowed. -/
def outcomeOf (limit : Nat) : Option (Stage × Halt) → Except Failure Outcome
  | none => .ok .completed
  | some (stage, .stopped) => .ok (.stopped stage)
  | some (_, .tooManyNodes) => .error (.nodeLimit limit)

/-- A capture that may draw `limit` nodes ran as a journey tells. -/
structure Follows (limit : Nat) (ran : Except Failure Outcome × Capture)
    (journey : Option (Stage × Halt) × Progress) : Prop where
  outcome : ran.1 = outcomeOf limit journey.1
  reports : ran.2.reports = journey.2.reports
  stage : ran.2.stage = if journey.1.isNone then .done else .aborted

variable {c : Capture} {v : View}

theorem follows_halted (c : Capture) {w : Walk} {halt : Halt} (h : w.halt = some halt)
    (stage : Stage) : Follows c.settings.maxNodes (c.halted w stage halt) (w.journey stage) := by
  rw [Walk.journey, h]
  exact ⟨by cases halt <;> rfl, rfl, rfl⟩

theorem journey_conclude (w : Walk) :
    w.progress.travel
        [{ stage := .grouped, nodes := w.survey.graph.nodeCount, isLast := true }] =
      (conclude w).journey .grouped := by
  have hcount : (w.survey.graph.group.setSamples w.survey.ledger.samples).nodeCount =
      w.survey.graph.nodeCount := w.survey.graph.nodeCount_group
  have hreport : ((conclude w).halt, (conclude w).progress) =
      w.progress.complete.report true w.survey.graph.nodeCount := by
    rw [← hcount]
    rfl
  rw [Walk.journey, Progress.travel, Progress.arrive, Progress.approach, if_pos rfl, ← hreport]
  cases (conclude w).halt <;> rfl

theorem travel_laterStations {w : Walk} (h : w.halt = none) (hsurvey : w.survey = c.onceRead v) :
    w.progress.travel (c.laterStations v) =
      (companions v (c.pass v .second w)).journey .secondPass := by
  have hpass : w.progress.travel ((c.onceRead v).stations (c.scope v) c.handlers .second v.live) =
      (c.pass v .second w).journey .secondPass :=
    hsurvey ▸ Walk.travel_visitAll h v.live
  cases hhalt : (c.pass v .second w).halt with
  | some halt =>
    rw [companions, Walk.addCompanions_of_halt hhalt]
    exact Walk.travel_append_of_halt hhalt hpass
  | none =>
    have hread : (c.pass v .second w).survey = c.twiceRead v :=
      (Walk.survey_visitAll hhalt).trans (by rw [hsurvey]; rfl)
    exact Walk.travel_append_of_journey hhalt hpass
      (hread ▸ Walk.travel_addCompanions hhalt [] v.companions)

theorem survey_companions {w : Walk} (h : (companions v (c.pass v .second w)).halt = none)
    (hsurvey : w.survey = c.onceRead v) :
    (companions v (c.pass v .second w)).survey = c.drawn v := by
  rw [companions, Walk.survey_addCompanions h, pass,
    Walk.survey_visitAll (Walk.halt_of_addCompanions h), hsurvey]
  rfl

theorem follows_finished (c : Capture) {w : Walk} (h : w.halt = none) (stage : Stage) :
    Follows c.settings.maxNodes (c.finished w) (w.journey stage) := by
  rw [Walk.journey, h]
  exact ⟨rfl, rfl, rfl⟩

theorem follows_walk (c : Capture) (v : View) :
    Follows c.settings.maxNodes (c.walk v) (c.journey v) := by
  have hfirst : (Progress.start c.settings c.control (work v)).travel (c.firstStations v) =
      (c.pass v .first (c.start v)).journey .firstPass :=
    Walk.travel_visitAll (w := c.start v) rfl v.live
  have hread : (c.pass v .first (c.start v)).halt = none →
      (c.pass v .first (c.start v)).survey = c.onceRead v := fun h => Walk.survey_visitAll h
  unfold walk journey stations
  dsimp only
  generalize c.pass v .first (c.start v) = w₁ at hfirst hread
  cases hhalt₁ : w₁.halt with
  | some halt =>
    rw [Walk.travel_append_of_halt hhalt₁ hfirst]
    exact follows_halted c hhalt₁ _
  | none =>
    have hsurvey := hread hhalt₁
    have hlater := travel_laterStations hhalt₁ hsurvey
    dsimp only
    cases hhalt₂ : (companions v (c.pass v .second w₁)).halt with
    | some halt =>
      rw [Walk.travel_append_of_journey hhalt₁ hfirst (Walk.travel_append_of_halt hhalt₂ hlater)]
      exact follows_halted c hhalt₂ _
    | none =>
      have hlast := journey_conclude (companions v (c.pass v .second w₁))
      rw [survey_companions hhalt₂ hsurvey] at hlast
      rw [Walk.travel_append_of_journey hhalt₁ hfirst
        (Walk.travel_append_of_journey hhalt₂ hlater hlast)]
      dsimp only
      cases hhalt₃ : (conclude (companions v (c.pass v .second w₁))).halt with
      | some halt => exact follows_halted c hhalt₃ _
      | none => exact follows_finished c hhalt₃ _

/-- A capture runs as its journey tells. -/
theorem follows_run (hidle : c.stage = .idle) (v : View) :
    Follows c.settings.maxNodes (c.run v) (c.journey v) := by
  rw [run, if_pos hidle]
  exact follows_walk { c with quiesced := c.quiesced + c.settings.quiescePasses } v

/-- No station sees more nodes than there are in the end. -/
theorem nodes_le_iff {limit : Nat} :
    (∀ x ∈ c.stations v, x.nodes ≤ limit) ↔ (c.drawn v).graph.nodeCount ≤ limit := by
  have hany : ∀ x ∈ v.live, c.handlers.Owns v x Any := fun x _ => c.handlers.owns_any v x
  have htwice := (grows_twiceRead hany).nodeCount_le
  have hdrawn := (grows_drawn (c := c) (v := v) (S := Any)).nodeCount_le
  constructor
  · intro h
    exact h { stage := .grouped, nodes := (c.drawn v).graph.nodeCount, isLast := true }
      (by simp [stations])
  · intro h x hx
    refine Nat.le_trans ?_ h
    simp only [stations, firstStations, laterStations, List.mem_append, List.mem_singleton] at hx
    rcases hx with hx | (hx | hx) | rfl
    · exact Nat.le_trans (Survey.nodes_le_of_mem_stations x hx) (Nat.le_trans htwice hdrawn)
    · exact Nat.le_trans (Survey.nodes_le_of_mem_stations x hx) hdrawn
    · exact Draft.nodes_le_of_mem_stations (c.scope v) x hx
    · exact Nat.le_refl _

end Capture

end ManagedHeap
