import ManagedHeap.Capture.Natives
import ManagedHeap.Capture.Progress
import ManagedHeap.Capture.Roots
import ManagedHeap.Failure
/-!
Captures: from a heap at rest to a finished graph. A capture tags global objects, draws the
edges of the roots, reads the live objects in two passes, adds the native objects and groups the
edges by source.
-/
namespace ManagedHeap

/-- A survey on its way through the heap. -/
structure Walk where
  survey : Survey
  progress : Progress
  /-- Why the walk has come to a halt, if it has. -/
  halt : Option Halt := none

namespace Walk

/-- Count a unit of work and report. -/
def tick (w : Walk) : Walk :=
  let (halt, progress) := w.progress.step.report false w.survey.graph.nodeCount
  { w with progress := progress, halt := halt }

/-- Visit objects one after the other until the walk halts. -/
def visitAll (sc : Scope) (handlers : Handlers) (pass : Pass) : List HeapObject → Walk → Walk
  | [], w => w
  | o :: os, w =>
    if w.halt.isSome then w
    else visitAll sc handlers pass os { w with survey := w.survey.visit sc handlers pass o }.tick

/-- Add native objects one after the other until the walk halts, then link their groups, which
are collected in `groups`. -/
def addCompanions : List NodeIndex → List Companion → Walk → Walk
  | groups, [], w =>
    if w.halt.isSome then w
    else { w with survey := { w.survey with draft := w.survey.draft.linkGroups groups } }
  | groups, c :: cs, w =>
    if w.halt.isSome then w
    else
      let (group, draft) := w.survey.draft.addCompanion c
      addCompanions (groups ++ group.toList) cs
        { w with survey := { w.survey with draft := draft } }.tick

end Walk

/-- How a capture that did not fail ended. -/
inductive Outcome where
  | completed
  /-- Stopped by its control at the given stage. -/
  | stopped (stage : Stage)
  deriving DecidableEq, Repr, Inhabited

/-- One capture. -/
structure Capture where
  ledger : Ledger := {}
  handlers : Handlers := Handlers.builtin
  settings : Settings := {}
  control : Option Control := none
  resolver : Option Resolver := none
  graph : Graph := {}
  stage : Stage := .idle
  reports : List ProgressReport := []
  /-- How often the heap was asked to come to rest. -/
  quiesced : Nat := 0
  /-- What the survey could not do. With a fault a capture has no outcome, whatever else is said of
  it here: handlers went astray, a slot has no label, or there are too many edges. -/
  fault : Option Survey.Fault := none

namespace Capture

/-- Units of work: each object once in each pass, and each native object once. -/
def work (v : View) : Nat := 2 * v.live.length + v.companions.length

def scope (c : Capture) (v : View) : Scope :=
  let tags := match c.resolver with
    | some resolver => v.globalTags resolver
    | none => {}
  { view := v, globalTag? := fun a => tags[a]?, maxNameLength := c.settings.maxNameLength }

/-- The walk as it stands before the first pass. -/
def start (c : Capture) (v : View) : Walk where
  survey := Survey.addRoots (c.scope v) { draft := { ledger := c.ledger } }
  progress := Progress.start c.settings c.control (work v)

def pass (c : Capture) (v : View) (pass : Pass) (w : Walk) : Walk :=
  Walk.visitAll (c.scope v) c.handlers pass v.live w

def companions (v : View) (w : Walk) : Walk :=
  Walk.addCompanions [] v.companions w

/-- The capture after a walk that came to a halt at a stage. -/
def halted (c : Capture) (w : Walk) (stage : Stage) (halt : Halt) :
    Except Failure Outcome × Capture :=
  (match halt with
    | .stopped => .ok (.stopped stage)
    | .tooManyNodes => .error (.nodeLimit c.settings.maxNodes),
   { c with
     ledger := w.survey.ledger
     graph := w.survey.graph
     reports := w.progress.reports
     fault := w.survey.fault
     stage := .aborted })

/-- Count and group the edges, attach the samples and make the last report. -/
def conclude (w : Walk) : Walk :=
  let graph := w.survey.graph.group.setSamples w.survey.ledger.samples
  let (halt, progress) := w.progress.complete.report true graph.nodeCount
  { survey := { w.survey.countEdges with draft := { w.survey.draft with graph := graph } }
    progress := progress
    halt := halt }

/-- The capture after a walk that went through. -/
def finished (c : Capture) (w : Walk) : Except Failure Outcome × Capture :=
  (.ok .completed,
   { c with
     ledger := w.survey.ledger
     graph := w.survey.graph
     reports := w.progress.reports
     fault := w.survey.fault
     stage := .done })

/-- The steps of a capture of which the heap is at rest. Memory is taken as there: room for a node
for each live and each native object is asked for before the first pass (`Graph.hasRoom`), and
`Failure.noRoom` is the answer when they are too many to be addressed. -/
def walk (c : Capture) (v : View) : Except Failure Outcome × Capture :=
  let w := c.pass v .first (c.start v)
  match w.halt with
  | some halt => c.halted w .firstPass halt
  | none =>
    let w := companions v (c.pass v .second w)
    match w.halt with
    | some halt => c.halted w .secondPass halt
    | none =>
      let w := conclude w
      match w.halt with
      | some halt => c.halted w .grouped halt
      | none => c.finished w

/-- Run a capture. It can be run once. -/
def run (c : Capture) (v : View) : Except Failure Outcome × Capture :=
  if c.stage = .idle then
    { c with quiesced := c.quiesced + c.settings.quiescePasses }.walk v
  else (.error (.wrongStage .idle c.stage), c)

/-- The graph of a completed capture. -/
def take (c : Capture) : Except Failure Graph :=
  if c.stage = .done then .ok c.graph else .error (.wrongStage .done c.stage)

end Capture

end ManagedHeap
