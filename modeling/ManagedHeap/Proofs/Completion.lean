import ManagedHeap.Observer
import ManagedHeap.Proofs.Growth

/-!
# Completed captures

A capture that completes was not halted anywhere, so its graph is what the roots, both passes over
all live objects and the native objects draw, one after the other.
-/
namespace ManagedHeap

/-- Visit objects one after the other. -/
def Survey.visitAll (sc : Scope) (handlers : Handlers) (pass : Pass) (os : List HeapObject)
    (s : Survey) : Survey :=
  os.foldl (fun s o => s.visit sc handlers pass o) s

theorem Survey.visitAll_cons (sc : Scope) (handlers : Handlers) (pass : Pass) (o : HeapObject)
    (os : List HeapObject) (s : Survey) :
    s.visitAll sc handlers pass (o :: os) =
      (s.visit sc handlers pass o).visitAll sc handlers pass os := rfl

theorem Survey.visitAll_append (sc : Scope) (handlers : Handlers) (pass : Pass)
    (os os' : List HeapObject) (s : Survey) :
    s.visitAll sc handlers pass (os ++ os') =
      (s.visitAll sc handlers pass os).visitAll sc handlers pass os' :=
  List.foldl_append

/-- Add native objects one after the other, then link the groups that are new. -/
def Draft.addCompanions (groups : List NodeIndex) : List Companion → Draft → Draft
  | [], d => d.linkGroups groups
  | c :: cs, d => addCompanions (groups ++ (d.addCompanion c).1.toList) cs (d.addCompanion c).2

section Growth

open Draft (Grows)

variable {sc : Scope} {S : BackingStore → Prop}

theorem Survey.grows_visitAll {handlers : Handlers} {os : List HeapObject}
    (hS : ∀ o ∈ os, handlers.Owns sc.view o S) (pass : Pass) (s : Survey) :
    Grows sc S s.draft (s.visitAll sc handlers pass os).draft := by
  induction os generalizing s with
  | nil => exact .refl _
  | cons o os ih =>
    exact (grows_visit (hS o List.mem_cons_self) pass s).trans
      (ih (fun x hx => hS x (List.mem_cons_of_mem o hx)) _)

theorem Draft.grows_addCompanions (groups : List NodeIndex) (cs : List Companion) (d : Draft) :
    Grows sc S d (d.addCompanions groups cs) := by
  induction cs generalizing groups d with
  | nil => exact grows_linkGroups d groups
  | cons c cs ih => exact (grows_addCompanion d c).trans (ih _ _)

end Growth

namespace Walk

variable {sc : Scope} {handlers : Handlers} {pass : Pass}

theorem halt_of_visitAll {os : List HeapObject} {w : Walk}
    (h : (visitAll sc handlers pass os w).halt = none) : w.halt = none := by
  cases os with
  | nil => exact h
  | cons o os =>
    rw [visitAll] at h
    split at h
    · exact h
    · next hhalt => simpa using hhalt

theorem survey_visitAll {os : List HeapObject} {w : Walk}
    (h : (visitAll sc handlers pass os w).halt = none) :
    (visitAll sc handlers pass os w).survey = w.survey.visitAll sc handlers pass os := by
  induction os generalizing w with
  | nil => rfl
  | cons o os ih =>
    have hrun : ¬ w.halt.isSome = true := by simp [halt_of_visitAll h]
    rw [visitAll, if_neg hrun] at h ⊢
    rw [ih h]
    rfl

theorem halt_of_addCompanions {groups : List NodeIndex} {cs : List Companion} {w : Walk}
    (h : (addCompanions groups cs w).halt = none) : w.halt = none := by
  cases cs with
  | nil =>
    rw [addCompanions] at h
    split at h
    · exact h
    · next hhalt => simpa using hhalt
  | cons c cs =>
    rw [addCompanions] at h
    split at h
    · exact h
    · next hhalt => simpa using hhalt

theorem survey_addCompanions {groups : List NodeIndex} {cs : List Companion} {w : Walk}
    (h : (addCompanions groups cs w).halt = none) :
    (addCompanions groups cs w).survey =
      { w.survey with draft := w.survey.draft.addCompanions groups cs } := by
  induction cs generalizing groups w with
  | nil =>
    have hrun : ¬ w.halt.isSome = true := by simp [halt_of_addCompanions h]
    rw [addCompanions, if_neg hrun]
    rfl
  | cons c cs ih =>
    have hrun : ¬ w.halt.isSome = true := by simp [halt_of_addCompanions h]
    rw [addCompanions, if_neg hrun] at h ⊢
    dsimp only at h ⊢
    rw [ih h]
    rfl

end Walk

namespace Capture

/-- What a capture has drawn when only the roots are linked. -/
def rooted (c : Capture) (v : View) : Survey :=
  Survey.addRoots (c.scope v) { draft := { ledger := c.ledger } }

/-- What a capture has drawn after the first pass over all objects. -/
def onceRead (c : Capture) (v : View) : Survey :=
  (c.rooted v).visitAll (c.scope v) c.handlers .first v.live

/-- What a capture has drawn after both passes over all objects. -/
def twiceRead (c : Capture) (v : View) : Survey :=
  (c.onceRead v).visitAll (c.scope v) c.handlers .second v.live

/-- What a capture has drawn once it has been through the whole heap. -/
def drawn (c : Capture) (v : View) : Survey :=
  { c.twiceRead v with draft := (c.twiceRead v).draft.addCompanions [] v.companions }

/-- The node of a thing. -/
def nodeFor? (c : Capture) (v : View) (t : Thing) : Option NodeIndex :=
  (c.drawn v).draft.entries.find? t

/-- The node of the object at an address. -/
abbrev nodeOf? (c : Capture) (v : View) (a : Address) : Option NodeIndex := c.nodeFor? v (.object a)

section

variable {c : Capture} {v : View} {S : BackingStore → Prop}

theorem grows_rooted : Draft.Grows (c.scope v) S { ledger := c.ledger } (c.rooted v).draft :=
  Survey.grows_addRoots { draft := { ledger := c.ledger } }

theorem grows_onceRead (hS : ∀ o ∈ v.live, c.handlers.Owns v o S) :
    Draft.Grows (c.scope v) S (c.rooted v).draft (c.onceRead v).draft :=
  Survey.grows_visitAll hS .first (c.rooted v)

theorem grows_twiceRead (hS : ∀ o ∈ v.live, c.handlers.Owns v o S) :
    Draft.Grows (c.scope v) S (c.onceRead v).draft (c.twiceRead v).draft :=
  Survey.grows_visitAll hS .second (c.onceRead v)

theorem grows_drawn : Draft.Grows (c.scope v) S (c.twiceRead v).draft (c.drawn v).draft :=
  Draft.grows_addCompanions [] v.companions (c.twiceRead v).draft

/-- All that is drawn is drawn step by step. -/
theorem grows_all (hS : ∀ o ∈ v.live, c.handlers.Owns v o S) :
    Draft.Grows (c.scope v) S { ledger := c.ledger } (c.drawn v).draft :=
  ((grows_rooted.trans (grows_onceRead hS)).trans (grows_twiceRead hS)).trans grows_drawn

end

theorem distinct_blank (l : Ledger) : ({ ledger := l } : Draft).Distinct := by
  constructor
  · intro t i ht
    rw [Entries.find?_empty] at ht
    cases ht
  · intro t u i ht
    rw [Entries.find?_empty] at ht
    cases ht

theorem distinct_rooted (c : Capture) (v : View) : (c.rooted v).draft.Distinct :=
  (grows_rooted (S := Any)).distinct (distinct_blank c.ledger)

theorem distinct_onceRead (c : Capture) (v : View) : (c.onceRead v).draft.Distinct :=
  (grows_onceRead fun o _ => c.handlers.owns_any v o).distinct (c.distinct_rooted v)

/-- In the end every thing has a node of its own. -/
theorem distinct_drawn (c : Capture) (v : View) : (c.drawn v).draft.Distinct :=
  (grows_all fun o _ => c.handlers.owns_any v o).distinct (distinct_blank c.ledger)

theorem walk_completed {c c' : Capture} {v : View} (h : c.walk v = (.ok .completed, c')) :
    c'.graph = (c.drawn v).graph.group.setSamples (c.drawn v).ledger.samples ∧
      c'.ledger = (c.drawn v).ledger ∧ c'.fault = (c.drawn v).countEdges.fault := by
  unfold walk at h
  dsimp only at h
  split at h
  · next halt _ => cases halt <;> simp [halted] at h
  · next hfirst =>
    split at h
    · next halt _ => cases halt <;> simp [halted] at h
    · next hlast =>
      split at h
      · next halt _ => cases halt <;> simp [halted] at h
      · have hsecond := Walk.halt_of_addCompanions hlast
        have hsurvey : (companions v (c.pass v .second (c.pass v .first (c.start v)))).survey =
            c.drawn v := by
          rw [companions, Walk.survey_addCompanions hlast, pass, Walk.survey_visitAll hsecond, pass,
            Walk.survey_visitAll hfirst]
          rfl
        simp only [finished, Prod.mk.injEq, true_and] at h
        subst h
        unfold conclude
        dsimp only
        rw [hsurvey]
        exact ⟨rfl, rfl, rfl⟩

theorem run_eq {c : Capture} {v : View} (h : (c.run v).1 = .ok .completed) :
    c.run v = (.ok .completed, (c.run v).2) :=
  Prod.ext h rfl

theorem run_completed {c c' : Capture} {v : View} (h : c.run v = (.ok .completed, c')) :
    c'.graph = (c.drawn v).graph.group.setSamples (c.drawn v).ledger.samples ∧
      c'.ledger = (c.drawn v).ledger ∧ c'.fault = (c.drawn v).countEdges.fault := by
  unfold run at h
  split at h
  · exact walk_completed (c := { c with quiesced := c.quiesced + c.settings.quiescePasses }) h
  · cases h

end Capture

end ManagedHeap
