import ManagedHeap.Settings
/-!
Progress of a capture. Every unit of work is counted; at multiples of the granularity, and once
at the end, the count is reported to a control that may stop the capture. The limit on nodes is
enforced at the same places, reported or not.
-/
namespace ManagedHeap

/-- Work done, out of the work there is. -/
abbrev ProgressReport := Nat × Nat

/-- Decides, given all reports so far with the latest at the end, whether the capture shall
stop. -/
abbrev Control := List ProgressReport → Bool

/-- Why a capture does not go on. -/
inductive Halt where
  | stopped
  | tooManyNodes
  deriving DecidableEq, Repr, Inhabited

structure Progress where
  done : Nat := 0
  total : Nat
  /-- At least 1. -/
  granularity : Nat
  maxNodes : Nat
  control : Option Control := none
  /-- What was reported, the latest at the end. -/
  reports : List ProgressReport := []

namespace Progress

def start (settings : Settings) (control : Option Control) (total : Nat) : Progress :=
  { total := total
    granularity := max 1 settings.progressGranularity
    maxNodes := settings.maxNodes
    control := control }

def step (p : Progress) : Progress := { p with done := p.done + 1 }

def complete (p : Progress) : Progress := { p with done := p.total }

/-- Check the number of nodes, then report if it is time to or `force` is set. -/
def report (p : Progress) (force : Bool) (nodeCount : Nat) : Option Halt × Progress :=
  if p.maxNodes < nodeCount then (some .tooManyNodes, p)
  else
    match p.control with
    | none => (none, p)
    | some control =>
      if force || p.done % p.granularity == 0 then
        let reports := p.reports ++ [(p.done, p.total)]
        (if control reports then some .stopped else none, { p with reports := reports })
      else (none, p)

end Progress

end ManagedHeap
