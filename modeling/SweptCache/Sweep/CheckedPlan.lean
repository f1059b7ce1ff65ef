import SweptCache.Sweep.Plan

/-!
# Planning with checked operations

`Plan.make` adds sizes up within words and goes on with exact numbers: it takes
amounts away without looking whether there is as much, and the memory that has to
be freed may be any number. `Plan.makeChecked` is the same computation with every
operation checked. A size has to fit in a word whenever it is computed, what is
taken away has to be there, and the memory that has to be freed has to be a signed
number of 128 bits. An operation that has no such result is a `Misfit`.
-/

namespace SweptCache

/-- Why an operation has no result. -/
inductive Misfit where
  | overflow (overflow : Overflow)
  | underflow
  | outOfRange
  deriving DecidableEq, Repr

/-- An amount less another one, if there is as much. -/
def takeAmount (amount less : Nat) : Except Misfit Nat :=
  if less ≤ amount then .ok (amount - less) else .error .underflow

/-- The least number that is beyond the signed numbers of 128 bits. -/
def wideLimit : Nat := 1 <<< 127

/-- A number, if it is a signed number of 128 bits. -/
def wideNumber (number : Int) : Except Misfit Int :=
  if -(wideLimit : Int) ≤ number ∧ number < wideLimit then .ok number else .error .outOfRange

namespace FirstPass

/-- The pass after a candidate was removed, with every operation checked. -/
def removeChecked (pass : FirstPass) (action : SweepAction) (position : Nat)
    (candidate : Candidate) : Except Misfit FirstPass := do
  let freed ← (sizeOfHits candidate.stats.storedHits).mapError .overflow
  let sizeBytes ← takeAmount pass.sizeBytes freed
  let searches ← takeAmount pass.searches 1
  let memoryDeficit ←
    match action with
    | .evict _ => wideNumber (pass.memoryDeficit - freed)
    | .abort _ => .ok pass.memoryDeficit
  return ⟨searches, sizeBytes, memoryDeficit, pass.isReviewing,
    pass.decisions ++ [(position, action)]⟩

/-- The pass after one more candidate, with every operation checked. -/
def visitChecked (limits : Limits) (pass : FirstPass) (candidate : Candidate × Nat) :
    Except Misfit FirstPass :=
  match pass.action? limits candidate.1.stats with
  | some action => pass.removeChecked action candidate.2 candidate.1
  | none => .ok (pass.keep candidate.1.stats)

end FirstPass

/-- The second pass after one more unfinished candidate, with every operation checked. -/
def SecondPass.visitChecked (limits : Limits) (pass : SecondPass) (candidate : Candidate × Nat) :
    Except Misfit SecondPass :=
  if limits.isAbandonedCount candidate.1.stats then
    .ok { pass with decisions := pass.decisions ++ [(candidate.2, .abort .abandonedCount)] }
  else if 0 < pass.coresLeft then do
    let coresLeft ← takeAmount pass.coresLeft 1
    return { pass with coresLeft := coresLeft }
  else .ok { pass with decisions := pass.decisions ++ [(candidate.2, .abort .noCoresLeft)] }

/-- The plan of a sweep over candidates, with every operation checked. -/
def Plan.makeChecked (candidates : List Candidate) (limits : Limits) (freeBytes : UInt64) :
    Except Misfit Plan := do
  let ranked := rank Candidate.worthiness candidates
  let sizeBytes ←
    (totalSize (candidates.map fun candidate => candidate.stats.storedHits)).mapError .overflow
  let memoryDeficit ← wideNumber (limits.memoryDeficit freeBytes)
  let first ← ranked.reverse.foldlM (FirstPass.visitChecked limits)
    ⟨candidates.length, sizeBytes, memoryDeficit, true, []⟩
  let second ← (ranked.filter (isLeftRunning first)).foldlM (SecondPass.visitChecked limits)
    ⟨limits.maxConcurrent.toNat, []⟩
  return ⟨first.decisions ++ second.decisions, sizeBytes⟩

end SweptCache
