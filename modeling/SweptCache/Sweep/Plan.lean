import SweptCache.Ranking
import SweptCache.Settings

/-!
# Planning a sweep

A sweep looks at all entries of a cache from most to least worthy and decides
which of them to remove. `Plan.make` makes the decisions from the figures of
the entries alone.

The first pass goes from the least to the most worthy. It aborts searches that
have been running too long, and evicts finished ones while memory is short, the
cache holds too many searches or is too large, or they have been unused for too
long. The first finished search that none of this applies to ends the review of
numbers, size and age: what is worthier stays, unless memory is short.

The second pass goes from the most to the least worthy over the unfinished
searches that are left. It aborts counting searches that nobody asks for, lets
as many others run as the limits allow and aborts the rest.

The estimated size of all entries has to fit in a word, or there is no plan.
-/

namespace SweptCache

/-- Why a finished search is evicted. -/
inductive EvictionReason where
  | lowMemory
  | tooManySearches
  | cacheTooLarge
  | tooOld
  deriving DecidableEq, Repr

namespace EvictionReason

/-- Every reason for an eviction. -/
def all : List EvictionReason := [.lowMemory, .tooManySearches, .cacheTooLarge, .tooOld]

/-- The name of a reason in documents. -/
def name : EvictionReason → String
  | .lowMemory => "lowMemory"
  | .tooManySearches => "tooManySearches"
  | .cacheTooLarge => "cacheTooLarge"
  | .tooOld => "tooOld"

end EvictionReason

/-- Why an unfinished search is aborted. -/
inductive AbortReason where
  | tookTooLong
  | abandonedCount
  | noCoresLeft
  deriving DecidableEq, Repr

namespace AbortReason

/-- Every reason to abort a search. -/
def all : List AbortReason := [.tookTooLong, .abandonedCount, .noCoresLeft]

/-- The name of a reason in documents. -/
def name : AbortReason → String
  | .tookTooLong => "tookTooLong"
  | .abandonedCount => "abandonedCount"
  | .noCoresLeft => "noCoresLeft"

/-- The text that explains a reason. -/
def message : AbortReason → String
  | .tookTooLong => "search took too long"
  | .abandonedCount => "abandoned count"
  | .noCoresLeft => "no cores left"

end AbortReason

/-- What a sweep does to an entry that it removes. -/
inductive SweepAction where
  | evict (reason : EvictionReason)
  | abort (reason : AbortReason)
  deriving DecidableEq, Repr

/-- An entry as a sweep sees it. -/
structure Candidate where
  worthiness : Score
  stats : Stats
  deriving DecidableEq, Repr

/-- The bytes that a candidate takes up, whether or not they fit in a word. -/
def Candidate.exactSize (candidate : Candidate) : Nat :=
  SweptCache.exactSize candidate.stats.storedHits

/-- Whether an amount is beyond a limit; an absent limit is never exceeded. -/
def isExceeded (limit : Option UInt64) (amount : Nat) : Bool :=
  limit.any fun most => decide (most.toNat < amount)

namespace Limits

/-- Whether an unfinished search has been running too long. -/
def isRunaway (limits : Limits) (stats : Stats) : Bool :=
  !stats.searchDone && decide (limits.maxSearchTime < stats.waited)

/-- Whether a counting search has gone too long without being asked for. -/
def isAbandonedCount (limits : Limits) (stats : Stats) : Bool :=
  stats.isCount && decide (limits.abandonedCountTimeout < stats.sinceLastAccess)

/-- Whether a finished search has been unused for too long. -/
def isTooOld (limits : Limits) (stats : Stats) : Bool :=
  limits.maxAge.any fun most => decide (most < stats.unused)

/-- The memory that has to be freed, negative when more than enough is free. -/
def memoryDeficit (limits : Limits) (freeBytes : UInt64) : Int :=
  (bytesOfMegabytes limits.targetFreeMegabytes : Int) - freeBytes.toNat

end Limits

/-- What the first pass knows of the cache as its decisions leave it. -/
structure FirstPass where
  /-- The number of searches that are left. -/
  searches : Nat
  /-- The estimated size of what is left. -/
  sizeBytes : Nat
  /-- The memory that is still to be freed. -/
  memoryDeficit : Int
  /-- Whether number, size and age are still under review. -/
  isReviewing : Bool
  /-- The decisions made so far, with the positions of the candidates. -/
  decisions : List (Nat × SweepAction)
  deriving DecidableEq, Repr

namespace FirstPass

/-- The first pass before it has looked at anything. -/
def start (limits : Limits) (freeBytes : UInt64) (searches sizeBytes : Nat) : FirstPass where
  searches := searches
  sizeBytes := sizeBytes
  memoryDeficit := limits.memoryDeficit freeBytes
  isReviewing := true
  decisions := []

/-- Why a finished candidate has to go to relieve the number, size and age of what is kept. -/
def reviewReason? (pass : FirstPass) (limits : Limits) (stats : Stats) : Option EvictionReason :=
  if isExceeded limits.maxEntries pass.searches then some .tooManySearches
  else if isExceeded limits.maxSizeMegabytes (wholeMegabytes pass.sizeBytes) then
    some .cacheTooLarge
  else if limits.isTooOld stats then some .tooOld
  else none

/-- Why a finished candidate has to go, if it has to. -/
def evictionReason? (pass : FirstPass) (limits : Limits) (stats : Stats) : Option EvictionReason :=
  if 0 < pass.memoryDeficit then some .lowMemory
  else if pass.isReviewing then pass.reviewReason? limits stats
  else none

/-- What is done to a candidate, if anything is. -/
def action? (pass : FirstPass) (limits : Limits) (stats : Stats) : Option SweepAction :=
  if limits.isRunaway stats then some (.abort .tookTooLong)
  else if stats.isDone then (pass.evictionReason? limits stats).map .evict
  else none

/-- The pass after a candidate was removed. Only an eviction frees memory. -/
def remove (pass : FirstPass) (action : SweepAction) (position : Nat) (candidate : Candidate) :
    FirstPass where
  searches := pass.searches - 1
  sizeBytes := pass.sizeBytes - candidate.exactSize
  memoryDeficit :=
    match action with
    | .evict _ => pass.memoryDeficit - candidate.exactSize
    | .abort _ => pass.memoryDeficit
  isReviewing := pass.isReviewing
  decisions := pass.decisions ++ [(position, action)]

/-- The pass after a candidate was kept. A finished one that is kept ends the
review of number, size and age. -/
def keep (pass : FirstPass) (stats : Stats) : FirstPass :=
  if stats.isDone then { pass with isReviewing := false } else pass

/-- The pass after one more candidate. -/
def visit (limits : Limits) (pass : FirstPass) (candidate : Candidate × Nat) : FirstPass :=
  match pass.action? limits candidate.1.stats with
  | some action => pass.remove action candidate.2 candidate.1
  | none => pass.keep candidate.1.stats

end FirstPass

/-- What the second pass knows of the searches that may run. -/
structure SecondPass where
  /-- How many more searches may run. -/
  coresLeft : Nat
  /-- The aborts decided so far, with the positions of the candidates. -/
  decisions : List (Nat × SweepAction)
  deriving DecidableEq, Repr

namespace SecondPass

/-- The pass after one more unfinished candidate. -/
def visit (limits : Limits) (pass : SecondPass) (candidate : Candidate × Nat) : SecondPass :=
  if limits.isAbandonedCount candidate.1.stats then
    { pass with decisions := pass.decisions ++ [(candidate.2, .abort .abandonedCount)] }
  else if 0 < pass.coresLeft then { pass with coresLeft := pass.coresLeft - 1 }
  else { pass with decisions := pass.decisions ++ [(candidate.2, .abort .noCoresLeft)] }

end SecondPass

/-- What a sweep removes: the positions of the entries with what is done to
them, in the order of the decisions, and the estimated size of all entries before. -/
structure Plan where
  actions : List (Nat × SweepAction)
  sizeBytes : Nat
  deriving DecidableEq, Repr

namespace Plan

/-- What is done to the entry at a position, if anything is. -/
def actionFor? (plan : Plan) (position : Nat) : Option SweepAction :=
  (plan.actions.find? fun decision => decision.1 = position).map (·.2)

/-- The first pass over candidates ranked from most to least worthy. -/
def firstPass (limits : Limits) (freeBytes : UInt64) (sizeBytes : Nat)
    (ranked : List (Candidate × Nat)) : FirstPass :=
  ranked.reverse.foldl (FirstPass.visit limits)
    (.start limits freeBytes ranked.length sizeBytes)

/-- Whether a candidate is unfinished and was left by the first pass. -/
def isLeftRunning (first : FirstPass) (candidate : Candidate × Nat) : Bool :=
  !candidate.1.stats.isDone &&
    !first.decisions.any fun decision => decision.1 = candidate.2

/-- The second pass over candidates ranked from most to least worthy. -/
def secondPass (limits : Limits) (first : FirstPass) (ranked : List (Candidate × Nat)) :
    SecondPass :=
  (ranked.filter (isLeftRunning first)).foldl (SecondPass.visit limits)
    ⟨limits.maxConcurrent.toNat, []⟩

/-- The plan of a sweep over candidates, with so many bytes of memory free. -/
def make (candidates : List Candidate) (limits : Limits) (freeBytes : UInt64) :
    Except Overflow Plan :=
  match totalSize (candidates.map fun candidate => candidate.stats.storedHits) with
  | .error overflow => .error overflow
  | .ok sizeBytes =>
    let ranked := rank Candidate.worthiness candidates
    let first := firstPass limits freeBytes sizeBytes ranked
    let second := secondPass limits first ranked
    .ok ⟨first.decisions ++ second.decisions, sizeBytes⟩

end Plan

end SweptCache
