import SweptCache.Search

/-!
# What a client is told

A search that returns gives a result object, which every client of its entry
shares. The entry's `Verdict` is fixed once, when the search has ended or was
cancelled before it began, and every client is given the outcome that follows
from it. A submission can also be refused before there is an entry.
-/

namespace SweptCache

/-- The number of an entry, in the order in which entries are made. Numbers are given by a counter
of one word, which is taken never to wrap: fewer than 2^64 entries are made. -/
abbrev EntryId := Nat

/-- A result object: an output with the entry that produced it. An entry makes one object at
most, so its entry tells objects apart. -/
structure SearchResult extends output : Output where
  producer : EntryId
  deriving DecidableEq, Repr

/-- Why a client is given no result. -/
inductive CacheError where
  | insufficientMemory (freeMegabytes requiredMegabytes : Nat)
  | cancelled
  | searchFailed (failure : Failure)
  | shutDown
  deriving DecidableEq, Repr

namespace CacheError

/-- The text that explains why a client is given no result. -/
def message : CacheError → String
  | .insufficientMemory freeMegabytes requiredMegabytes =>
    "Insufficient memory to start a new search (" ++ toString freeMegabytes ++ "M free < " ++
      toString requiredMegabytes ++ "M required). Please try again later."
  | .cancelled => "Search cancelled"
  | .searchFailed failure => "Search failed: " ++ failure.message
  | .shutDown => "Cache has been shut down"

/-- Whether the search was cancelled. -/
def isCancelled : CacheError → Bool
  | .cancelled => true
  | .insufficientMemory _ _ | .searchFailed _ | .shutDown => false

end CacheError

/-- What a client is given. -/
abbrev Outcome := Except CacheError SearchResult

/-- How an entry has settled. -/
inductive Verdict where
  | done (result : SearchResult)
  | failed (failure : Failure)
  | cancelled
  deriving DecidableEq, Repr

/-- What the clients of a settled entry are given. -/
def Verdict.outcome : Verdict → Outcome
  | .done result => .ok result
  | .failed failure => .error (.searchFailed failure)
  | .cancelled => .error .cancelled

end SweptCache
