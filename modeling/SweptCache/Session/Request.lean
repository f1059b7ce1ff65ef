import SweptCache.Store.Execution

/-!
# Requests to a session and their answers

The requests fall into those to the cache, those to an entry of which the
client has a handle, and the rest. Answers hold what the library says, without
a form in which it is written.
-/

namespace SweptCache

/-- The policies that a session can name. -/
inductive PolicyName where
  | mostHits
  | fewestHits
  | standard
  deriving DecidableEq, Repr

/-- The policy with a name. -/
def PolicyName.policy : PolicyName → Policy
  | .mostHits => .mostHits
  | .fewestHits => .fewestHits
  | .standard => .standard

/-- A request to the cache. -/
inductive CacheRequest where
  /-- Submits a search and starts it in the background. -/
  | getAsync (search : Search)
  /-- Submits a search and waits for its outcome. -/
  | get (search : Search)
  /-- Has so many clients submit equal searches at once and wait for the outcomes. -/
  | race (search : Search) (clients : Nat)
  | remove (key : SearchKey)
  | removeIndex (index : String)
  | clear (cancelsRunning : Bool)
  | shutDown
  /-- Gives the cache up, which shuts it down. -/
  | drop
  | sweep
  | size
  | contains (key : SearchKey)
  | settings
  | overview
  | contents (isDetailed : Bool)
  /-- Waits until the cache has so many entries. -/
  | awaitSize (size : Nat)
  deriving DecidableEq, Repr

/-- A request to an entry. -/
inductive EntryRequest where
  | start (isBlocking : Bool)
  | resume
  | cancel
  /-- Has so many clients start the entry at once. -/
  | startRace (clients : Nat)
  | touch
  /-- Waits for the outcome. -/
  | result
  /-- Waits for the outcome, but not for longer than this. -/
  | resultWithin (timeout : Duration)
  | outcome
  /-- Has so many clients wait for the outcome. -/
  | addWaiters (clients : Nat)
  /-- Collects the outcomes of the clients that were waiting. -/
  | join
  | flags
  | stats
  /-- Compares the times of the entry with a duration. -/
  | times (bound : Duration)
  | score (policy : PolicyName)
  | lastScore
  | snapshot (isDetailed : Bool)
  | texts
  /-- Waits until cancellation has been requested. -/
  | awaitCancel
  deriving DecidableEq, Repr

/-- A request to a session. -/
inductive Request where
  | cache (request : CacheRequest)
  | entry (id : EntryId) (request : EntryRequest)
  /-- Makes an entry apart from the cache. -/
  | newEntry (search : Search)
  | sleep (duration : Duration)
  | memory (readings : MemoryReadings)
  | executions
  | reports
  | unknown
  deriving DecidableEq, Repr

/-- What a session answers. -/
inductive Answer where
  | nothing
  | bool (value : Bool)
  | number (value : Nat)
  | entry (id : EntryId) (status : Status)
  | status (status : Status)
  | outcome (outcome : Outcome)
  | outcomes (outcomes : List Outcome)
  | summary (summary : SweepSummary)
  | size (size : Nat)
  | settings (settings : Settings)
  | overview (overview : Overview)
  | snapshots (snapshots : List Snapshot)
  | snapshot (snapshot : Snapshot)
  | flags (entry : Entry)
  | stats (stats : Stats)
  /-- Which of an entry's times have reached a bound: since its creation, since
  it was last asked for, waited and unused. -/
  | times (created accessed waited unused : Bool)
  | score (policy : Option PolicyName) (score : Score)
  | texts (label description descriptionLines : String)
  | executions (counts : List (String × Nat))
  | reports (reports : List DeliveredReport)
  /-- The client would have to wait for ever. -/
  | blocked
  /-- An estimated size does not fit in a word. -/
  | overflow (overflow : Overflow)
  /-- The cache has been given up. -/
  | dropped
  /-- The client has no handle of such an entry. -/
  | noHandle
  /-- The search is not at a pause. -/
  | notPaused
  /-- There is no such request. -/
  | unknownRequest

/-- Whether all clients have got one and the same result object. -/
def sharesOneResult (outcomes : List Outcome) : Bool :=
  match outcomes with
  | [] => true
  | .error _ :: _ => false
  | .ok first :: rest =>
    rest.all fun
      | .ok other => other.producer = first.producer
      | .error _ => false

end SweptCache
