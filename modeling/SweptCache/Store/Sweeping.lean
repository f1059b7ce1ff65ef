import SweptCache.Store

/-!
# Sweeping a cache

A sweep scores all registered entries, takes one reading of free memory, plans
what to remove and carries the plan out: every entry of the plan leaves the
cache, and the searches it aborts are cancelled. If the estimated size of the
entries does not fit in a word there is no plan, and nothing leaves the cache.

Between plan and removals a sweep may hand out a report on what it found, at
most once a minute, and with a listing at most every five minutes.
-/

namespace SweptCache

/-- The least time between two reports. -/
def reportInterval : Duration := .ofSeconds 60

/-- The least time between two reports with a listing. -/
def listingInterval : Duration := .ofSeconds 300

/-- Whether something last done at such a time may be done again. -/
def isDue (now : Instant) (interval : Duration) (last : Option Instant) : Bool :=
  last.all fun last => interval ≤ now.since last

namespace Store

/-- The registered entries as a sweep sees them. -/
def candidates (store : Store) : List Candidate :=
  store.registeredEntries.map fun entry =>
    ⟨store.policy (entry.stats store.clock), entry.stats store.clock⟩

/-- The store with the scores of all registered entries computed and remembered. -/
def scoreAll (store : Store) : Store :=
  store.updateAll store.registeredIds fun entry =>
    entry.rememberWorthiness (store.policy (entry.stats store.clock))

/-- The store after a sweep that found such a size and so much free memory has
had the opportunity to hand out a report. -/
def reportIfDue (store : Store) (sizeBytes : Nat) (freeBytes : UInt64) :
    Except Overflow Unit × Store :=
  if isDue store.clock reportInterval store.lastReport then
    let isListing := isDue store.clock listingInterval store.lastListing
    let timed :=
      { store with
        lastReport := some store.clock
        lastListing := if isListing then some store.clock else store.lastListing }
    match Snapshot.captureAll store.clock true store.registeredEntries with
    | .error overflow => (.error overflow, timed)
    | .ok snapshots =>
      let delivered : DeliveredReport :=
        ⟨.ofSnapshots snapshots sizeBytes freeBytes, if isListing then some snapshots else none⟩
      (.ok (), { timed with reports := timed.reports ++ [delivered] })
  else (.ok (), store)

/-- The entries that a plan removes, with what is done to them. -/
def plannedRemovals (store : Store) (plan : Plan) : List (Entry × SweepAction) :=
  plan.actions.filterMap fun decision =>
    (store.registeredEntries[decision.1]?).map fun entry => (entry, decision.2)

/-- Whether an action aborts a search. -/
def isAbort : SweepAction → Bool
  | .abort _ => true
  | .evict _ => false

/-- The store with a plan carried out. -/
def carryOut (store : Store) (plan : Plan) : Store :=
  let removals := store.plannedRemovals plan
  let aborted := (removals.filter fun removal => isAbort removal.2).map (·.1.id)
  let cancelled := store.updateAll aborted (Entry.cancel store.clock)
  { cancelled with
    registrations := store.registrations.filter fun registration =>
      !removals.any fun removal => removal.1.key = registration.key }

/-- What a sweep with such a plan did and left. -/
def summary (store : Store) (plan : Plan) : Except Overflow SweepSummary :=
  match store.sizeBytes with
  | .error overflow => .error overflow
  | .ok sizeBytes => .ok {
      evicted := plan.actions.countP fun decision => !isAbort decision.2
      aborted := plan.actions.countP fun decision => isAbort decision.2
      remaining := store.size
      running := store.registeredEntries.countP fun entry => !entry.isDone
      sizeBytes := sizeBytes }

/-- One sweep. -/
def sweep (store : Store) : Except Overflow SweepSummary × Store :=
  let freeBytes := store.memory.next
  let scored := store.scoreAll.afterReading
  match Plan.make store.candidates store.settings.limits freeBytes with
  | .error overflow => (.error overflow, scored)
  | .ok plan =>
    match scored.reportIfDue plan.sizeBytes freeBytes with
    | (.error overflow, reported) => (.error overflow, reported)
    | (.ok (), reported) =>
      let swept := reported.carryOut plan
      (swept.summary plan, swept)

end Store

end SweptCache
