import SweptCache.Session.Request
import SweptCache.Store.Removal

/-!
# Sessions with a cache

A session is one cache with the clients that use it, who hold handles of
entries and may be waiting for outcomes. Requests are carried out one after the
other, some time apart. With a load manager the cache is swept at regular
intervals for as long as it is open, and waiting clients see what those sweeps
do.

A request that could only be answered by waiting for ever is answered by saying
so.
-/

namespace SweptCache

/-- The regular sweeps of a cache. -/
structure LoadManager where
  interval : Duration
  nextSweep : Instant
  deriving DecidableEq, Repr

/-- A cache with the clients that use it. -/
structure Session where
  store : Store
  manager : Option LoadManager
  /-- The entries of which a client has a handle. -/
  handles : List EntryId
  /-- For each client that is waiting for an outcome, the entry it waits for. -/
  waiting : List EntryId
  /-- Whether the cache has been given up. -/
  isDropped : Bool

namespace Session

/-- The time between two requests. -/
def requestInterval : Duration := .ofMilliseconds 1

/-- The longest time for which a session waits for something to come about. -/
def longestWait : Duration := .ofSeconds 5

/-- A session with a new cache, unless its settings have a flaw. -/
def create (settings : Settings) (policy : Policy) (memory : MemoryReadings)
    (hasManager : Bool) : Except SettingsFlaw Session :=
  match Store.create settings policy memory with
  | .error flaw => .error flaw
  | .ok store => .ok {
      store := store
      manager :=
        if hasManager then
          some ⟨settings.sweepInterval, store.clock.after settings.sweepInterval⟩
        else none
      handles := []
      waiting := []
      isDropped := false }

/-- The session with its cache in another state. -/
def withStore (session : Session) (store : Store) : Session := { session with store := store }

/-- The session at a moment, unless it is later already. -/
def moveTo (session : Session) (moment : Instant) : Session :=
  session.withStore (session.store.pass (moment.since session.store.clock))

/-- The session after a sweep by its load manager. -/
def sweepByManager (session : Session) (manager : LoadManager) : Session :=
  let due := session.moveTo manager.nextSweep
  { due with
    store := due.store.sweep.2
    manager := some { manager with nextSweep := due.store.clock.after manager.interval } }

/-- The session at a moment, or before it as soon as a condition holds. No more
than so many sweeps take place. -/
def passUntil (condition : Session → Bool) (moment : Instant) : Nat → Session → Session
  | 0, session => session.moveTo moment
  | sweeps + 1, session =>
    if condition session then session
    else
      match session.manager with
      | none => session.moveTo moment
      | some manager =>
        if manager.nextSweep ≤ moment then
          passUntil condition moment sweeps (session.sweepByManager manager)
        else session.moveTo moment

/-- A number of sweeps that is not reached within a duration. -/
def sweepBound (session : Session) (duration : Duration) : Nat :=
  match session.manager with
  | none => 1
  | some manager => duration.nanoseconds / manager.interval.nanoseconds + 2

/-- The session after some time, or before that as soon as a condition holds. -/
def wait (session : Session) (duration : Duration) (condition : Session → Bool) : Session :=
  passUntil condition (session.store.clock.after duration) (session.sweepBound duration) session

/-- The session after some time. -/
def pass (session : Session) (duration : Duration) : Session :=
  session.wait duration fun _ => false

/-- The session with one more handle. -/
def addHandle (session : Session) (id : EntryId) : Session :=
  if session.handles.contains id then session
  else { session with handles := session.handles ++ [id] }

/-- The answer that tells of an entry. -/
def entryAnswer (store : Store) (id : EntryId) : Answer :=
  match store.find? id with
  | some entry => .entry id entry.status
  | none => .nothing

/-- The answer that tells of an entry's status. -/
def statusAnswer (store : Store) (id : EntryId) : Answer :=
  match store.find? id with
  | some entry => .status entry.status
  | none => .nothing

/-- The answer to a client whose submission was refused. -/
def refusalAnswer : Refusal → Answer
  | .error error => .outcome (.error error)
  | .overflow overflow => .overflow overflow

/-- Whether a client that waits for a search would have to wait for another one to go on. -/
def wouldWait (session : Session) (search : Search) : Bool :=
  search.cacheable && session.store.contains search.key &&
    session.handles.any fun id =>
      (session.store.find? id).any fun entry =>
        entry.key = search.key && entry.status = .running && !entry.cancelRequested

/-- The outcome of a client that waits for a search, or the answer if there is none. -/
def clientOutcome : Except Refusal (Option Outcome) → Except Answer Outcome
  | .error (.error error) => .ok (.error error)
  | .error (.overflow overflow) => .error (.overflow overflow)
  | .ok none => .error .blocked
  | .ok (some outcome) => .ok outcome

/-- What so many clients that submit equal searches get, and the store after
all of them. A client that gets no outcome does not keep the others from theirs. -/
def raceOutcomes (search : Search) : Nat → Store → List (Except Answer Outcome) × Store
  | 0, store => ([], store)
  | clients + 1, store =>
    let raced := raceOutcomes search clients (store.get search).2
    (clientOutcome (store.get search).1 :: raced.1, raced.2)

/-- The answer that tells what several clients got: all their outcomes, or the
answer to the first of them that got none. -/
def raceAnswer : List (Except Answer Outcome) → List Outcome → Answer
  | [], outcomes => .outcomes outcomes
  | .error answer :: _, _ => answer
  | .ok outcome :: rest, outcomes => raceAnswer rest (outcomes ++ [outcome])

/-- The store after so many clients have started an entry and wait for its end. -/
def startAll (id : EntryId) : Nat → Store → Store
  | 0, store => store
  | clients + 1, store => startAll id clients (store.execute id true)

/-- The session with its cache shut down and no longer swept. -/
def shutDown (session : Session) : Session :=
  { session with store := session.store.shutDown, manager := none }

/-- The answer to a request to the cache. -/
def performOnCache (session : Session) : CacheRequest → Answer × Session
  | .getAsync search =>
    match session.store.getAsync search with
    | (.error refusal, store) => (refusalAnswer refusal, session.withStore store)
    | (.ok id, store) => (entryAnswer store id, (session.withStore store).addHandle id)
  | .get search =>
    if session.wouldWait search then (.blocked, session)
    else
      match clientOutcome (session.store.get search).1 with
      | .error answer => (answer, session.withStore (session.store.get search).2)
      | .ok outcome => (.outcome outcome, session.withStore (session.store.get search).2)
  | .race search clients =>
    if session.wouldWait search then (.blocked, session)
    else
      let raced := raceOutcomes search clients session.store
      (raceAnswer raced.1 [], session.withStore raced.2)
  | .remove key =>
    match session.store.registered? key with
    | none => (.nothing, session.withStore (session.store.remove key))
    | some entry =>
      (entryAnswer session.store entry.id,
        (session.withStore (session.store.remove key)).addHandle entry.id)
  | .removeIndex index =>
    (.number (session.store.registrationsOf index).length,
      session.withStore (session.store.removeIndex index))
  | .clear cancelsRunning => (.nothing, session.withStore (session.store.clear cancelsRunning))
  | .shutDown => (.nothing, session.shutDown)
  | .drop => (.nothing, { session.shutDown with isDropped := true })
  | .sweep =>
    match session.store.sweep with
    | (.error overflow, store) => (.overflow overflow, session.withStore store)
    | (.ok summary, store) => (.summary summary, session.withStore store)
  | .size => (.size session.store.size, session)
  | .contains key => (.bool (session.store.contains key), session)
  | .settings => (.settings session.store.settings, session)
  | .overview =>
    match session.store.overview with
    | (.error overflow, store) => (.overflow overflow, session.withStore store)
    | (.ok overview, store) => (.overview overview, session.withStore store)
  | .contents isDetailed =>
    match session.store.contents isDetailed with
    | .error overflow => (.overflow overflow, session)
    | .ok snapshots => (.snapshots snapshots, session)
  | .awaitSize size =>
    let hasSize (session : Session) : Bool := session.store.size = size
    let waited := session.wait longestWait hasSize
    (.bool (hasSize waited), waited)

/-- The answer of an outcome that may not have come about yet. -/
def outcomeAnswer (missing : Answer) : Option Outcome → Answer
  | none => missing
  | some outcome => .outcome outcome

/-- The answer to a request to an entry. -/
def performOnEntry (session : Session) (entry : Entry) : EntryRequest → Answer × Session
  | .start isBlocking =>
    let store := session.store.execute entry.id isBlocking
    (statusAnswer store entry.id, session.withStore store)
  | .resume =>
    if entry.isPaused then
      let store := session.store.resume entry.id
      (statusAnswer store entry.id, session.withStore store)
    else (.notPaused, session)
  | .cancel =>
    let store := session.store.cancel entry.id
    (statusAnswer store entry.id, session.withStore store)
  | .startRace clients =>
    let store := startAll entry.id clients session.store
    (statusAnswer store entry.id, session.withStore store)
  | .touch => (.nothing, session.withStore (session.store.touch entry.id))
  | .result => (outcomeAnswer .blocked entry.outcome?, session)
  | .resultWithin timeout =>
    let hasOutcome (session : Session) : Bool := (session.store.outcome? entry.id).isSome
    let waited := session.wait timeout hasOutcome
    (outcomeAnswer .nothing (waited.store.outcome? entry.id), waited)
  | .outcome => (outcomeAnswer .nothing entry.outcome?, session)
  | .addWaiters clients =>
    (.nothing, { session with waiting := session.waiting ++ List.replicate clients entry.id })
  | .join =>
    match entry.outcome? with
    | none => (.blocked, session)
    | some outcome =>
      (.outcomes (List.replicate (session.waiting.count entry.id) outcome),
        { session with waiting := session.waiting.filter fun id => id ≠ entry.id })
  | .flags => (.flags entry, session)
  | .stats => (.stats (entry.stats session.store.clock), session)
  | .times bound =>
    let stats := entry.stats session.store.clock
    (.times (bound ≤ stats.sinceCreation) (bound ≤ stats.sinceLastAccess)
      (bound ≤ stats.waited) (bound ≤ stats.unused), session)
  | .score name =>
    let store := session.store.score name.policy entry.id
    (.score (some name) (name.policy (entry.stats session.store.clock)), session.withStore store)
  | .lastScore => (.score none entry.worthiness, session)
  | .snapshot isDetailed =>
    match Snapshot.capture session.store.clock isDetailed entry with
    | .error overflow => (.overflow overflow, session)
    | .ok snapshot => (.snapshot snapshot, session)
  | .texts => (.texts entry.label entry.description entry.descriptionLines, session)
  | .awaitCancel =>
    let isCancelled (session : Session) : Bool :=
      (session.store.find? entry.id).any Entry.cancelRequested
    let waited := session.wait longestWait isCancelled
    (.bool (isCancelled waited), waited)

/-- The answer to a request. -/
def perform (session : Session) : Request → Answer × Session
  | .cache request =>
    if session.isDropped then (.dropped, session) else session.performOnCache request
  | .entry id request =>
    if session.handles.contains id then
      match session.store.find? id with
      | none => (.noHandle, session)
      | some entry => session.performOnEntry entry request
    else (.noHandle, session)
  | .newEntry search =>
    let store := session.store.addEntry search
    (entryAnswer store session.store.nextId,
      (session.withStore store).addHandle session.store.nextId)
  | .sleep duration => (.nothing, session.pass duration)
  | .memory readings => (.nothing, session.withStore { session.store with memory := readings })
  | .executions => (.executions session.store.executionCounts, session)
  | .reports => (.reports session.store.reports, session)
  | .unknown => (.unknownRequest, session)

/-- The lines of a listing of the cache, none once it has been given up. -/
def listing (session : Session) : Except Overflow (List String) :=
  if session.isDropped then .ok []
  else
    match session.store.contents false with
    | .error overflow => .error overflow
    | .ok snapshots => .ok (snapshots.map Snapshot.line)

/-- The answers to requests that come one after the other, each with a listing
of the cache as the request has left it. -/
def performAll (session : Session) :
    List Request → List (Answer × Except Overflow (List String))
  | [] => []
  | request :: rest =>
    let performed := (session.pass requestInterval).perform request
    (performed.1, performed.2.listing) :: performed.2.performAll rest

end Session

end SweptCache
