import SweptCache.Outcome
import SweptCache.Ranking

/-!
# Entries

An entry holds one search, the record of its life and a worker that executes
the search once it has been started. The record and the worker move
separately: the worker performs the script, notes that the search is done,
judges how it ended, and only then settles the record, and a client may cancel
or touch the entry between any two of these steps. So may whoever the execution
has given its token to. `Entry.advance` is one step of the worker.

The record is guarded where it can be written from two sides. Only a pending
entry can be started, a cancellation settles an entry only if it is pending,
and the worker settles a record that has been running.
-/

namespace SweptCache

/-- How far the life of an entry has come. -/
inductive Slot where
  | pending
  | running
  | settled (verdict : Verdict)
  deriving DecidableEq, Repr

namespace Slot

/-- The status that clients see. -/
def status : Slot → Status
  | .pending => .pending
  | .running => .running
  | .settled (.done _) => .done
  | .settled (.failed _) => .failed
  | .settled .cancelled => .cancelled

/-- What clients are given, once there is something to give. -/
def outcome? : Slot → Option Outcome
  | .pending | .running => none
  | .settled verdict => some verdict.outcome

/-- Whether a slot has settled. -/
def isSettled : Slot → Bool
  | .pending | .running => false
  | .settled _ => true

end Slot

/-- Where the execution of a search stands. -/
inductive Worker where
  /-- The execution is about to begin. -/
  | launched
  /-- So much of the script is left. -/
  | executing (remaining : List ScriptStep)
  /-- The execution has ended. -/
  | returned (ending : Ending)
  /-- The search is known to be done, and its ending has yet to be judged. -/
  | judging (ending : Ending)
  /-- The ending has been judged, and the entry has yet to settle. -/
  | settling (verdict : Verdict)
  deriving DecidableEq, Repr

/-- A search in the cache or apart from it, with the record of its life. -/
structure Entry where
  id : EntryId
  search : Search
  created : Instant
  /-- Whether cancellation has been requested. -/
  cancelRequested : Bool
  storedHits : UInt64
  /-- Whether the execution has ended, or never will begin. -/
  searchDone : Bool
  /-- The score that was last computed. -/
  worthiness : Score
  slot : Slot
  lastAccess : Instant
  started : Option Instant
  finished : Option Instant
  /-- The execution, while it goes on. -/
  worker : Option Worker
  /-- How often the search has been executed. -/
  executions : Nat
  deriving DecidableEq, Repr

namespace Entry

/-- An entry that has not been started. -/
def make (id : EntryId) (search : Search) (now : Instant) : Entry where
  id := id
  search := search
  created := now
  cancelRequested := false
  storedHits := 0
  searchDone := false
  worthiness := 0
  slot := .pending
  lastAccess := now
  started := none
  finished := none
  worker := none
  executions := 0

/-- The key of the entry's search. -/
def key (entry : Entry) : SearchKey := entry.search.key

/-- The status that clients see. -/
def status (entry : Entry) : Status := entry.slot.status

/-- Whether the entry is finished for good. -/
def isDone (entry : Entry) : Bool := entry.status.isTerminal

/-- What clients are given, once there is something to give. -/
def outcome? (entry : Entry) : Option Outcome := entry.slot.outcome?

/-- The entry started, if it was pending: its worker is about to execute the search. -/
def start (now : Instant) (entry : Entry) : Entry :=
  match entry.slot with
  | .pending => { entry with slot := .running, started := some now, worker := some .launched }
  | .running | .settled _ => entry

/-- The entry with its cancellation requested. A pending entry is cancelled on
the spot, a running one when its search takes notice, a settled one not at all. -/
def cancel (now : Instant) (entry : Entry) : Entry :=
  match entry.slot with
  | .pending =>
    { entry with
      cancelRequested := true
      searchDone := true
      slot := .settled .cancelled
      finished := some now }
  | .running => { entry with cancelRequested := true }
  | .settled _ => entry

/-- The entry with the token tripped that its execution was handed, or that the execution has
passed on. Nobody has the token before the entry is started; from then on it can be tripped at any
time, and the entry looks as if a client had asked it to stop. -/
def trip (entry : Entry) : Entry :=
  match entry.slot with
  | .pending => entry
  | .running | .settled _ => { entry with cancelRequested := true }

/-- The entry as a client has just asked for it. -/
def touch (now : Instant) (entry : Entry) : Entry := { entry with lastAccess := now }

/-- The entry cancelled unless its search is done. -/
def cancelUnlessDone (now : Instant) (entry : Entry) : Entry :=
  if entry.searchDone then entry else entry.cancel now

/-- The entry with one step of its script performed, of which so much is left after it. -/
def perform (entry : Entry) (remaining : List ScriptStep) : ScriptStep → Entry
  | .reportHits hits =>
    { entry with
      storedHits := max entry.storedHits hits
      worker := some (.executing remaining) }
  | .addHits hits =>
    { entry with
      storedHits := entry.storedHits + hits
      worker := some (.executing remaining) }
  | .checkpoint =>
    if entry.cancelRequested then
      { entry with worker := some (.returned (.error .interrupted)) }
    else { entry with worker := some (.executing remaining) }
  | .finish output => { entry with worker := some (.returned (.result output)) }
  | .finishIfCancelled output =>
    if entry.cancelRequested then { entry with worker := some (.returned (.result output)) }
    else { entry with worker := some (.executing remaining) }
  | .failIfCancelled failure =>
    if entry.cancelRequested then { entry with worker := some (.returned (.error failure)) }
    else { entry with worker := some (.executing remaining) }
  | .fail failure => { entry with worker := some (.returned (.error failure)) }
  | .crash report => { entry with worker := some (.returned (.crash report)) }
  | .pause => { entry with worker := some (.executing remaining) }

/-- The entry with the ending of its search judged. A result stands even if
cancellation was requested; an error is then taken for the cancellation. -/
def judge (entry : Entry) : Ending → Entry
  | .result output =>
    { entry with
      storedHits := max entry.storedHits output.hits
      worker := some (.settling (.done ⟨output, entry.id⟩)) }
  | .error failure =>
    { entry with
      worker := some (.settling (if entry.cancelRequested then .cancelled else .failed failure)) }
  | .crash report => { entry with worker := some (.settling (.failed report.failure)) }

/-- The entry after one step of its worker. -/
def advance (now : Instant) (entry : Entry) : Entry :=
  match entry.worker with
  | none => entry
  | some .launched =>
    { entry with
      executions := entry.executions + 1
      worker := some (.executing entry.search.script) }
  | some (.executing []) => { entry with worker := some (.returned (.result entry.search.output)) }
  | some (.executing (step :: remaining)) => entry.perform remaining step
  | some (.returned ending) =>
    { entry with searchDone := true, worker := some (.judging ending) }
  | some (.judging ending) => entry.judge ending
  | some (.settling verdict) =>
    { entry with slot := .settled verdict, finished := some now, worker := none }

/-- A number of steps in which the worker is certain to have settled the entry. -/
def stepsLeft (entry : Entry) : Nat :=
  match entry.worker with
  | none => 0
  | some .launched => entry.search.script.length + 5
  | some (.executing remaining) => remaining.length + 4
  | some (.returned _) => 3
  | some (.judging _) => 2
  | some (.settling _) => 1

/-- Starting an entry keeps its number. -/
@[simp] theorem id_start (now : Instant) (entry : Entry) : (entry.start now).id = entry.id := by
  unfold start
  split <;> rfl

/-- Cancelling an entry keeps its number. -/
@[simp] theorem id_cancel (now : Instant) (entry : Entry) : (entry.cancel now).id = entry.id := by
  unfold cancel
  split <;> rfl

/-- Tripping the token of an entry keeps its number. -/
@[simp] theorem id_trip (entry : Entry) : entry.trip.id = entry.id := by
  unfold trip
  split <;> rfl

/-- A step of the script keeps the number of its entry. -/
@[simp] theorem id_perform (entry : Entry) (remaining : List ScriptStep) (step : ScriptStep) :
    (entry.perform remaining step).id = entry.id := by
  cases step <;> simp only [perform] <;> split <;> rfl

/-- Judging an ending keeps the number of its entry. -/
@[simp] theorem id_judge (entry : Entry) (ending : Ending) :
    (entry.judge ending).id = entry.id := by
  cases ending <;> rfl

/-- A step of the worker keeps the number of its entry. -/
@[simp] theorem id_advance (now : Instant) (entry : Entry) :
    (entry.advance now).id = entry.id := by
  unfold advance
  split <;> simp

/-- Nothing is left to do exactly when there is no worker. -/
theorem stepsLeft_eq_zero_iff (entry : Entry) : entry.stepsLeft = 0 ↔ entry.worker = none := by
  unfold stepsLeft
  split <;> simp_all

/-- A step of the script leaves no more to do than what follows it in the script. -/
theorem stepsLeft_perform (entry : Entry) (remaining : List ScriptStep) (step : ScriptStep) :
    (entry.perform remaining step).stepsLeft ≤ remaining.length + 4 := by
  cases step <;> simp only [perform] <;> (try split) <;> simp [stepsLeft]

/-- Every step of a worker brings the entry closer to its end. -/
theorem stepsLeft_advance (now : Instant) (entry : Entry) :
    (entry.advance now).stepsLeft ≤ entry.stepsLeft - 1 := by
  unfold advance
  split
  case h_1 none => simp [stepsLeft, none]
  case h_2 launched => simp [stepsLeft, launched]
  case h_3 executing => simp [stepsLeft, executing]
  case h_4 step remaining executing =>
    have perform := entry.stepsLeft_perform remaining step
    simp only [stepsLeft, executing, List.length_cons] at perform ⊢
    omega
  case h_5 ending returned => simp [stepsLeft, returned]
  case h_6 ending judging => cases ending <;> simp [stepsLeft, judging, judge]
  case h_7 verdict settling => simp [stepsLeft, settling]

/-- Whether the next step of the worker is a pause. -/
def isPaused (entry : Entry) : Bool :=
  match entry.worker with
  | some (.executing (.pause :: _)) => true
  | _ => false

/-- How long the search has been running, or ran. -/
def waited (now : Instant) (entry : Entry) : Duration :=
  match entry.started, entry.finished with
  | some started, some finished => finished.since started
  | some started, none => now.since started
  | none, _ => .zero

/-- How long a finished search has gone without access. -/
def unused (now : Instant) (entry : Entry) : Duration :=
  match entry.finished with
  | some finished => now.since (finished.latest entry.lastAccess)
  | none => .zero

/-- The figures of the entry at a moment. -/
def stats (now : Instant) (entry : Entry) : Stats where
  status := entry.status
  searchDone := entry.searchDone
  storedHits := entry.storedHits
  sinceCreation := now.since entry.created
  sinceLastAccess := now.since entry.lastAccess
  waited := entry.waited now
  unused := entry.unused now
  isCount := entry.key.isCount

/-- The entry with a score remembered. -/
def rememberWorthiness (score : Score) (entry : Entry) : Entry :=
  { entry with worthiness := score }

/-- The bytes that the entry takes up, whether or not they fit in a word. -/
def exactSize (entry : Entry) : Nat := SweptCache.exactSize entry.storedHits

end Entry

end SweptCache
