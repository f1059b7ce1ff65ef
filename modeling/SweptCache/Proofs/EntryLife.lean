import SweptCache.Entry

/-!
# The life of an entry

Whatever befalls an entry is one of six `EntryEvent`s, and `Entry.after` is
the entry once it has. An entry is made pending and is `Coherent` from then on:
its slot, its worker and its flags tell the same story, of which there are three
chapters.

What an event cannot undo is stated here once: a request to cancel stands, a
finished search stays finished, and a settled slot is final.
-/

namespace SweptCache

/-- One thing that befalls an entry. -/
inductive EntryEvent where
  | start
  | advance
  | cancel
  | trip
  | touch
  | remember (score : Score)
  deriving DecidableEq, Repr

/-- Whether an event asks the entry to stop. -/
def EntryEvent.isRequest : EntryEvent → Bool
  | .cancel | .trip => true
  | .start | .advance | .touch | .remember _ => false

namespace Worker

/-- How often the search has been executed when its worker stands there. -/
def executions : Worker → Nat
  | .launched => 0
  | .executing _ | .returned _ | .judging _ | .settling _ => 1

/-- Whether the search is known to be done when its worker stands there. -/
def isSearchDone : Worker → Bool
  | .launched | .executing _ | .returned _ => false
  | .judging _ | .settling _ => true

end Worker

namespace Entry

/-- The entry after an event. -/
def after (now : Instant) (entry : Entry) : EntryEvent → Entry
  | .start => entry.start now
  | .advance => entry.advance now
  | .cancel => entry.cancel now
  | .trip => entry.trip
  | .touch => entry.touch now
  | .remember score => entry.rememberWorthiness score

/-- The entry after several events at one moment. -/
def afterAll (now : Instant) (entry : Entry) (events : List EntryEvent) : Entry :=
  events.foldl (after now) entry

@[simp] theorem afterAll_nil (now : Instant) (entry : Entry) : entry.afterAll now [] = entry := rfl

@[simp] theorem afterAll_cons (now : Instant) (entry : Entry) (event : EntryEvent)
    (rest : List EntryEvent) :
    entry.afterAll now (event :: rest) = (entry.after now event).afterAll now rest := rfl

@[simp] theorem afterAll_append (now : Instant) (entry : Entry) (first second : List EntryEvent) :
    entry.afterAll now (first ++ second) = (entry.afterAll now first).afterAll now second := by
  simp [afterAll]

/-- What every event preserves, any number of events preserves. -/
theorem afterAll_preserves (holds : Entry → Prop) {now : Instant} {entry : Entry}
    (step : ∀ entry event, holds entry → holds (entry.after now event))
    (events : List EntryEvent) (initially : holds entry) : holds (entry.afterAll now events) := by
  induction events generalizing entry with
  | nil => exact initially
  | cons event rest ih => exact ih (step entry event initially)

/-- A step of the script reports hits and moves the worker on, and does nothing else. -/
theorem perform_cases (entry : Entry) (remaining : List ScriptStep) (step : ScriptStep) :
    ∃ hits worker,
      entry.perform remaining step = { entry with storedHits := hits, worker := some worker } ∧
      (worker = .executing remaining ∨ ∃ ending, worker = .returned ending) := by
  cases step <;> simp only [perform]
  case reportHits | addHits | pause => exact ⟨_, _, rfl, .inl rfl⟩
  case finish | fail | crash => exact ⟨_, _, rfl, .inr ⟨_, rfl⟩⟩
  all_goals
    split
    · exact ⟨_, _, rfl, .inr ⟨_, rfl⟩⟩
    · exact ⟨_, _, rfl, .inl rfl⟩

/-- Judging an ending reports hits and fixes the verdict, which is a
cancellation only if one was requested. -/
theorem judge_cases (entry : Entry) (ending : Ending) :
    ∃ hits verdict,
      entry.judge ending =
        { entry with storedHits := hits, worker := some (.settling verdict) } ∧
      (verdict = .cancelled → entry.cancelRequested = true) := by
  cases ending with
  | result output => exact ⟨_, _, rfl, by simp⟩
  | error failure =>
    refine ⟨entry.storedHits, _, rfl, ?_⟩
    split
    · exact fun _ => ‹_›
    · simp
  | crash report => exact ⟨_, _, rfl, by simp⟩

/-- A step of the worker leaves alone what it has no part in, and never takes
back that the search is done. -/
theorem advance_cases (now : Instant) (entry : Entry) :
    ∃ hits done slot finished worker executions,
      entry.advance now =
        { entry with
          storedHits := hits
          searchDone := done
          slot := slot
          finished := finished
          worker := worker
          executions := executions } ∧
      (entry.searchDone = true → done = true) := by
  simp only [advance]
  split
  case h_4 step remaining _ =>
    obtain ⟨hits, worker, performed, _⟩ := entry.perform_cases remaining step
    exact ⟨_, _, _, _, _, _, performed, fun same => same⟩
  case h_5 ending _ => exact ⟨_, _, _, _, _, _, rfl, fun _ => rfl⟩
  case h_6 ending _ =>
    obtain ⟨hits, verdict, judged, _⟩ := entry.judge_cases ending
    exact ⟨_, _, _, _, _, _, judged, fun same => same⟩
  all_goals exact ⟨_, _, _, _, _, _, rfl, fun same => same⟩

/-- What is fixed when an entry is made: its number, its search and the moment. -/
theorem after_frame (now : Instant) (entry : Entry) (event : EntryEvent) :
    (entry.after now event).id = entry.id ∧ (entry.after now event).search = entry.search ∧
      (entry.after now event).created = entry.created := by
  cases event with
  | start => simp only [after, start]; split <;> exact ⟨rfl, rfl, rfl⟩
  | cancel => simp only [after, cancel]; split <;> exact ⟨rfl, rfl, rfl⟩
  | trip => simp only [after, trip]; split <;> exact ⟨rfl, rfl, rfl⟩
  | touch | remember => exact ⟨rfl, rfl, rfl⟩
  | advance =>
    obtain ⟨_, _, _, _, _, _, advanced, _⟩ := entry.advance_cases now
    rw [after, advanced]
    exact ⟨rfl, rfl, rfl⟩

@[simp] theorem search_after (now : Instant) (entry : Entry) (event : EntryEvent) :
    (entry.after now event).search = entry.search := (entry.after_frame now event).2.1

@[simp] theorem id_after (now : Instant) (entry : Entry) (event : EntryEvent) :
    (entry.after now event).id = entry.id := (entry.after_frame now event).1

@[simp] theorem created_after (now : Instant) (entry : Entry) (event : EntryEvent) :
    (entry.after now event).created = entry.created := (entry.after_frame now event).2.2

@[simp] theorem search_afterAll (now : Instant) (entry : Entry) (events : List EntryEvent) :
    (entry.afterAll now events).search = entry.search :=
  afterAll_preserves (fun later => later.search = entry.search)
    (fun _ _ same => (search_after ..).trans same) events rfl

@[simp] theorem id_afterAll (now : Instant) (entry : Entry) (events : List EntryEvent) :
    (entry.afterAll now events).id = entry.id :=
  afterAll_preserves (fun later => later.id = entry.id)
    (fun _ _ same => (id_after ..).trans same) events rfl

@[simp] theorem key_afterAll (now : Instant) (entry : Entry) (events : List EntryEvent) :
    (entry.afterAll now events).key = entry.key := by
  simp [key]

/-- An entry that nobody has started or cancelled. -/
structure IsPending (entry : Entry) : Prop where
  slot : entry.slot = .pending
  worker : entry.worker = none
  cancelRequested : entry.cancelRequested = false
  searchDone : entry.searchDone = false
  storedHits : entry.storedHits = 0
  executions : entry.executions = 0
  started : entry.started = none
  finished : entry.finished = none

/-- An entry whose worker stands somewhere. -/
structure IsRunning (entry : Entry) (stage : Worker) : Prop where
  slot : entry.slot = .running
  worker : entry.worker = some stage
  searchDone : entry.searchDone = stage.isSearchDone
  executions : entry.executions = stage.executions
  started : entry.started.isSome
  finished : entry.finished = none
  cancelled : stage = .settling .cancelled → entry.cancelRequested = true

/-- An entry that is finished for good. -/
structure IsSettled (entry : Entry) (verdict : Verdict) : Prop where
  slot : entry.slot = .settled verdict
  worker : entry.worker = none
  searchDone : entry.searchDone = true
  finished : entry.finished.isSome
  cancelled : verdict = .cancelled → entry.cancelRequested = true
  /-- It was executed once, or cancelled before it could be started. -/
  executed : entry.started.isSome ∧ entry.executions = 1 ∨
    entry.started = none ∧ entry.executions = 0 ∧ verdict = .cancelled

/-- An entry is finished for good when it has settled. -/
theorem isDone_iff (entry : Entry) :
    entry.isDone = true ↔ ∃ verdict, entry.slot = .settled verdict := by
  cases slot : entry.slot with
  | pending | running => simp [isDone, status, slot, Slot.status, Status.isTerminal]
  | settled verdict => cases verdict <;> simp [isDone, status, slot, Slot.status, Status.isTerminal]

/-- Clients can be given an outcome of an entry when that is finished for good. -/
theorem isSome_outcome? (entry : Entry) : entry.outcome?.isSome = entry.isDone := by
  rw [Bool.eq_iff_iff, isDone_iff, outcome?]
  cases entry.slot <;> simp [Slot.outcome?]

theorem exists_outcome?_of_isDone {entry : Entry} (done : entry.isDone = true) :
    ∃ outcome, entry.outcome? = some outcome :=
  Option.isSome_iff_exists.mp (entry.isSome_outcome?.trans done)

/-- Clients see that an entry is pending. -/
theorem IsPending.status_eq {entry : Entry} (pending : entry.IsPending) :
    entry.status = .pending := by
  rw [status, pending.slot, Slot.status]

/-- Nobody has the token of a pending entry. -/
theorem IsPending.trip_eq {entry : Entry} (pending : entry.IsPending) : entry.trip = entry := by
  simp only [trip, pending.slot]

/-- Clients see that an entry is running. -/
theorem IsRunning.status_eq {entry : Entry} {stage : Worker} (running : entry.IsRunning stage) :
    entry.status = .running := by
  rw [status, running.slot, Slot.status]

/-- A pending entry is not finished for good. -/
theorem isDone_of_pending {entry : Entry} (pending : entry.status = .pending) :
    entry.isDone = false := by
  rw [isDone, pending, Status.isTerminal]

/-- A running entry is not finished for good. -/
theorem isDone_of_running {entry : Entry} (runs : entry.status = .running) :
    entry.isDone = false := by
  rw [isDone, runs, Status.isTerminal]

/-- An entry whose parts tell the same story. -/
inductive Coherent (entry : Entry) : Prop where
  | pending (isPending : entry.IsPending)
  | running (stage : Worker) (isRunning : entry.IsRunning stage)
  | settled (verdict : Verdict) (isSettled : entry.IsSettled verdict)

/-- An entry is made coherent. -/
theorem coherent_make (id : EntryId) (search : Search) (now : Instant) :
    (make id search now).Coherent :=
  .pending ⟨rfl, rfl, rfl, rfl, rfl, rfl, rfl, rfl⟩

namespace Coherent

variable {entry : Entry} {now : Instant}

theorem start (coherent : entry.Coherent) : (entry.start now).Coherent := by
  cases coherent with
  | pending pending =>
    refine .running .launched ?_
    simp only [Entry.start, pending.slot]
    exact ⟨rfl, rfl, pending.searchDone, pending.executions, rfl, pending.finished, by simp⟩
  | running stage running =>
    simp only [Entry.start, running.slot]
    exact .running stage running
  | settled verdict settled =>
    simp only [Entry.start, settled.slot]
    exact .settled verdict settled

theorem cancel (coherent : entry.Coherent) : (entry.cancel now).Coherent := by
  cases coherent with
  | pending pending =>
    refine .settled .cancelled ?_
    simp only [Entry.cancel, pending.slot]
    exact ⟨rfl, pending.worker, rfl, rfl, by simp,
      .inr ⟨pending.started, pending.executions, rfl⟩⟩
  | running stage running =>
    refine .running stage ?_
    simp only [Entry.cancel, running.slot]
    exact { running with slot := rfl, cancelled := by simp }
  | settled verdict settled =>
    simp only [Entry.cancel, settled.slot]
    exact .settled verdict settled

theorem trip (coherent : entry.Coherent) : entry.trip.Coherent := by
  cases coherent with
  | pending pending =>
    rw [pending.trip_eq]
    exact .pending pending
  | running stage running =>
    refine .running stage ?_
    simp only [Entry.trip, running.slot]
    exact { running with slot := rfl, cancelled := by simp }
  | settled verdict settled =>
    refine .settled verdict ?_
    simp only [Entry.trip, settled.slot]
    exact { settled with slot := rfl, cancelled := by simp }

theorem touch (coherent : entry.Coherent) : (entry.touch now).Coherent := by
  cases coherent with
  | pending pending => exact .pending { pending with }
  | running stage running => exact .running stage { running with }
  | settled verdict settled => exact .settled verdict { settled with }

theorem rememberWorthiness (coherent : entry.Coherent) (score : Score) :
    (entry.rememberWorthiness score).Coherent := by
  cases coherent with
  | pending pending => exact .pending { pending with }
  | running stage running => exact .running stage { running with }
  | settled verdict settled => exact .settled verdict { settled with }

/-- An entry without a worker is left alone by the steps of workers. -/
theorem advance_of_no_worker (idle : entry.worker = none) : entry.advance now = entry := by
  simp [Entry.advance, idle]

theorem advance (coherent : entry.Coherent) : (entry.advance now).Coherent := by
  cases coherent with
  | pending pending =>
    rw [advance_of_no_worker pending.worker]
    exact .pending pending
  | settled verdict settled =>
    rw [advance_of_no_worker settled.worker]
    exact .settled verdict settled
  | running stage running =>
    have done := running.searchDone
    have executed := running.executions
    cases stage with
    | launched =>
      refine .running (.executing entry.search.script) ?_
      simp only [Entry.advance, running.worker]
      exact ⟨running.slot, rfl, done, by rw [executed]; rfl, running.started, running.finished,
        by simp⟩
    | executing remaining =>
      cases remaining with
      | nil =>
        refine .running (.returned (.result entry.search.output)) ?_
        simp only [Entry.advance, running.worker]
        exact ⟨running.slot, rfl, done, executed, running.started, running.finished, by simp⟩
      | cons step remaining =>
        obtain ⟨hits, worker, performed, next⟩ := entry.perform_cases remaining step
        simp only [Entry.advance, running.worker, performed]
        obtain rfl | ⟨ending, rfl⟩ := next
        · exact .running _ ⟨running.slot, rfl, done, executed, running.started, running.finished,
            by simp⟩
        · exact .running _ ⟨running.slot, rfl, done, executed, running.started, running.finished,
            by simp⟩
    | returned ending =>
      refine .running (.judging ending) ?_
      simp only [Entry.advance, running.worker]
      exact ⟨running.slot, rfl, rfl, executed, running.started, running.finished, by simp⟩
    | judging ending =>
      obtain ⟨hits, verdict, judged, cancelled⟩ := entry.judge_cases ending
      refine .running (.settling verdict) ?_
      simp only [Entry.advance, running.worker, judged]
      exact ⟨running.slot, rfl, done, executed, running.started, running.finished,
        fun same => cancelled (by simpa using same)⟩
    | settling verdict =>
      refine .settled verdict ?_
      simp only [Entry.advance, running.worker]
      exact ⟨rfl, rfl, done, rfl, fun same => running.cancelled (by rw [same]),
        .inl ⟨running.started, executed⟩⟩

/-- Every event leaves an entry coherent. -/
theorem after (coherent : entry.Coherent) (event : EntryEvent) :
    (entry.after now event).Coherent := by
  cases event with
  | start => exact coherent.start
  | advance => exact coherent.advance
  | cancel => exact coherent.cancel
  | trip => exact coherent.trip
  | touch => exact coherent.touch
  | remember score => exact coherent.rememberWorthiness score

/-- Any number of events leaves an entry coherent. -/
theorem afterAll (coherent : entry.Coherent) (events : List EntryEvent) :
    (entry.afterAll now events).Coherent :=
  afterAll_preserves Coherent (fun _ event earlier => earlier.after event) events coherent

/-- What has settled stays settled, and the worker has left it. -/
theorem slot_after_of_settled (coherent : entry.Coherent) {verdict : Verdict}
    (settled : entry.slot = .settled verdict) (event : EntryEvent) :
    (entry.after now event).slot = .settled verdict := by
  cases coherent with
  | pending pending => simp [pending.slot] at settled
  | running stage running => simp [running.slot] at settled
  | settled verdict isSettled =>
    cases event with
    | start => simp [Entry.after, Entry.start, settled]
    | advance => rw [Entry.after, advance_of_no_worker isSettled.worker, settled]
    | cancel => simp [Entry.after, Entry.cancel, settled]
    | trip => simp [Entry.after, Entry.trip, settled]
    | touch | remember => exact settled

/-- An entry with a terminal status has settled. -/
theorem isSettled_of_isDone (coherent : entry.Coherent) (done : entry.isDone = true) :
    ∃ verdict, entry.IsSettled verdict := by
  cases coherent with
  | pending pending => simp [isDone_of_pending pending.status_eq] at done
  | running stage running => simp [isDone_of_running running.status_eq] at done
  | settled verdict settled => exact ⟨verdict, settled⟩

/-- A search that was cancelled was asked to be. -/
theorem cancelRequested_of_cancelled (coherent : entry.Coherent)
    (cancelled : entry.status = .cancelled) : entry.cancelRequested = true := by
  cases coherent with
  | pending pending => simp [pending.status_eq] at cancelled
  | running stage running => simp [running.status_eq] at cancelled
  | settled verdict settled =>
    cases verdict with
    | done | failed => simp [status, settled.slot, Slot.status] at cancelled
    | cancelled => exact settled.cancelled rfl

/-- No search is executed twice. -/
theorem executions_le_one (coherent : entry.Coherent) : entry.executions ≤ 1 := by
  cases coherent with
  | pending pending => simp [pending.executions]
  | running stage running =>
    rw [running.executions]
    cases stage <;> simp [Worker.executions]
  | settled verdict settled =>
    rcases settled.executed with ⟨_, once⟩ | ⟨_, never, _⟩ <;> omega

/-- A search that settled without being asked to stop was executed once. -/
theorem executions_of_settled (coherent : entry.Coherent) {verdict : Verdict}
    (settled : entry.slot = .settled verdict) (uncancelled : entry.cancelRequested = false) :
    entry.executions = 1 := by
  cases coherent with
  | pending pending => simp [pending.slot] at settled
  | running stage running => simp [running.slot] at settled
  | settled verdict isSettled =>
    rcases isSettled.executed with ⟨_, once⟩ | ⟨_, _, cancelled⟩
    · exact once
    · simp [isSettled.cancelled cancelled] at uncancelled

/-- An entry that has not been started is pending, or was cancelled without being executed. -/
theorem unstarted_cases (coherent : entry.Coherent) (unstarted : entry.started = none) :
    entry.IsPending ∨ entry.IsSettled .cancelled ∧ entry.executions = 0 := by
  cases coherent with
  | pending pending => exact .inl pending
  | running stage running =>
    have started := running.started
    rw [unstarted] at started
    cases started
  | settled verdict settled =>
    rcases settled.executed with ⟨started, _⟩ | ⟨_, never, rfl⟩
    · rw [unstarted] at started
      cases started
    · exact .inr ⟨settled, never⟩

/-- A cancellation stops the search, now or when it takes notice, unless it is done. -/
theorem cancel_stops (coherent : entry.Coherent) :
    (entry.cancel now).searchDone = true ∨ (entry.cancel now).cancelRequested = true := by
  cases coherent with
  | pending pending => exact .inl (by simp [Entry.cancel, pending.slot])
  | running stage running => exact .inr (by simp [Entry.cancel, running.slot])
  | settled verdict settled =>
    refine .inl ?_
    simp only [Entry.cancel, settled.slot]
    exact settled.searchDone

/-- A cancellation settles a search that has not begun, and is put to one that runs. -/
theorem cancel_of_unfinished (coherent : entry.Coherent) (unfinished : entry.isDone = false)
    (now : Instant) :
    entry.status = .pending ∧ entry.cancel now = { entry with
      cancelRequested := true, searchDone := true, slot := .settled .cancelled,
      finished := some now } ∨
    entry.status = .running ∧ entry.cancel now = { entry with cancelRequested := true } := by
  cases coherent with
  | pending pending => exact .inl ⟨pending.status_eq, by simp only [Entry.cancel, pending.slot]⟩
  | running stage running =>
    exact .inr ⟨running.status_eq, by simp only [Entry.cancel, running.slot]⟩
  | settled verdict settled =>
    cases verdict <;>
      simp [isDone, status, settled.slot, Slot.status, Status.isTerminal] at unfinished

end Coherent

/-- What does not ask an entry to stop leaves it unasked if it was. -/
theorem cancelRequested_after_of_not_request (now : Instant) (entry : Entry) {event : EntryEvent}
    (other : event.isRequest = false) :
    (entry.after now event).cancelRequested = entry.cancelRequested := by
  cases event with
  | start => simp only [after, start]; split <;> rfl
  | cancel | trip => cases other
  | touch | remember => rfl
  | advance =>
    obtain ⟨_, _, _, _, _, _, advanced, _⟩ := entry.advance_cases now
    rw [after, advanced]

/-- A request to cancel stands. -/
theorem cancelRequested_after (now : Instant) (entry : Entry) (event : EntryEvent)
    (requested : entry.cancelRequested = true) :
    (entry.after now event).cancelRequested = true := by
  cases event with
  | cancel =>
    simp only [after, cancel]
    split <;> first | rfl | exact requested
  | trip =>
    simp only [after, trip]
    split <;> first | rfl | exact requested
  | start | advance | touch | remember =>
    rw [cancelRequested_after_of_not_request now entry rfl, requested]

/-- An entry that has not been asked to stop after an event was not asked before. -/
theorem cancelRequested_before {now : Instant} {entry : Entry} {event : EntryEvent}
    (unasked : (entry.after now event).cancelRequested = false) :
    entry.cancelRequested = false := by
  cases asked : entry.cancelRequested with
  | false => rfl
  | true =>
    rw [cancelRequested_after now entry event asked] at unasked
    cases unasked

/-- Only a start makes an entry started. -/
theorem started_after_of_ne {now : Instant} {entry : Entry} {event : EntryEvent}
    (other : event ≠ .start) : (entry.after now event).started = entry.started := by
  cases event with
  | start => exact absurd rfl other
  | cancel =>
    simp only [after, cancel]
    split <;> rfl
  | trip =>
    simp only [after, trip]
    split <;> rfl
  | touch | remember => rfl
  | advance =>
    obtain ⟨_, _, _, _, _, _, advanced, _⟩ := entry.advance_cases now
    rw [after, advanced]

/-- Without a start among its events an entry is started only if it was before. -/
theorem started_afterAll_of_notMem {now : Instant} {entry : Entry} {events : List EntryEvent}
    (none : .start ∉ events) : (entry.afterAll now events).started = entry.started := by
  induction events generalizing entry with
  | nil => rfl
  | cons event rest ih =>
    rw [List.mem_cons, not_or] at none
    rw [afterAll_cons, ih none.2, started_after_of_ne (Ne.symm none.1)]

/-- A search that is done stays done. -/
theorem searchDone_after (now : Instant) (entry : Entry) (event : EntryEvent)
    (done : entry.searchDone = true) : (entry.after now event).searchDone = true := by
  cases event with
  | start => simp only [after, start]; split <;> exact done
  | cancel => simp only [after, cancel]; split <;> first | rfl | exact done
  | trip => simp only [after, trip]; split <;> exact done
  | touch | remember => exact done
  | advance =>
    obtain ⟨_, _, _, _, _, _, advanced, keepsDone⟩ := entry.advance_cases now
    rw [after, advanced]
    exact keepsDone done

/-- An entry that is no longer pending never will be again. -/
theorem slot_after_ne_pending (now : Instant) (entry : Entry) (event : EntryEvent)
    (begun : entry.slot ≠ .pending) : (entry.after now event).slot ≠ .pending := by
  cases event with
  | start =>
    simp only [after, start]
    split
    · simp
    · exact begun
    · exact begun
  | cancel =>
    simp only [after, cancel]
    split
    · simp
    · exact begun
    · exact begun
  | trip => simp only [after, trip]; split <;> exact begun
  | touch | remember => exact begun
  | advance =>
    simp only [after, advance]
    split
    case h_4 step remaining _ =>
      obtain ⟨_, _, performed, _⟩ := entry.perform_cases remaining step
      rw [performed]
      exact begun
    case h_6 ending _ =>
      obtain ⟨_, _, judged, _⟩ := entry.judge_cases ending
      rw [judged]
      exact begun
    case h_7 => simp
    all_goals exact begun

/-- Nothing brings an entry that has been started farther from its end. -/
theorem stepsLeft_after_le {entry : Entry} (begun : entry.slot ≠ .pending) (now : Instant)
    (event : EntryEvent) :
    (entry.after now event).stepsLeft ≤ entry.stepsLeft := by
  cases event with
  | advance => exact Nat.le_trans (entry.stepsLeft_advance now) (Nat.sub_le _ _)
  | start =>
    simp only [after, start]
    split
    next pending => exact absurd pending begun
    next => exact Nat.le_refl _
    next => exact Nat.le_refl _
  | cancel =>
    simp only [after, cancel]
    split
    next pending => exact absurd pending begun
    next => exact Nat.le_refl _
    next => exact Nat.le_refl _
  | trip => simp only [after, trip]; split <;> exact Nat.le_refl _
  | touch | remember => exact Nat.le_refl _

theorem cancelRequested_afterAll (now : Instant) (entry : Entry) (events : List EntryEvent)
    (requested : entry.cancelRequested = true) :
    (entry.afterAll now events).cancelRequested = true :=
  afterAll_preserves (fun later => later.cancelRequested = true)
    (fun later event => cancelRequested_after now later event) events requested

theorem searchDone_afterAll (now : Instant) (entry : Entry) (events : List EntryEvent)
    (done : entry.searchDone = true) : (entry.afterAll now events).searchDone = true :=
  afterAll_preserves (fun later => later.searchDone = true)
    (fun later event => searchDone_after now later event) events done

/-- Without a request among its events an entry is asked to stop only if it was before. -/
theorem cancelRequested_afterAll_of_no_request (now : Instant) (entry : Entry)
    {events : List EntryEvent} (none : events.any EntryEvent.isRequest = false) :
    (entry.afterAll now events).cancelRequested = entry.cancelRequested := by
  induction events generalizing entry with
  | nil => rfl
  | cons event rest ih =>
    rw [List.any_cons, Bool.or_eq_false_iff] at none
    rw [afterAll_cons, ih _ none.2, cancelRequested_after_of_not_request now entry none.1]

end Entry

end SweptCache
