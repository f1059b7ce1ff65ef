import SweptCache.Proofs.EntryLife

/-!
# Searches that nobody asks to stop

A search has one plain ending: how its script ends when cancellation is never
requested. An entry is `OnCourse` when its worker can only come to the verdict
on that ending, and when it has settled with no other. It stays on course as
long as nobody asks it to stop.
-/

namespace SweptCache

/-- How a script ends if nobody asks it to stop. -/
def plainEndingOf (output : Output) : List ScriptStep → Ending
  | [] => .result output
  | .finish ownOutput :: _ => .result ownOutput
  | .fail failure :: _ => .error failure
  | .crash report :: _ => .crash report
  | .reportHits _ :: rest | .addHits _ :: rest | .checkpoint :: rest
  | .finishIfCancelled _ :: rest | .failIfCancelled _ :: rest | .pause :: rest =>
    plainEndingOf output rest

/-- How a search ends if nobody asks it to stop. -/
def Search.plainEnding (search : Search) : Ending := plainEndingOf search.output search.script

/-- The verdict on an ending if nobody asked for it. -/
def Ending.verdict (producer : EntryId) : Ending → Verdict
  | .result output => .done ⟨output, producer⟩
  | .error failure => .failed failure
  | .crash report => .failed report.failure

/-- What an outcome tells, whichever result object it comes with. -/
def contentOf (outcome : Outcome) : Except CacheError Output := outcome.map (·.output)

/-- What the clients of a search are told if nobody asks it to stop. -/
def Search.plainOutcome (search : Search) : Except CacheError Output :=
  match search.plainEnding with
  | .result output => .ok output
  | .error failure => .error (.searchFailed failure)
  | .crash report => .error (.searchFailed report.failure)

/-- Searches that end equally are told equally. -/
theorem Search.plainOutcome_congr {first second : Search}
    (same : first.plainEnding = second.plainEnding) : first.plainOutcome = second.plainOutcome := by
  rw [plainOutcome, plainOutcome, same]

namespace Entry

/-- The verdict on the plain ending of the entry's search. -/
def plainVerdict (entry : Entry) : Verdict := entry.search.plainEnding.verdict entry.id

/-- The verdict that a worker comes to from where it stands if nobody asks it to stop. -/
def prospect (entry : Entry) : Worker → Verdict
  | .launched => entry.plainVerdict
  | .executing remaining => (plainEndingOf entry.search.output remaining).verdict entry.id
  | .returned ending | .judging ending => ending.verdict entry.id
  | .settling verdict => verdict

/-- An entry that can settle, or has settled, with the plain verdict only. -/
structure OnCourse (entry : Entry) : Prop where
  working : ∀ stage, entry.worker = some stage → entry.prospect stage = entry.plainVerdict
  settled : ∀ verdict, entry.slot = .settled verdict → verdict = entry.plainVerdict

/-- An entry is made on course. -/
theorem onCourse_make (id : EntryId) (search : Search) (now : Instant) :
    (make id search now).OnCourse :=
  ⟨by simp [make], by simp [make]⟩

/-- The content of the plain verdict is the plain outcome of the search. -/
theorem contentOf_plainVerdict (entry : Entry) :
    contentOf entry.plainVerdict.outcome = entry.search.plainOutcome := by
  rw [plainVerdict, Search.plainOutcome]
  cases entry.search.plainEnding <;> rfl

namespace OnCourse

variable {entry : Entry} {now : Instant}

theorem start (onCourse : entry.OnCourse) : (entry.start now).OnCourse := by
  unfold Entry.start
  split
  next => exact ⟨by simp [prospect, plainVerdict], by simp⟩
  next => exact onCourse
  next => exact onCourse

/-- A step of the script that nobody interferes with keeps to the plain ending. -/
theorem perform (uncancelled : entry.cancelRequested = false) {step : ScriptStep}
    {remaining : List ScriptStep} (unsettled : ∀ verdict, entry.slot ≠ .settled verdict)
    (plain : (plainEndingOf entry.search.output (step :: remaining)).verdict entry.id =
      entry.plainVerdict) : (entry.perform remaining step).OnCourse := by
  have keepsSlot : ∀ verdict, (entry.perform remaining step).slot ≠ .settled verdict := by
    obtain ⟨hits, worker, performed, _⟩ := entry.perform_cases remaining step
    rw [performed]
    exact unsettled
  refine ⟨?_, fun verdict settled => absurd settled (keepsSlot verdict)⟩
  cases step <;>
    simp only [Entry.perform, uncancelled, Bool.false_eq_true, if_false, Option.some.injEq] <;>
    rintro stage rfl <;> exact plain

/-- A step of the worker keeps to the plain verdict if nobody asked for another. -/
theorem advance (onCourse : entry.OnCourse) (coherent : entry.Coherent)
    (uncancelled : entry.cancelRequested = false) : (entry.advance now).OnCourse := by
  cases coherent with
  | pending pending =>
    rw [Coherent.advance_of_no_worker pending.worker]
    exact onCourse
  | settled verdict settled =>
    rw [Coherent.advance_of_no_worker settled.worker]
    exact onCourse
  | running stage running =>
    have plain := onCourse.working stage running.worker
    have unsettled : ∀ verdict, entry.slot ≠ .settled verdict := by
      intro verdict
      rw [running.slot]
      exact Slot.noConfusion
    cases stage with
    | launched =>
      simp only [Entry.advance, running.worker]
      exact ⟨by rintro stage ⟨⟩; rfl, fun verdict settled => absurd settled (unsettled verdict)⟩
    | executing remaining =>
      cases remaining with
      | nil =>
        simp only [Entry.advance, running.worker]
        exact ⟨by rintro stage ⟨⟩; exact plain,
          fun verdict settled => absurd settled (unsettled verdict)⟩
      | cons step remaining =>
        simp only [Entry.advance, running.worker]
        exact perform uncancelled unsettled plain
    | returned ending =>
      simp only [Entry.advance, running.worker]
      exact ⟨by rintro stage ⟨⟩; exact plain,
        fun verdict settled => absurd settled (unsettled verdict)⟩
    | judging ending =>
      simp only [Entry.advance, running.worker]
      refine ⟨?_, ?_⟩
      · cases ending with
        | result output =>
          rintro stage ⟨⟩
          exact plain
        | error failure =>
          rintro stage ⟨⟩
          simp only [prospect, uncancelled, Bool.false_eq_true, if_false]
          exact plain
        | crash report =>
          rintro stage ⟨⟩
          exact plain
      · obtain ⟨hits, verdict, judged, _⟩ := entry.judge_cases ending
        rw [judged]
        exact fun verdict settled => absurd settled (unsettled verdict)
    | settling verdict =>
      simp only [Entry.advance, running.worker]
      exact ⟨by simp, by rintro _ ⟨⟩; exact plain⟩

end OnCourse

/-- An entry that is coherent, and on course unless it was asked to stop. -/
structure KeepsCourse (entry : Entry) : Prop where
  coherent : entry.Coherent
  onCourse : entry.cancelRequested = false → entry.OnCourse

/-- Every event leaves an entry on course unless it was asked to stop. -/
theorem KeepsCourse.after {entry : Entry} (keeps : entry.KeepsCourse) (now : Instant)
    (event : EntryEvent) : (entry.after now event).KeepsCourse := by
  refine ⟨keeps.coherent.after event, ?_⟩
  intro uncancelled
  have before := cancelRequested_before uncancelled
  have onCourse := keeps.onCourse before
  cases event with
  | start => exact onCourse.start
  | advance => exact onCourse.advance keeps.coherent before
  | touch => exact ⟨onCourse.working, onCourse.settled⟩
  | remember score => exact ⟨onCourse.working, onCourse.settled⟩
  | cancel =>
    simp only [Entry.after, cancel] at uncancelled ⊢
    split at uncancelled
    next => cases uncancelled
    next => cases uncancelled
    next verdict settled => simpa [settled] using onCourse
  | trip =>
    simp only [Entry.after, trip] at uncancelled ⊢
    split at uncancelled
    next pending => simpa [pending] using onCourse
    next => cases uncancelled
    next => cases uncancelled

/-- Any number of events leaves an entry on course unless it was asked to stop. -/
theorem KeepsCourse.afterAll {entry : Entry} (keeps : entry.KeepsCourse) (now : Instant)
    (events : List EntryEvent) : (entry.afterAll now events).KeepsCourse :=
  afterAll_preserves KeepsCourse (fun _ event earlier => earlier.after now event) events keeps

/-- An entry is made on course. -/
theorem keepsCourse_make (id : EntryId) (search : Search) (now : Instant) :
    (make id search now).KeepsCourse :=
  ⟨coherent_make id search now, fun _ => onCourse_make id search now⟩

/-- What the clients of an entry are told is the plain outcome of its search,
unless it was asked to stop. -/
theorem KeepsCourse.contentOf_outcome {entry : Entry} (keeps : entry.KeepsCourse)
    (uncancelled : entry.cancelRequested = false) {outcome : Outcome}
    (told : entry.outcome? = some outcome) : contentOf outcome = entry.search.plainOutcome := by
  cases slot : entry.slot with
  | pending => simp [outcome?, slot, Slot.outcome?] at told
  | running => simp [outcome?, slot, Slot.outcome?] at told
  | settled verdict =>
    rw [outcome?, slot, Slot.outcome?, Option.some.injEq] at told
    rw [← told, (keeps.onCourse uncancelled).settled verdict slot, contentOf_plainVerdict]

/-- An entry for a search that has been started and that nobody asked to stop. -/
structure IsUndisturbed (entry : Entry) (search : Search) : Prop where
  keepsCourse : entry.KeepsCourse
  uncancelled : entry.cancelRequested = false
  started : entry.started.isSome = true
  isSearch : entry.search = search

/-- A new entry that is started is undisturbed. -/
theorem isUndisturbed_start (id : EntryId) (search : Search) (created now : Instant) :
    ((make id search created).start now).IsUndisturbed search :=
  ⟨(keepsCourse_make id search created).after now .start, rfl, rfl, rfl⟩

namespace IsUndisturbed

variable {entry : Entry} {search : Search}

/-- The worker of an entry does not disturb it. -/
theorem advance (undisturbed : entry.IsUndisturbed search) (now : Instant) :
    (entry.advance now).IsUndisturbed search where
  keepsCourse := undisturbed.keepsCourse.after now .advance
  uncancelled := by
    obtain ⟨_, _, _, _, _, _, advanced, _⟩ := entry.advance_cases now
    rw [advanced]
    exact undisturbed.uncancelled
  started := by
    obtain ⟨_, _, _, _, _, _, advanced, _⟩ := entry.advance_cases now
    rw [advanced]
    exact undisturbed.started
  isSearch := (search_after now entry .advance).trans undisturbed.isSearch

/-- An undisturbed entry tells the plain outcome once its worker has left it. -/
theorem outcome_of_idle (undisturbed : entry.IsUndisturbed search) (idle : entry.worker = none) :
    ∃ outcome, entry.outcome? = some outcome ∧ contentOf outcome = search.plainOutcome := by
  have settles : ∃ verdict, entry.slot = .settled verdict := by
    cases undisturbed.keepsCourse.coherent with
    | pending pending => simpa [pending.started] using undisturbed.started
    | running stage running => simp [running.worker] at idle
    | settled verdict settled => exact ⟨verdict, settled.slot⟩
  obtain ⟨verdict, slot⟩ := settles
  have told : entry.outcome? = some verdict.outcome := by rw [outcome?, slot, Slot.outcome?]
  refine ⟨verdict.outcome, told, ?_⟩
  rw [undisturbed.keepsCourse.contentOf_outcome undisturbed.uncancelled told, undisturbed.isSearch]

end IsUndisturbed

end Entry

end SweptCache
