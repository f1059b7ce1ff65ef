import SweptCache.Proofs.EntryLife

/-!
# What an execution comes to

`courseOf` reads a script from its first step to its end in one go. For every
moment at which the search may be asked to stop it tells how the execution ends,
how many hits are stored by then, and how many steps it takes.

A worker takes the same steps one at a time. The `outlook` of an entry is how it
will settle, told from where its worker stands. A step of the worker leaves the
outlook as it was, one step nearer (`Entry.IsRunning.outlook_advance`), so an entry settles
as the outlook said when its worker was launched.
-/

namespace SweptCache

namespace ScriptStep

/-- The hits that are stored after a step. -/
def storedAfter (stored : UInt64) : ScriptStep → UInt64
  | .reportHits hits => max stored hits
  | .addHits hits => stored + hits
  | .checkpoint | .finish _ | .finishIfCancelled _ | .failIfCancelled _ | .fail _ | .crash _
  | .pause => stored

/-- How a step ends the execution, if it does, in a search that has been asked to stop or not. -/
def ending? (isAsked : Bool) : ScriptStep → Option Ending
  | .checkpoint => if isAsked then some (.error .interrupted) else none
  | .finish output => some (.result output)
  | .finishIfCancelled output => if isAsked then some (.result output) else none
  | .failIfCancelled failure => if isAsked then some (.error failure) else none
  | .fail failure => some (.error failure)
  | .crash report => some (.crash report)
  | .reportHits _ | .addHits _ | .pause => none

end ScriptStep

/-- When a search is asked to stop. -/
inductive StopRequest where
  /-- Nobody asks. -/
  | never
  /-- Its worker takes so many more steps before it is asked. -/
  | after (steps : Nat)
  deriving DecidableEq, Repr

namespace StopRequest

/-- A request as it stands when the worker has taken one more step. -/
def later : StopRequest → StopRequest
  | .never => .never
  | .after steps => .after (steps - 1)

/-- A request before which the worker takes one more step. -/
def delayed : StopRequest → StopRequest
  | .never => .never
  | .after steps => .after (steps + 1)

/-- Whether a request has come by the time the worker has taken so many more steps. -/
def comesWithin (steps : Nat) : StopRequest → Bool
  | .never => false
  | .after wait => wait ≤ steps

@[simp] theorem later_delayed (request : StopRequest) : request.delayed.later = request := by
  cases request <;> rfl

@[simp] theorem comesWithin_delayed_zero (request : StopRequest) :
    request.delayed.comesWithin 0 = false := by
  cases request <;> simp [delayed, comesWithin]

/-- A request that comes within some steps of the next one comes within one more of this one. -/
theorem comesWithin_later (request : StopRequest) (steps : Nat) :
    request.later.comesWithin steps = request.comesWithin (steps + 1) := by
  cases request with
  | never => rfl
  | after wait =>
    simp only [later, comesWithin, decide_eq_decide]
    omega

end StopRequest

/-- What the execution of a search comes to. -/
structure Course where
  ending : Ending
  /-- The hits that are stored when the execution ends. -/
  storedHits : UInt64
  /-- The steps from the first one of the script to the one that ends the execution. -/
  steps : Nat
  deriving DecidableEq, Repr

/-- A course that takes one more step. -/
def Course.next (course : Course) : Course := { course with steps := course.steps + 1 }

/-- What a script comes to that is about to begin with so many hits stored. -/
def courseOf (output : Output) : StopRequest → UInt64 → List ScriptStep → Course
  | _, stored, [] => ⟨.result output, stored, 1⟩
  | request, stored, step :: rest =>
    match step.ending? (request.comesWithin 0) with
    | some ending => ⟨ending, step.storedAfter stored, 1⟩
    | none => (courseOf output request.later (step.storedAfter stored) rest).next

/-- What the execution of a search comes to whose worker is about to be launched. -/
def Search.course (search : Search) (request : StopRequest) : Course :=
  courseOf search.output request.later 0 search.script

namespace Ending

/-- The verdict on an ending, for which it matters whether the search has been asked to stop. -/
def judged (producer : EntryId) (isAsked : Bool) : Ending → Verdict
  | .result output => .done ⟨output, producer⟩
  | .error failure => if isAsked then .cancelled else .failed failure
  | .crash report => .failed report.failure

/-- The hits that an entry stores once it has settled. -/
def finalHits (stored : UInt64) : Ending → UInt64
  | .result output => max stored output.hits
  | .error _ | .crash _ => stored

variable {producer : EntryId} {isAsked : Bool} {ending : Ending}

/-- A result is judged to be one, whether or not the search has been asked to stop. -/
theorem judged_eq_done_iff {result : SearchResult} :
    ending.judged producer isAsked = .done result ↔
      ending = .result result.output ∧ result.producer = producer := by
  obtain ⟨output, own⟩ := result
  cases ending with
  | result returned => simp [judged, eq_comm]
  | error failure => cases isAsked <;> simp [judged]
  | crash report => simp [judged]

/-- An error is taken for the cancellation that was asked for, and nothing else is. -/
theorem judged_eq_cancelled_iff :
    ending.judged producer isAsked = .cancelled ↔
      (∃ failure, ending = .error failure) ∧ isAsked = true := by
  cases ending with
  | error failure => cases isAsked <;> simp [judged]
  | result | crash => simp [judged]

/-- What is judged to be a failure is an error for which nobody asked, or a crash. -/
theorem judged_eq_failed_iff {failure : Failure} :
    ending.judged producer isAsked = .failed failure ↔
      ending = .error failure ∧ isAsked = false ∨
        ∃ report, ending = .crash report ∧ failure = report.failure := by
  cases ending with
  | result output => simp [judged]
  | error own => cases isAsked <;> simp [judged]
  | crash report => simp [judged, eq_comm]

end Ending

/-- How an entry will settle. -/
structure Settlement where
  verdict : Verdict
  storedHits : UInt64
  /-- The steps that its worker takes before it has settled. -/
  steps : Nat
  deriving DecidableEq, Repr

/-- A settlement that is one step further away. -/
def Settlement.next (settlement : Settlement) : Settlement :=
  { settlement with steps := settlement.steps + 1 }

/-- How an entry will settle whose execution comes to an ending that is judged when the steps of
the course have been taken. -/
def Course.settlement (course : Course) (producer : EntryId) (request : StopRequest) :
    Settlement where
  verdict := course.ending.judged producer (request.comesWithin course.steps)
  storedHits := course.ending.finalHits course.storedHits
  steps := course.steps + 2

/-- After one more step a course leads to a settlement that is one step further away. -/
theorem Course.settlement_next (course : Course) (producer : EntryId) (request : StopRequest) :
    course.next.settlement producer request = (course.settlement producer request.later).next := by
  simp only [settlement, next, Settlement.next, StopRequest.comesWithin_later]

/-- How the entry of a search will settle whose worker is about to be launched. The worker takes
one step before the script and one after it until the ending is judged. -/
def Search.settlement (search : Search) (producer : EntryId) (request : StopRequest) : Settlement :=
  (search.course request).next.next.settlement producer request

namespace Entry

variable {entry : Entry} {now : Instant}

/-- What the execution will have come to when its ending is judged, from where the worker stands. -/
def courseAhead? (entry : Entry) (request : StopRequest) : Worker → Option Course
  | .launched =>
    some (courseOf entry.search.output request.later entry.storedHits entry.search.script).next.next
  | .executing remaining =>
    some (courseOf entry.search.output request entry.storedHits remaining).next
  | .returned ending => some ⟨ending, entry.storedHits, 1⟩
  | .judging ending => some ⟨ending, entry.storedHits, 0⟩
  | .settling _ => none

/-- How an entry will settle, from where its worker stands. -/
def outlook (entry : Entry) (request : StopRequest) : Worker → Settlement
  | .settling verdict => ⟨verdict, entry.storedHits, 1⟩
  | .launched =>
    (courseOf entry.search.output request.later entry.storedHits
      entry.search.script).next.next.settlement entry.id request
  | .executing remaining =>
    (courseOf entry.search.output request entry.storedHits remaining).next.settlement entry.id
      request
  | .returned ending => (Course.mk ending entry.storedHits 1).settlement entry.id request
  | .judging ending => (Course.mk ending entry.storedHits 0).settlement entry.id request

/-- Until the ending is judged, an entry will settle as the course ahead leads to. -/
theorem outlook_eq {request : StopRequest} {stage : Worker} {course : Course}
    (ahead : entry.courseAhead? request stage = some course) :
    entry.outlook request stage = course.settlement entry.id request := by
  cases stage with
  | launched | executing | returned | judging =>
    rw [← Option.some.inj ahead]
    rfl
  | settling verdict => cases ahead

/-- A step of the script stores hits, and ends the execution or leaves the rest to be done. -/
theorem perform_eq (entry : Entry) (remaining : List ScriptStep) (step : ScriptStep) :
    entry.perform remaining step =
      { entry with
        storedHits := step.storedAfter entry.storedHits
        worker := some (match step.ending? entry.cancelRequested with
          | some ending => .returned ending
          | none => .executing remaining) } := by
  cases step with
  | reportHits | addHits | finish | fail | crash | pause => rfl
  | checkpoint | finishIfCancelled | failIfCancelled =>
    cases asked : entry.cancelRequested <;>
      simp [perform, ScriptStep.ending?, ScriptStep.storedAfter, asked]

/-- Judging an ending stores the final hits and fixes the verdict. -/
theorem judge_eq (entry : Entry) (ending : Ending) :
    entry.judge ending =
      { entry with
        storedHits := ending.finalHits entry.storedHits
        worker := some (.settling (ending.judged entry.id entry.cancelRequested)) } := by
  cases ending <;> rfl

/-- A coherent entry that has a worker is running. -/
theorem Coherent.isRunning_of_worker (coherent : entry.Coherent) {stage : Worker}
    (working : entry.worker = some stage) : entry.IsRunning stage := by
  cases coherent with
  | pending pending => simp [pending.worker] at working
  | settled verdict settled => simp [settled.worker] at working
  | running other running =>
    have same : other = stage := Option.some.inj (running.worker.symm.trans working)
    exact same ▸ running

/-- Every settlement is at least one step away. -/
theorem outlook_steps_pos (entry : Entry) (request : StopRequest) (stage : Worker) :
    0 < (entry.outlook request stage).steps := by
  cases stage <;> simp [outlook, Course.settlement]

/-- The last step of a worker settles its entry with the verdict. -/
theorem IsRunning.advance_of_settling {verdict : Verdict}
    (running : entry.IsRunning (.settling verdict)) (now : Instant) :
    (entry.advance now).IsSettled verdict ∧ (entry.advance now).storedHits = entry.storedHits := by
  have advanced : entry.advance now =
      { entry with slot := .settled verdict, finished := some now, worker := none } := by
    simp only [advance, running.worker]
  rw [advanced]
  exact ⟨⟨rfl, rfl, running.searchDone, rfl, fun same => running.cancelled (by rw [same]),
    .inl ⟨running.started, running.executions⟩⟩, rfl⟩

/-- A step of the worker takes one step of the course ahead, unless it judges the ending. For this
the request has to be due when the entry has been asked to stop, and not before. -/
theorem IsRunning.courseAhead?_advance {stage : Worker} (running : entry.IsRunning stage)
    (now : Instant) {request : StopRequest} (due : request.comesWithin 0 = entry.cancelRequested)
    {course : Course} (ahead : entry.courseAhead? request stage = some course) :
    (∃ next rest, (entry.advance now).IsRunning next ∧
      (entry.advance now).courseAhead? request.later next = some rest ∧ course = rest.next) ∨
    ∃ ending, stage = .judging ending := by
  have coherent : (entry.advance now).Coherent := (Coherent.running stage running).advance
  -- Where the worker stands next determines the rest, as the entry remains coherent.
  have goesOn : ∀ next rest, (entry.advance now).worker = some next →
      (entry.advance now).courseAhead? request.later next = some rest → course = rest.next →
      ∃ next rest, (entry.advance now).IsRunning next ∧
        (entry.advance now).courseAhead? request.later next = some rest ∧ course = rest.next :=
    fun next rest working aheadNext isNext =>
      ⟨next, rest, coherent.isRunning_of_worker working, aheadNext, isNext⟩
  cases stage with
  | settling verdict => cases ahead
  | judging ending => exact .inr ⟨ending, rfl⟩
  | launched =>
    left
    have advanced : entry.advance now = { entry with
        executions := entry.executions + 1, worker := some (.executing entry.search.script) } := by
      simp only [advance, running.worker]
    rw [advanced] at goesOn ⊢
    exact goesOn _ _ rfl rfl (Option.some.inj ahead).symm
  | executing remaining =>
    left
    cases remaining with
    | nil =>
      have advanced : entry.advance now =
          { entry with worker := some (.returned (.result entry.search.output)) } := by
        simp only [advance, running.worker]
      rw [advanced] at goesOn ⊢
      exact goesOn _ _ rfl rfl (Option.some.inj ahead).symm
    | cons step remaining =>
      have advanced : entry.advance now = entry.perform remaining step := by
        simp only [advance, running.worker]
      rw [perform_eq, ← due] at advanced
      rw [advanced] at goesOn ⊢
      cases ends : step.ending? (request.comesWithin 0) with
      | some ending =>
        simp only [ends] at goesOn ⊢
        simp only [courseAhead?, courseOf, ends, Option.some.injEq] at ahead
        exact goesOn _ _ rfl rfl ahead.symm
      | none =>
        simp only [ends] at goesOn ⊢
        simp only [courseAhead?, courseOf, ends, Option.some.injEq] at ahead
        exact goesOn _ _ rfl rfl ahead.symm
  | returned ending =>
    left
    have advanced : entry.advance now =
        { entry with searchDone := true, worker := some (.judging ending) } := by
      simp only [advance, running.worker]
    rw [advanced] at goesOn ⊢
    exact goesOn _ _ rfl rfl (Option.some.inj ahead).symm

/-- A step of the worker leaves the outlook as it was, one step nearer, or is the last one. -/
theorem IsRunning.outlook_advance {stage : Worker} (running : entry.IsRunning stage)
    (now : Instant) {request : StopRequest} (due : request.comesWithin 0 = entry.cancelRequested) :
    (∃ next, (entry.advance now).IsRunning next ∧
      entry.outlook request stage = ((entry.advance now).outlook request.later next).next) ∨
    ∃ verdict, stage = .settling verdict := by
  cases ahead : entry.courseAhead? request stage with
  | none =>
    right
    cases stage with
    | settling verdict => exact ⟨verdict, rfl⟩
    | launched | executing | returned | judging => cases ahead
  | some course =>
    left
    rcases running.courseAhead?_advance now due ahead with
      ⟨next, rest, runs, aheadNext, rfl⟩ | ⟨ending, rfl⟩
    · refine ⟨next, runs, ?_⟩
      rw [outlook_eq ahead, outlook_eq aheadNext, id_advance, Course.settlement_next]
    · have advanced : entry.advance now = entry.judge ending := by
        simp only [advance, running.worker]
      rw [judge_eq, ← due] at advanced
      have coherent : (entry.advance now).Coherent := (Coherent.running _ running).advance
      refine ⟨.settling (ending.judged entry.id (request.comesWithin 0)),
        coherent.isRunning_of_worker (by rw [advanced]), ?_⟩
      rw [advanced]
      rfl

/-- Whatever else happens to a running entry, its worker stays where it is, and its hits as well. -/
theorem IsRunning.after_of_ne {stage : Worker} (running : entry.IsRunning stage)
    (now : Instant) {event : EntryEvent} (notStep : event ≠ .advance) :
    (entry.after now event).IsRunning stage ∧
      (entry.after now event).storedHits = entry.storedHits := by
  have coherent : (entry.after now event).Coherent := (Coherent.running stage running).after event
  have untouched : (entry.after now event).worker = entry.worker ∧
      (entry.after now event).storedHits = entry.storedHits := by
    cases event with
    | advance => exact absurd rfl notStep
    | start => simp only [after, start, running.slot, and_self]
    | cancel => simp only [after, cancel, running.slot, and_self]
    | trip => simp only [after, trip, running.slot, and_self]
    | touch | remember => exact ⟨rfl, rfl⟩
  exact ⟨coherent.isRunning_of_worker (untouched.1.trans running.worker), untouched.2⟩

/-- The course ahead of a running entry is the same after anything but a step of its worker. -/
theorem IsRunning.courseAhead?_after {stage : Worker} (running : entry.IsRunning stage)
    (now : Instant) (request : StopRequest) {event : EntryEvent} (notStep : event ≠ .advance) :
    (entry.after now event).courseAhead? request stage = entry.courseAhead? request stage := by
  have sameHits := (running.after_of_ne now notStep).2
  cases stage <;> simp only [courseAhead?, search_after, sameHits]

/-- For a request at a given time a running entry will settle as before, after anything but a step
of its worker. -/
theorem IsRunning.outlook_after {stage : Worker} (running : entry.IsRunning stage)
    (now : Instant) (request : StopRequest) {event : EntryEvent} (notStep : event ≠ .advance) :
    (entry.after now event).outlook request stage = entry.outlook request stage := by
  have sameHits := (running.after_of_ne now notStep).2
  cases stage <;> simp only [outlook, search_after, id_after, sameHits]

/-- A pending entry that is started is launched, and its search lies ahead. -/
theorem IsPending.courseAhead?_start (pending : entry.IsPending) (now : Instant)
    (request : StopRequest) :
    (entry.start now).IsRunning .launched ∧
      (entry.start now).courseAhead? request .launched =
        some (entry.search.course request).next.next := by
  have coherent : (entry.start now).Coherent := (Coherent.pending pending).start
  have started : entry.start now =
      { entry with slot := .running, started := some now, worker := some .launched } := by
    simp only [start, pending.slot]
  refine ⟨coherent.isRunning_of_worker (by rw [started]), ?_⟩
  rw [started]
  simp only [courseAhead?, Search.course, pending.storedHits]

/-- A pending entry that is started will settle as its search says. -/
theorem IsPending.outlook_start (pending : entry.IsPending) (now : Instant)
    (request : StopRequest) :
    (entry.start now).outlook request .launched = entry.search.settlement entry.id request := by
  rw [outlook_eq (pending.courseAhead?_start now request).2, id_start, Search.settlement]

end Entry

end SweptCache
