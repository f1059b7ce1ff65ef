import SweptCache.Proofs.ScriptCourses
import SweptCache.Proofs.SingleAssignment

/-!
# How an entry settles

A `Life` is all that happens to an entry, in any order and each thing at its own
moment. It begins when the entry is started, or asked to stop before that. From
the start on only two things matter for how the entry settles: how many steps its
worker takes, and how many of them come before a request to stop. So the verdict
and the stored hits can be read off the script (`Entry.afterEach_make_cases`).

What the script is said to come to is what the worker finds when it judges the ending
(`Entry.Coherent.executionIn?_eq_some_iff`): every step before that leaves it as it was.
-/

namespace SweptCache

/-- What happens to an entry, one thing after the other. -/
abbrev Life := List (Instant × EntryEvent)

/-- How the life of a pending entry begins. -/
inductive Opening where
  /-- It has not begun yet. -/
  | none
  /-- The entry is asked to stop before it is started. -/
  | stopped
  /-- The entry is started, and this comes afterwards. -/
  | started (rest : Life)

namespace Life

/-- How a life begins. -/
def opening : Life → Opening
  | [] => .none
  | (_, .start) :: rest => .started rest
  | (_, .cancel) :: _ => .stopped
  | (_, .advance) :: rest | (_, .trip) :: rest | (_, .touch) :: rest
  | (_, .remember _) :: rest => opening rest

/-- When the search of an entry that has been started is asked to stop. -/
def request : Life → StopRequest
  | [] => .never
  | (_, .cancel) :: _ | (_, .trip) :: _ => .after 0
  | (_, .advance) :: rest => (request rest).delayed
  | (_, .start) :: rest | (_, .touch) :: rest | (_, .remember _) :: rest => request rest

/-- The steps that the worker takes. -/
def steps (life : Life) : Nat := life.countP fun moment => moment.2 = .advance

/-- Whether an entry is asked to stop that is made pending. -/
def asks (life : Life) : Bool :=
  match life.opening with
  | .none => false
  | .stopped => true
  | .started rest => rest.any fun moment => moment.2.isRequest

end Life

/-- What an execution came to in the course of a life. -/
structure Execution where
  ending : Ending
  /-- The hits that were stored when the execution ended. -/
  storedHits : UInt64
  /-- Whether the search had been asked to stop when its ending was judged. -/
  isAsked : Bool
  deriving DecidableEq, Repr

/-- What an execution came to with such a course ahead, if its worker takes enough steps. After the
last step of the course it judges the ending, and then it settles the entry. -/
def Course.execution? (course : Course) (request : StopRequest) (steps : Nat) : Option Execution :=
  if course.steps + 2 ≤ steps then
    some ⟨course.ending, course.storedHits, request.comesWithin course.steps⟩
  else none

/-- A course that takes one more step is completed by one more step of the worker. -/
theorem Course.execution?_next (course : Course) (request : StopRequest) (steps : Nat) :
    course.next.execution? request (steps + 1) = course.execution? request.later steps := by
  have sameBound : course.steps + 1 + 2 ≤ steps + 1 ↔ course.steps + 2 ≤ steps := by omega
  simp only [execution?, next, sameBound, StopRequest.comesWithin_later]

/-- What the execution of a search came to in a life, if the worker has settled the entry. One
step launches the execution before the script, and one after it notes that the search is done. -/
def Search.executionIn? (search : Search) (life : Life) : Option Execution :=
  match life.opening with
  | .none | .stopped => none
  | .started rest => (search.course rest.request).next.next.execution? rest.request rest.steps

/-- The words that a crash left behind, or those for one that left none. -/
def CrashReport.words : CrashReport → String
  | .text message => message
  | .unknown => "unknown panic"

/-- The text of a crash tells the words that it left behind. -/
theorem CrashReport.failure_eq (report : CrashReport) :
    report.failure = .ofText ("search panicked: " ++ report.words) := by
  cases report with
  | text message => rfl
  | unknown => decide

namespace Entry

/-- The entry after all that happens to it. -/
def afterEach (entry : Entry) (life : Life) : Entry :=
  life.foldl (fun entry moment => entry.after moment.1 moment.2) entry

@[simp] theorem afterEach_nil (entry : Entry) : entry.afterEach [] = entry := rfl

@[simp] theorem afterEach_cons (entry : Entry) (moment : Instant × EntryEvent) (rest : Life) :
    entry.afterEach (moment :: rest) = (entry.after moment.1 moment.2).afterEach rest := rfl

@[simp] theorem afterEach_append (entry : Entry) (earlier later : Life) :
    entry.afterEach (earlier ++ later) = (entry.afterEach earlier).afterEach later := by
  simp [afterEach]

variable {entry : Entry}

/-- Any life leaves an entry coherent. -/
theorem Coherent.afterEach (coherent : entry.Coherent) (life : Life) :
    (entry.afterEach life).Coherent := by
  induction life generalizing entry with
  | nil => exact coherent
  | cons moment rest ih => exact ih (coherent.after moment.2)

/-- A settled entry stays frozen through any life. -/
theorem IsFrozenAs.afterEach {later : Entry} {verdict : Verdict}
    (frozen : later.IsFrozenAs entry verdict) (life : Life) :
    (later.afterEach life).IsFrozenAs entry verdict := by
  induction life generalizing later with
  | nil => exact frozen
  | cons moment rest ih => exact ih (frozen.after moment.2)

/-- A settled entry keeps its verdict and its hits through any life. -/
theorem IsSettled.afterEach {verdict : Verdict} (settled : entry.IsSettled verdict) (life : Life) :
    (entry.afterEach life).IsSettled verdict ∧
      (entry.afterEach life).storedHits = entry.storedHits := by
  have frozen := IsFrozenAs.afterEach ⟨settled, rfl, rfl⟩ life
  exact ⟨frozen.settled, frozen.storedHits⟩

/-- The request under which an entry stands, if it is asked to stop at such a time. -/
def standing (entry : Entry) (request : StopRequest) : StopRequest :=
  if entry.cancelRequested then .after 0 else request

/-- When the worker takes a step, a request is due if the entry has been asked to stop, and every
other one comes one step sooner. -/
theorem standing_advance (now : Instant) (entry : Entry) (rest : Life) :
    (entry.standing rest.request.delayed).comesWithin 0 = entry.cancelRequested ∧
      (entry.advance now).standing rest.request = (entry.standing rest.request.delayed).later := by
  have same : (entry.advance now).cancelRequested = entry.cancelRequested :=
    cancelRequested_after_of_not_request now entry
      (show EntryEvent.advance.isRequest = false by rfl)
  simp only [standing, same]
  cases entry.cancelRequested with
  | true => exact ⟨rfl, rfl⟩
  | false =>
    exact ⟨StopRequest.comesWithin_delayed_zero rest.request,
      (StopRequest.later_delayed rest.request).symm⟩

/-- Anything but a step of the worker leaves a running entry under the same request. -/
theorem IsRunning.standing_after {stage : Worker} (running : entry.IsRunning stage) (now : Instant)
    {event : EntryEvent} (notStep : event ≠ .advance) (rest : Life) :
    (entry.after now event).standing rest.request =
      entry.standing (Life.request ((now, event) :: rest)) := by
  cases event with
  | advance => exact absurd rfl notStep
  | cancel =>
    have asked : (entry.after now .cancel).cancelRequested = true := by
      simp only [after, cancel, running.slot]
    simp [standing, asked, Life.request]
  | trip =>
    have asked : (entry.after now .trip).cancelRequested = true := by
      simp only [after, trip, running.slot]
    simp [standing, asked, Life.request]
  | start =>
    have same : (entry.after now .start).cancelRequested = entry.cancelRequested :=
      cancelRequested_after_of_not_request now entry rfl
    simp only [standing, same, Life.request]
  | touch | remember => rfl

/-- Nobody has asked an entry to stop that is started while it is pending. -/
theorem IsPending.unasked_start (pending : entry.IsPending) (now : Instant) :
    (entry.start now).cancelRequested = false := by
  simp only [start, pending.slot, pending.cancelRequested]

/-- An entry that is started while it is pending is under no request yet. -/
theorem IsPending.standing_start (pending : entry.IsPending) (now : Instant)
    (request : StopRequest) : (entry.start now).standing request = request := by
  rw [standing, pending.unasked_start, if_neg (by simp)]

/-- A pending entry that is asked to stop is cancelled at once. -/
theorem IsPending.isSettled_cancel (pending : entry.IsPending) (now : Instant) :
    (entry.cancel now).IsSettled .cancelled := by
  have cancelled : entry.cancel now = { entry with
      cancelRequested := true, searchDone := true, slot := .settled .cancelled,
      finished := some now } := by
    simp only [cancel, pending.slot]
  rw [cancelled]
  exact ⟨rfl, pending.worker, rfl, rfl, fun _ => rfl,
    .inr ⟨pending.started, pending.executions, rfl⟩⟩

/-- A running entry settles as its outlook says once its worker has taken the steps, and runs on
until then. -/
theorem IsRunning.afterEach {stage : Worker} (running : entry.IsRunning stage) (life : Life) :
    let settlement := entry.outlook (entry.standing life.request) stage
    (settlement.steps ≤ life.steps → (entry.afterEach life).IsSettled settlement.verdict ∧
      (entry.afterEach life).storedHits = settlement.storedHits) ∧
    (life.steps < settlement.steps → ∃ stage, (entry.afterEach life).IsRunning stage) := by
  induction life generalizing entry stage with
  | nil =>
    refine ⟨fun enough => ?_, fun _ => ⟨stage, running⟩⟩
    have positive := entry.outlook_steps_pos (entry.standing (Life.request [])) stage
    simp only [Life.steps, List.countP_nil] at enough
    omega
  | cons moment rest ih =>
    obtain ⟨now, event⟩ := moment
    rw [afterEach_cons]
    by_cases isStep : event = .advance
    · subst isStep
      have count : Life.steps ((now, .advance) :: rest) = Life.steps rest + 1 := by
        simp [Life.steps]
      obtain ⟨due, stands⟩ := standing_advance now entry rest
      rcases running.outlook_advance now due with ⟨next, runs, nearer⟩ | ⟨verdict, rfl⟩
      · obtain ⟨settles, runsOn⟩ := ih runs
        rw [stands] at settles runsOn
        simp only [Life.request, nearer, count, Settlement.next]
        exact ⟨fun enough => settles (by omega), fun short => runsOn (by omega)⟩
      · obtain ⟨settled, sameHits⟩ := running.advance_of_settling now
        obtain ⟨stays, keepsHits⟩ := settled.afterEach rest
        refine ⟨fun _ => ⟨stays, keepsHits.trans sameHits⟩, fun short => ?_⟩
        simp only [outlook, count] at short
        omega
    · have count : Life.steps ((now, event) :: rest) = Life.steps rest := by
        simp [Life.steps, isStep]
      have later := ih (running.after_of_ne now isStep).1
      rw [running.standing_after now isStep, running.outlook_after now _ isStep] at later
      simp only [count]
      exact later

/-- What has become of a pending entry after a life. -/
theorem IsPending.afterEach (pending : entry.IsPending) (life : Life) :
    match life.opening with
    | .none => (entry.afterEach life).IsPending
    | .stopped => (entry.afterEach life).IsSettled .cancelled
    | .started rest =>
      let settlement := entry.search.settlement entry.id rest.request
      (settlement.steps ≤ rest.steps → (entry.afterEach life).IsSettled settlement.verdict ∧
        (entry.afterEach life).storedHits = settlement.storedHits) ∧
      (rest.steps < settlement.steps → ∃ stage, (entry.afterEach life).IsRunning stage) := by
  induction life generalizing entry with
  | nil => exact pending
  | cons moment rest ih =>
    obtain ⟨now, event⟩ := moment
    rw [afterEach_cons]
    cases event with
    | start =>
      have later := (pending.courseAhead?_start now (Life.request rest)).1.afterEach rest
      rw [pending.standing_start, pending.outlook_start] at later
      exact later
    | cancel => exact ((pending.isSettled_cancel now).afterEach rest).1
    | advance =>
      rw [after, Coherent.advance_of_no_worker pending.worker]
      exact ih pending
    | trip =>
      rw [after, pending.trip_eq]
      exact ih pending
    | touch =>
      have touched : (entry.touch now).IsPending := { pending with }
      exact ih touched
    | remember score =>
      have scored : (entry.rememberWorthiness score).IsPending := { pending with }
      exact ih scored

/-- A running entry that has not settled has been asked to stop if its life asked it. -/
theorem IsRunning.cancelRequested_afterEach {stage : Worker} (running : entry.IsRunning stage)
    (life : Life) (unsettled : ∀ verdict, (entry.afterEach life).slot ≠ .settled verdict) :
    (entry.afterEach life).cancelRequested =
      (entry.cancelRequested || life.any fun moment => moment.2.isRequest) := by
  induction life generalizing entry stage with
  | nil => simp
  | cons moment rest ih =>
    obtain ⟨now, event⟩ := moment
    rw [afterEach_cons] at unsettled ⊢
    have coherent : (entry.after now event).Coherent := (Coherent.running stage running).after event
    have runsOn : ∃ stage, (entry.after now event).IsRunning stage := by
      cases coherent with
      | pending pending =>
        exact absurd pending.slot (slot_after_ne_pending now entry event (by simp [running.slot]))
      | running next runs => exact ⟨next, runs⟩
      | settled verdict settled => exact absurd (settled.afterEach rest).1.slot (unsettled verdict)
    obtain ⟨next, runs⟩ := runsOn
    rw [ih runs unsettled, List.any_cons]
    cases isRequest : event.isRequest with
    | false => simp [cancelRequested_after_of_not_request now entry isRequest]
    | true =>
      have asked : (entry.after now event).cancelRequested = true := by
        cases event with
        | cancel => simp only [after, cancel, running.slot]
        | trip => simp only [after, trip, running.slot]
        | start | advance | touch | remember => cases isRequest
      simp [asked]

/-- A pending entry that has not settled has been asked to stop if its life asked it. -/
theorem IsPending.cancelRequested_afterEach (pending : entry.IsPending) (life : Life)
    (unsettled : ∀ verdict, (entry.afterEach life).slot ≠ .settled verdict) :
    (entry.afterEach life).cancelRequested = life.asks := by
  induction life generalizing entry with
  | nil => exact pending.cancelRequested
  | cons moment rest ih =>
    obtain ⟨now, event⟩ := moment
    rw [afterEach_cons] at unsettled ⊢
    cases event with
    | start =>
      have runs := (pending.courseAhead?_start now .never).1
      rw [after, runs.cancelRequested_afterEach rest unsettled, pending.unasked_start,
        Bool.false_or]
      rfl
    | cancel =>
      exact absurd ((pending.isSettled_cancel now).afterEach rest).1.slot (unsettled .cancelled)
    | advance =>
      rw [after, Coherent.advance_of_no_worker pending.worker] at unsettled ⊢
      exact ih pending unsettled
    | trip =>
      rw [after, pending.trip_eq] at unsettled ⊢
      exact ih pending unsettled
    | touch =>
      have touched : (entry.touch now).IsPending := { pending with }
      exact ih touched unsettled
    | remember score =>
      have scored : (entry.rememberWorthiness score).IsPending := { pending with }
      exact ih scored unsettled

/-- Without a request in its life an entry is asked to stop only if it was before. -/
theorem cancelRequested_afterEach_of_no_request (entry : Entry) {life : Life}
    (none : life.any (fun moment => moment.2.isRequest) = false) :
    (entry.afterEach life).cancelRequested = entry.cancelRequested := by
  induction life generalizing entry with
  | nil => rfl
  | cons moment rest ih =>
    rw [List.any_cons, Bool.or_eq_false_iff] at none
    rw [afterEach_cons, ih _ none.2, cancelRequested_after_of_not_request _ _ none.1]

/-- A pending entry that its life does not ask to stop is not asked. -/
theorem IsPending.cancelRequested_afterEach_of_not_asks (pending : entry.IsPending) {life : Life}
    (unasked : life.asks = false) : (entry.afterEach life).cancelRequested = false := by
  induction life generalizing entry with
  | nil => exact pending.cancelRequested
  | cons moment rest ih =>
    obtain ⟨now, event⟩ := moment
    rw [afterEach_cons]
    cases event with
    | start =>
      rw [after, cancelRequested_afterEach_of_no_request _ unasked, pending.unasked_start]
    | cancel => cases unasked
    | advance =>
      rw [after, Coherent.advance_of_no_worker pending.worker]
      exact ih pending unasked
    | trip =>
      rw [after, pending.trip_eq]
      exact ih pending unasked
    | touch =>
      have touched : (entry.touch now).IsPending := { pending with }
      exact ih touched unasked
    | remember score =>
      have scored : (entry.rememberWorthiness score).IsPending := { pending with }
      exact ih scored unasked

/-- What becomes of an entry: it is asked to stop before it is started, its worker settles it on
what the execution came to, or it has not settled. -/
theorem afterEach_make_cases (id : EntryId) (search : Search) (created : Instant) (life : Life) :
    let entry := (make id search created).afterEach life
    (life.opening = .stopped ∧ search.executionIn? life = none ∧ entry.IsSettled .cancelled) ∨
    (∃ execution, search.executionIn? life = some execution ∧ life.opening ≠ .stopped ∧
      entry.IsSettled (execution.ending.judged id execution.isAsked) ∧
      entry.storedHits = execution.ending.finalHits execution.storedHits) ∨
    (life.opening ≠ .stopped ∧ search.executionIn? life = none ∧
      ∀ verdict, entry.slot ≠ .settled verdict) := by
  have pending : (make id search created).IsPending := ⟨rfl, rfl, rfl, rfl, rfl, rfl, rfl, rfl⟩
  have becomes := pending.afterEach life
  simp only [Search.executionIn?]
  cases opening : life.opening with
  | none =>
    simp only [opening] at becomes
    refine .inr (.inr ⟨by simp, rfl, ?_⟩)
    simp [becomes.slot]
  | stopped =>
    simp only [opening] at becomes
    exact .inl ⟨rfl, rfl, becomes⟩
  | started rest =>
    simp only [opening] at becomes
    obtain ⟨settles, runsOn⟩ := becomes
    by_cases enough : (search.course rest.request).next.next.steps + 2 ≤ rest.steps
    · obtain ⟨settled, stored⟩ := settles enough
      refine .inr (.inl ⟨_, if_pos enough, by simp, settled, stored⟩)
    · obtain ⟨stage, running⟩ := runsOn (Nat.lt_of_not_le enough)
      refine .inr (.inr ⟨by simp, if_neg enough, ?_⟩)
      simp [running.slot]

/-- An entry settles with a verdict if it is asked to stop before it is started, or if the verdict
is the one on what the execution came to. -/
theorem slot_afterEach_make_iff (id : EntryId) (search : Search) (created : Instant) (life : Life)
    (verdict : Verdict) :
    ((make id search created).afterEach life).slot = .settled verdict ↔
      life.opening = .stopped ∧ verdict = .cancelled ∨
        ∃ execution, search.executionIn? life = some execution ∧
          execution.ending.judged id execution.isAsked = verdict := by
  rcases afterEach_make_cases id search created life with ⟨stopped, none, settled⟩ |
    ⟨execution, executed, notStopped, settled, _⟩ | ⟨notStopped, none, unsettled⟩
  · simp [stopped, none, settled.slot, eq_comm]
  · simp [executed, notStopped, settled.slot]
  · simp [none, notStopped, unsettled verdict]

/-- Nothing that happens brings an entry that has been started farther from its end. -/
theorem stepsLeft_afterEach_le (begun : entry.slot ≠ .pending) (life : Life) :
    (entry.afterEach life).stepsLeft ≤ entry.stepsLeft := by
  induction life generalizing entry with
  | nil => exact Nat.le_refl _
  | cons moment rest ih =>
    obtain ⟨now, event⟩ := moment
    exact (ih (slot_after_ne_pending now entry event begun)).trans
      (stepsLeft_after_le begun now event)

/-- What the execution of an entry came to in a life, told from where its worker stands. Nothing is
told once the ending has been judged. -/
def executionIn? (entry : Entry) (life : Life) : Option Execution :=
  match entry.slot, entry.worker with
  | .pending, _ => entry.search.executionIn? life
  | .running, some stage =>
    (entry.courseAhead? (entry.standing life.request) stage).bind fun course =>
      course.execution? (entry.standing life.request) life.steps
  | .running, none | .settled _, _ => none

theorem IsPending.executionIn?_eq (pending : entry.IsPending) (life : Life) :
    entry.executionIn? life = entry.search.executionIn? life := by
  simp only [executionIn?, pending.slot]

theorem IsRunning.executionIn?_eq {stage : Worker} (running : entry.IsRunning stage)
    (life : Life) :
    entry.executionIn? life =
      (entry.courseAhead? (entry.standing life.request) stage).bind fun course =>
        course.execution? (entry.standing life.request) life.steps := by
  simp only [executionIn?, running.slot, running.worker]

theorem IsSettled.executionIn?_eq {verdict : Verdict} (settled : entry.IsSettled verdict)
    (life : Life) : entry.executionIn? life = none := by
  simp only [executionIn?, settled.slot]

theorem Coherent.executionIn?_nil (coherent : entry.Coherent) : entry.executionIn? [] = none := by
  cases coherent with
  | pending pending => exact pending.executionIn?_eq []
  | running stage running => simp [running.executionIn?_eq, Course.execution?, Life.steps]
  | settled verdict settled => exact settled.executionIn?_eq []

/-- A step of the worker leaves what the execution comes to as it was, unless it judges the
ending. -/
theorem IsRunning.executionIn?_advance {stage : Worker} (running : entry.IsRunning stage)
    (now : Instant) (rest : Life) :
    entry.executionIn? ((now, .advance) :: rest) = (entry.advance now).executionIn? rest ∨
      ∃ ending, stage = .judging ending := by
  obtain ⟨due, stands⟩ := standing_advance now entry rest
  have count : Life.steps ((now, .advance) :: rest) = Life.steps rest + 1 := by simp [Life.steps]
  cases ahead : entry.courseAhead? (entry.standing rest.request.delayed) stage with
  | none =>
    cases stage with
    | settling verdict =>
      left
      obtain ⟨settled, _⟩ := running.advance_of_settling now
      rw [running.executionIn?_eq, settled.executionIn?_eq]
      rfl
    | launched | executing | returned | judging => cases ahead
  | some course =>
    rcases running.courseAhead?_advance now due ahead with
      ⟨next, course, runs, aheadNext, rfl⟩ | judges
    · left
      rw [running.executionIn?_eq, runs.executionIn?_eq, stands, aheadNext, count, Life.request,
        ahead, Option.bind_some, Option.bind_some, Course.execution?_next]
    · exact .inr judges

/-- Whatever happens to an entry leaves what its execution comes to as it was, unless it judges the
ending. -/
theorem Coherent.executionIn?_cons (coherent : entry.Coherent) (now : Instant)
    (event : EntryEvent) (rest : Life) :
    entry.executionIn? ((now, event) :: rest) = (entry.after now event).executionIn? rest ∨
      event = .advance ∧ ∃ ending, entry.IsRunning (.judging ending) := by
  cases coherent with
  | pending pending =>
    left
    rw [pending.executionIn?_eq]
    cases event with
    | start =>
      obtain ⟨running, ahead⟩ := pending.courseAhead?_start now (Life.request rest)
      rw [Entry.after, running.executionIn?_eq, pending.standing_start, ahead]
      rfl
    | cancel =>
      rw [Entry.after, (pending.isSettled_cancel now).executionIn?_eq]
      rfl
    | advance =>
      rw [Entry.after, advance_of_no_worker pending.worker, pending.executionIn?_eq]
      rfl
    | trip =>
      rw [Entry.after, pending.trip_eq, pending.executionIn?_eq]
      rfl
    | touch =>
      have touched : (entry.touch now).IsPending := { pending with }
      exact (touched.executionIn?_eq rest).symm
    | remember score =>
      have scored : (entry.rememberWorthiness score).IsPending := { pending with }
      exact (scored.executionIn?_eq rest).symm
  | running stage running =>
    by_cases isStep : event = .advance
    · subst isStep
      rcases running.executionIn?_advance now rest with same | ⟨ending, rfl⟩
      · exact .inl same
      · exact .inr ⟨rfl, ending, running⟩
    · left
      have count : Life.steps ((now, event) :: rest) = Life.steps rest := by
        simp [Life.steps, isStep]
      rw [running.executionIn?_eq, (running.after_of_ne now isStep).1.executionIn?_eq,
        running.standing_after now isStep, running.courseAhead?_after now _ isStep, count]
  | settled verdict settled =>
    left
    have stays : (entry.after now event).IsSettled verdict := (settled.afterEach [(now, event)]).1
    rw [settled.executionIn?_eq, stays.executionIn?_eq]

/-- As long as the ending has not been judged, what the execution comes to is as it was at first. -/
theorem Coherent.executionIn?_append (coherent : entry.Coherent) (earlier later : Life)
    (unjudged : 2 ≤ (entry.afterEach earlier).stepsLeft) :
    entry.executionIn? (earlier ++ later) = (entry.afterEach earlier).executionIn? later := by
  induction earlier generalizing entry with
  | nil => rfl
  | cons moment rest ih =>
    obtain ⟨now, event⟩ := moment
    change 2 ≤ ((entry.after now event).afterEach rest).stepsLeft at unjudged
    rcases coherent.executionIn?_cons now event (rest ++ later) with same | ⟨rfl, ending, judges⟩
    · exact same.trans (ih (coherent.after event) unjudged)
    · have begun : entry.slot ≠ .pending := by simp [judges.slot]
      have nearer := stepsLeft_afterEach_le (slot_after_ne_pending now entry .advance begun) rest
      have next : (entry.after now .advance).stepsLeft ≤ entry.stepsLeft - 1 :=
        entry.stepsLeft_advance now
      have two : entry.stepsLeft = 2 := by simp only [stepsLeft, judges.worker]
      omega

/-- The execution of an entry whose worker has returned comes to what it has returned. -/
theorem IsRunning.executionIn?_of_returned {ending : Ending} {execution : Execution}
    (running : entry.IsRunning (.returned ending)) {life : Life}
    (executed : entry.executionIn? life = some execution) :
    execution.ending = ending ∧ execution.storedHits = entry.storedHits := by
  rw [running.executionIn?_eq] at executed
  simp only [courseAhead?, Option.bind_some, Course.execution?, Option.ite_none_right_eq_some,
    Option.some.injEq] at executed
  obtain ⟨_, rfl⟩ := executed
  exact ⟨rfl, rfl⟩

/-- The worker judges the ending of an execution in a life, and settles the entry on it. -/
def IsExecutedAs (entry : Entry) (life : Life) (execution : Execution) : Prop :=
  ∃ earlier now later, life = earlier ++ (now, .advance) :: later ∧
    (entry.afterEach earlier).worker = some (.judging execution.ending) ∧
    (entry.afterEach earlier).storedHits = execution.storedHits ∧
    (entry.afterEach earlier).cancelRequested = execution.isAsked ∧ 0 < Life.steps later

/-- What the execution of an entry comes to whose ending is about to be judged. -/
theorem IsRunning.executionIn?_of_judging {ending : Ending}
    (running : entry.IsRunning (.judging ending)) (now : Instant) (later : Life) :
    entry.executionIn? ((now, .advance) :: later) =
      if 0 < Life.steps later then some ⟨ending, entry.storedHits, entry.cancelRequested⟩
      else none := by
  have due := (standing_advance now entry later).1
  have enough : 0 + 2 ≤ Life.steps ((now, .advance) :: later) ↔ 0 < Life.steps later := by
    simp [Life.steps]
  rw [running.executionIn?_eq]
  simp only [courseAhead?, Option.bind_some, Course.execution?, enough, Life.request, due]

/-- What an execution comes to is what its worker judges. -/
theorem Coherent.executionIn?_eq_some_iff (coherent : entry.Coherent) (life : Life)
    (execution : Execution) :
    entry.executionIn? life = some execution ↔ entry.IsExecutedAs life execution := by
  constructor
  · intro executed
    induction life generalizing entry with
    | nil => simp [coherent.executionIn?_nil] at executed
    | cons moment rest ih =>
      obtain ⟨now, event⟩ := moment
      rcases coherent.executionIn?_cons now event rest with same | ⟨rfl, ending, judges⟩
      · obtain ⟨earlier, moment, later, rfl, judged⟩ := ih (coherent.after event) (same ▸ executed)
        exact ⟨(now, event) :: earlier, moment, later, rfl, judged⟩
      · rw [judges.executionIn?_of_judging, Option.ite_none_right_eq_some,
          Option.some.injEq] at executed
        obtain ⟨settles, rfl⟩ := executed
        exact ⟨[], now, rest, rfl, judges.worker, rfl, rfl, settles⟩
  · rintro ⟨earlier, now, later, rfl, judging, stored, asked, settles⟩
    have judges := (coherent.afterEach earlier).isRunning_of_worker judging
    rw [coherent.executionIn?_append _ _ (by simp only [stepsLeft, judging, Nat.le_refl]),
      judges.executionIn?_of_judging, if_pos settles, stored, asked]

/-- An entry settles as its search is executed, for every script and every order of what happens
to it. It is done exactly if it was asked to stop before it was started, or its worker has taken
all its steps. It settles with the result that the execution returned, whether or not it was asked
to stop; it is cancelled exactly if it was asked to stop before it was started, or the execution
returned an error and it had been asked to stop when that was judged; it fails with the error that
nobody asked for, or with the words that a crash left behind. In the end it stores as many hits as
the execution had stored or as its result counts, whichever is more. What the execution came to is
what its worker had returned, and what it found when it judged the ending. A checkpoint fails
exactly if the entry was asked to stop before, and an entry that nobody asked is not cancelled. -/
theorem settles_as_executed (id : EntryId) (search : Search) (created : Instant) (life : Life) :
    let entry := (make id search created).afterEach life
    (entry.isDone = true ↔
      life.opening = .stopped ∨ (search.executionIn? life).isSome = true) ∧
    (∀ result, entry.slot = .settled (.done result) ↔
      ∃ execution, search.executionIn? life = some execution ∧
        execution.ending = .result result.output ∧ result.producer = id) ∧
    (entry.slot = .settled .cancelled ↔
      life.opening = .stopped ∨ ∃ execution, search.executionIn? life = some execution ∧
        (∃ failure, execution.ending = .error failure) ∧ execution.isAsked = true) ∧
    (∀ failure, entry.slot = .settled (.failed failure) ↔
      ∃ execution, search.executionIn? life = some execution ∧
        (execution.ending = .error failure ∧ execution.isAsked = false ∨
          ∃ report, execution.ending = .crash report ∧
            failure = .ofText ("search panicked: " ++ report.words))) ∧
    (∀ execution, search.executionIn? life = some execution →
      (∀ output, execution.ending = .result output →
        entry.storedHits = max execution.storedHits output.hits) ∧
      ((∀ output, execution.ending ≠ .result output) → entry.storedHits = execution.storedHits)) ∧
    (∀ execution, search.executionIn? life = some execution ↔
      (make id search created).IsExecutedAs life execution) ∧
    (∀ earlier later ending, life = earlier ++ later →
      ((make id search created).afterEach earlier).worker = some (.returned ending) →
      ∀ execution, search.executionIn? life = some execution → execution.ending = ending ∧
        execution.storedHits = ((make id search created).afterEach earlier).storedHits) ∧
    (∀ now remaining, entry.worker = some (.executing (.checkpoint :: remaining)) →
      (entry.advance now).worker =
        some (if life.asks then .returned (.error .interrupted) else .executing remaining)) ∧
    (life.asks = false → entry.status ≠ .cancelled) := by
  have pending : (make id search created).IsPending := ⟨rfl, rfl, rfl, rfl, rfl, rfl, rfl, rfl⟩
  have coherent := (coherent_make id search created).afterEach life
  have settles := slot_afterEach_make_iff id search created life
  have executes : ∀ life, (make id search created).executionIn? life = search.executionIn? life :=
    fun _ => rfl
  refine ⟨?_, ?_, ?_, ?_, ?_, ?_, ?_, ?_, ?_⟩
  · rw [isDone_iff, Option.isSome_iff_exists]
    simp [settles, exists_or]
  · intro result
    simp [settles, Ending.judged_eq_done_iff]
  · simp [settles, Ending.judged_eq_cancelled_iff]
  · intro failure
    simp [settles, Ending.judged_eq_failed_iff, CrashReport.failure_eq]
  · intro execution executed
    rcases afterEach_make_cases id search created life with ⟨_, none, _⟩ |
      ⟨other, isOther, _, _, stored⟩ | ⟨_, none, _⟩
    · simp [none] at executed
    · rw [executed, Option.some.injEq] at isOther
      subst isOther
      rw [stored]
      cases execution.ending <;> simp [Ending.finalHits]
    · simp [none] at executed
  · intro execution
    rw [← executes, (coherent_make id search created).executionIn?_eq_some_iff]
  · rintro earlier later ending rfl returned execution executed
    have waits := ((coherent_make id search created).afterEach earlier).isRunning_of_worker returned
    rw [← executes, (coherent_make id search created).executionIn?_append _ _
      (by simp [stepsLeft, returned])] at executed
    exact waits.executionIn?_of_returned executed
  · intro now remaining working
    have running := coherent.isRunning_of_worker working
    have asked : ((make id search created).afterEach life).cancelRequested = life.asks :=
      pending.cancelRequested_afterEach life (by simp [running.slot])
    simp only [advance, working, perform_eq, asked, ScriptStep.ending?]
    cases life.asks <;> rfl
  · intro unasked cancelled
    have asked := coherent.cancelRequested_of_cancelled cancelled
    rw [pending.cancelRequested_afterEach_of_not_asks unasked] at asked
    cases asked

/-- A search that reports hits, goes through a checkpoint and ends with some last step. -/
def briefSearch (last : ScriptStep) : Search where
  key := ⟨"small", "brief", false⟩
  cacheable := true
  hits := 0
  script := [.reportHits 7, .checkpoint, last]

/-- A life in which the entry is asked to stop when its execution has ended and its ending is
about to be judged. -/
def askedLast : Life :=
  ([.touch, .start, .advance, .advance, .advance, .advance, .advance, .cancel, .advance,
    .advance] : List EntryEvent).map fun event => (.start, event)

theorem settles_as_executed_when_askedLast :
    ((make 1 (briefSearch (.fail ⟨"unreadable", ["shard"]⟩)) .start).afterEach askedLast).slot =
        .settled .cancelled ∧
      ((make 1 (briefSearch (.finish (.ofHits 3))) .start).afterEach askedLast).slot =
        .settled (.done ⟨.ofHits 3, 1⟩) ∧
      ((make 1 (briefSearch (.finish (.ofHits 3))) .start).afterEach askedLast).storedHits = 7 ∧
      ((make 1 (briefSearch (.crash .unknown)) .start).afterEach askedLast).slot =
        .settled (.failed (.ofText ("search panicked: " ++ "unknown panic"))) := by
  obtain ⟨_, _, cancelled, _⟩ :=
    settles_as_executed 1 (briefSearch (.fail ⟨"unreadable", ["shard"]⟩)) .start askedLast
  obtain ⟨_, done, _, _, stored, _⟩ :=
    settles_as_executed 1 (briefSearch (.finish (.ofHits 3))) .start askedLast
  obtain ⟨_, _, _, failed, _⟩ :=
    settles_as_executed 1 (briefSearch (.crash .unknown)) .start askedLast
  refine ⟨?_, ?_, ?_, ?_⟩
  · exact cancelled.mpr (.inr ⟨⟨.error ⟨"unreadable", ["shard"]⟩, 7, true⟩, rfl, ⟨_, rfl⟩, rfl⟩)
  · exact (done ⟨.ofHits 3, 1⟩).mpr ⟨⟨.result (.ofHits 3), 7, true⟩, rfl, rfl, rfl⟩
  · exact (stored ⟨.result (.ofHits 3), 7, true⟩ rfl).1 (.ofHits 3) rfl
  · exact (failed _).mpr ⟨⟨.crash .unknown, 7, true⟩, rfl, .inr ⟨.unknown, rfl, rfl⟩⟩

end Entry

end SweptCache
