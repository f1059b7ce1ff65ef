import SweptCache.Proofs.LoneClients
import SweptCache.Proofs.ScriptCourses

/-!
# Runs that nobody asks to stop

The `fate` of an entry is how it has settled, or how it will settle if nobody asks
it to stop. What else happens to the entry leaves its fate as it is
(`Entry.Coherent.fate_after`), so the fate is settled by the search alone. And
every step of its worker brings the entry closer to it, whatever happens between
the steps (`Store.WellFormed.isDone_of_steps`). So all runs of a search that
nobody asks to stop end alike, and all of them end.
-/

namespace SweptCache

/-- How an entry ends. -/
structure Fate where
  verdict : Verdict
  storedHits : UInt64
  deriving DecidableEq, Repr

/-- How an entry ends that settles so. -/
def Settlement.fate (settlement : Settlement) : Fate :=
  ⟨settlement.verdict, settlement.storedHits⟩

@[simp] theorem Settlement.fate_next (settlement : Settlement) :
    settlement.next.fate = settlement.fate := rfl

/-- How the entry of a search ends if nobody asks it to stop. -/
def Search.plainFate (search : Search) (producer : EntryId) : Fate :=
  (search.settlement producer .never).fate

namespace Entry

variable {entry : Entry} {now : Instant}

/-- How an entry has ended, or will end if nobody asks it to stop. -/
def fate (entry : Entry) : Fate :=
  match entry.slot, entry.worker with
  | .settled verdict, _ => ⟨verdict, entry.storedHits⟩
  | .running, some stage => (entry.outlook .never stage).fate
  | .running, none | .pending, _ => entry.search.plainFate entry.id

theorem IsPending.fate_eq (pending : entry.IsPending) :
    entry.fate = entry.search.plainFate entry.id := by
  simp only [fate, pending.slot]

theorem IsRunning.fate_eq {stage : Worker} (running : entry.IsRunning stage) :
    entry.fate = (entry.outlook .never stage).fate := by
  simp only [fate, running.slot, running.worker]

theorem IsSettled.fate_eq {verdict : Verdict} (settled : entry.IsSettled verdict) :
    entry.fate = ⟨verdict, entry.storedHits⟩ := by
  simp only [fate, settled.slot]

/-- An event that does not ask an entry to stop leaves its fate as it is. -/
theorem Coherent.fate_after (coherent : entry.Coherent) (event : EntryEvent)
    (unasked : (entry.after now event).cancelRequested = false) :
    (entry.after now event).fate = entry.fate := by
  have before := cancelRequested_before unasked
  cases coherent with
  | pending pending =>
    cases event with
    | start =>
      have running := (pending.courseAhead?_start now .never).1
      rw [pending.fate_eq, Entry.after, running.fate_eq, pending.outlook_start]
      rfl
    | cancel => simp [Entry.after, Entry.cancel, pending.slot] at unasked
    | advance => rw [Entry.after, advance_of_no_worker pending.worker]
    | trip => rw [Entry.after, pending.trip_eq]
    | touch | remember => rfl
  | running stage running =>
    by_cases isStep : event = .advance
    · subst isStep
      have due : StopRequest.never.comesWithin 0 = entry.cancelRequested := by rw [before]; rfl
      rcases running.outlook_advance now due with ⟨next, runs, nearer⟩ | ⟨verdict, rfl⟩
      · rw [running.fate_eq, nearer, Settlement.fate_next, Entry.after, runs.fate_eq]
        rfl
      · obtain ⟨settled, sameHits⟩ := running.advance_of_settling now
        rw [running.fate_eq, Entry.after, settled.fate_eq, sameHits]
        rfl
    · have runs := (running.after_of_ne now isStep).1
      rw [running.fate_eq, runs.fate_eq, running.outlook_after now .never isStep]
  | settled verdict settled =>
    obtain ⟨_, _, _, becomes, _⟩ := settled.after_eq now event
    rw [becomes]
    rfl

/-- An entry whose fate is that of its search unless it was asked to stop. -/
structure MeetsFate (entry : Entry) : Prop where
  coherent : entry.Coherent
  fate_eq : entry.cancelRequested = false → entry.fate = entry.search.plainFate entry.id

theorem meetsFate_make (id : EntryId) (search : Search) (now : Instant) :
    (make id search now).MeetsFate :=
  ⟨coherent_make id search now, fun _ => rfl⟩

theorem MeetsFate.after (meets : entry.MeetsFate) (now : Instant) (event : EntryEvent) :
    (entry.after now event).MeetsFate := by
  refine ⟨meets.coherent.after event, fun unasked => ?_⟩
  rw [meets.coherent.fate_after event unasked, meets.fate_eq (cancelRequested_before unasked),
    search_after, id_after]

/-- What clients are given is what the verdict calls for. -/
theorem outcome?_eq_some_iff {outcome : Outcome} :
    entry.outcome? = some outcome ↔
      ∃ verdict, entry.slot = .settled verdict ∧ verdict.outcome = outcome := by
  cases slot : entry.slot <;> simp [outcome?, slot, Slot.outcome?]

/-- What clients of an entry are given that nobody asked to stop. -/
theorem MeetsFate.outcome_eq (meets : entry.MeetsFate)
    (unasked : entry.cancelRequested = false) {outcome : Outcome}
    (told : entry.outcome? = some outcome) :
    outcome = (entry.search.plainFate entry.id).verdict.outcome := by
  obtain ⟨verdict, slot, rfl⟩ := outcome?_eq_some_iff.mp told
  rw [← meets.fate_eq unasked]
  simp only [fate, slot]

/-- Two entries that have ended alike. Only the result objects of different entries differ. -/
structure EndsLike (first second : Entry) : Prop where
  status : first.status = second.status
  content : first.outcome?.map contentOf = second.outcome?.map contentOf
  outcome : first.id = second.id → first.outcome? = second.outcome?
  storedHits : first.storedHits = second.storedHits
  searchDone : first.searchDone = true ∧ second.searchDone = true
  executions : first.executions = 1 ∧ second.executions = 1

/-- Verdicts on one ending differ only in who produced the result. -/
theorem status_and_content_of_judged (first second : EntryId) (isAsked : Bool) (ending : Ending) :
    (Slot.settled (ending.judged first isAsked)).status =
        (Slot.settled (ending.judged second isAsked)).status ∧
      contentOf (ending.judged first isAsked).outcome =
        contentOf (ending.judged second isAsked).outcome := by
  cases ending with
  | result output => exact ⟨rfl, rfl⟩
  | error failure => cases isAsked <;> exact ⟨rfl, rfl⟩
  | crash report => exact ⟨rfl, rfl⟩

/-- Two entries for one search that have ended and that nobody asked to stop have ended alike. -/
theorem MeetsFate.endsLike {first second : Entry} (meets : first.MeetsFate)
    (other : second.MeetsFate) (same : first.search = second.search)
    (unasked : first.cancelRequested = false) (otherUnasked : second.cancelRequested = false)
    (done : first.isDone = true) (otherDone : second.isDone = true) : first.EndsLike second := by
  obtain ⟨verdict, settled⟩ := meets.coherent.isSettled_of_isDone done
  obtain ⟨otherVerdict, otherSettled⟩ := other.coherent.isSettled_of_isDone otherDone
  have fate := settled.fate_eq.symm.trans (meets.fate_eq unasked)
  have otherFate := otherSettled.fate_eq.symm.trans (other.fate_eq otherUnasked)
  rw [same] at fate
  simp only [Search.plainFate, Settlement.fate, Search.settlement, Course.settlement,
    Course.next, Fate.mk.injEq] at fate otherFate
  obtain ⟨isVerdict, hits⟩ := fate
  obtain ⟨isOtherVerdict, otherHits⟩ := otherFate
  obtain ⟨sameStatus, sameContent⟩ := status_and_content_of_judged first.id second.id
    (StopRequest.never.comesWithin ((second.search.course .never).steps + 2))
    (second.search.course .never).ending
  rw [← isVerdict, ← isOtherVerdict] at sameStatus sameContent
  refine ⟨?_, ?_, ?_, hits.trans otherHits.symm, ⟨settled.searchDone, otherSettled.searchDone⟩,
    meets.coherent.executions_of_settled settled.slot unasked,
    other.coherent.executions_of_settled otherSettled.slot otherUnasked⟩
  · rw [Entry.status, Entry.status, settled.slot, otherSettled.slot, sameStatus]
  · simp only [Entry.outcome?, settled.slot, otherSettled.slot, Slot.outcome?, Option.map_some,
      sameContent]
  · intro sameId
    rw [sameId, ← isOtherVerdict] at isVerdict
    simp only [Entry.outcome?, settled.slot, otherSettled.slot, Slot.outcome?, isVerdict]

end Entry

/-- Whether an event is a step of an entry's worker. -/
def StoreEvent.isStepOf (id : EntryId) : StoreEvent → Bool
  | .advance other => other = id
  | _ => false

/-- Whether an event is certain to ask no entry to stop. A submission and a sweep may do so. -/
def StoreEvent.letsRun : StoreEvent → Bool
  | .start _ | .advance _ | .touch _ | .score _ _ | .remove _ | .overview | .addEntry _
  | .relist _ | .memory _ | .pass _ => true
  | .clear cancelsRunning => !cancelsRunning
  | .submit _ | .cancel _ | .trip _ | .removeIndex _ | .shutDown | .sweep => false

namespace Store

variable {store : Store} {id : EntryId} {entry later : Entry}

/-- What is reachable stays so through any history. -/
theorem Reachable.afterAll (reachable : store.Reachable) (history : List StoreEvent) :
    (store.afterAll history).Reachable := by
  induction history generalizing store with
  | nil => exact reachable
  | cons event rest ih => exact ih (reachable.after event)

/-- Every entry of a reachable store meets its fate unless it was asked to stop. -/
theorem Reachable.meetsFate (reachable : store.Reachable) (found : store.find? id = some entry) :
    entry.MeetsFate := by
  obtain ⟨settings, policy, memory, initial, history, created, rfl⟩ := reachable
  have noEntries : initial.entries = [] := by rw [eq_empty_of_create created]; rfl
  exact forall_entries_afterAll Entry.meetsFate_make
    (fun now _ event meets => meets.after now event)
    (by simp [noEntries]) history entry (List.mem_of_find?_eq_some found)

/-- An event that lets searches run asks no entry to stop. -/
theorem no_request_of_letsRun {event : StoreEvent} (letsRun : event.letsRun = true) :
    (store.effects event entry).any EntryEvent.isRequest = false := by
  cases event with
  | start | advance | touch | score =>
    simp only [effects]
    split <;> rfl
  | clear cancelsRunning =>
    have gently : cancelsRunning = false := by simpa [StoreEvent.letsRun] using letsRun
    simp [effects, gently]
  | remove | overview | addEntry | relist | memory | pass => rfl
  | submit | cancel | trip | removeIndex | shutDown | sweep => cases letsRun

/-- A history of events that let searches run asks none of them to stop. -/
theorem WellFormed.cancelRequested_of_letsRun (wellFormed : store.WellFormed)
    (found : store.find? id = some entry) {history : List StoreEvent}
    (letsRun : history.all StoreEvent.letsRun = true)
    (foundLater : (store.afterAll history).find? id = some later) :
    later.cancelRequested = entry.cancelRequested := by
  induction history generalizing store entry with
  | nil =>
    rw [afterAll_nil, found, Option.some.injEq] at foundLater
    rw [foundLater]
  | cons event rest ih =>
    rw [List.all_cons, Bool.and_eq_true] at letsRun
    rw [ih (wellFormed.after event) (wellFormed.find?_after found event) letsRun.2 foundLater,
      Entry.cancelRequested_afterAll_of_no_request _ _ (no_request_of_letsRun letsRun.1)]

/-- The worker of an entry that has been started takes its steps, whatever happens between them. -/
theorem WellFormed.stepsLeft_afterAll_le (wellFormed : store.WellFormed)
    (found : store.find? id = some entry) (begun : entry.slot ≠ .pending)
    (history : List StoreEvent) (foundLater : (store.afterAll history).find? id = some later) :
    later.slot ≠ .pending ∧
      later.stepsLeft ≤ entry.stepsLeft - history.countP (StoreEvent.isStepOf id) := by
  induction history generalizing store entry with
  | nil =>
    rw [afterAll_nil, found, Option.some.injEq] at foundLater
    exact ⟨foundLater ▸ begun, by simp [foundLater]⟩
  | cons event rest ih =>
    have foundNext := wellFormed.find?_after found event
    obtain ⟨begunNext, notFarther⟩ :
        (entry.afterAll store.clock (store.effects event entry)).slot ≠ .pending ∧
          (entry.afterAll store.clock (store.effects event entry)).stepsLeft ≤ entry.stepsLeft :=
      Entry.afterAll_preserves
        (fun next => next.slot ≠ .pending ∧ next.stepsLeft ≤ entry.stepsLeft)
        (fun next event earlier =>
          ⟨Entry.slot_after_ne_pending _ next event earlier.1,
            (Entry.stepsLeft_after_le earlier.1 _ event).trans earlier.2⟩)
        _ ⟨begun, Nat.le_refl _⟩
    obtain ⟨begunLater, fewer⟩ := ih (wellFormed.after event) foundNext begunNext foundLater
    refine ⟨begunLater, fewer.trans ?_⟩
    cases isStep : event.isStepOf id with
    | false =>
      simp only [List.countP_cons, isStep, Bool.false_eq_true, if_false, Nat.add_zero]
      omega
    | true =>
      have isAdvance : store.effects event entry = [.advance] := by
        have sameId := (wellFormed.find?_eq_some_iff.mp found).2
        cases event <;> simp [StoreEvent.isStepOf] at isStep
        simp [effects, isStep, sameId]
      have nearer := entry.stepsLeft_advance store.clock
      simp only [List.countP_cons, isStep, if_true]
      rw [isAdvance]
      simp only [Entry.afterAll_cons, Entry.afterAll_nil, Entry.after]
      omega

/-- An entry that has been started is done once its worker has taken the steps that were left. -/
theorem WellFormed.isDone_of_steps (wellFormed : store.WellFormed)
    (found : store.find? id = some entry) (begun : entry.slot ≠ .pending)
    {history : List StoreEvent}
    (enough : entry.stepsLeft ≤ history.countP (StoreEvent.isStepOf id))
    (foundLater : (store.afterAll history).find? id = some later) : later.isDone = true := by
  obtain ⟨begunLater, fewer⟩ := wellFormed.stepsLeft_afterAll_le found begun history foundLater
  have idle : later.worker = none := (later.stepsLeft_eq_zero_iff).mp (by omega)
  obtain ⟨member, _⟩ := (wellFormed.afterAll history).find?_eq_some_iff.mp foundLater
  cases (wellFormed.afterAll history).coherent later member with
  | pending pending => exact absurd pending.slot begunLater
  | running stage running => simp [running.worker] at idle
  | settled verdict settled => exact later.isDone_iff.mpr ⟨verdict, settled.slot⟩

/-- An entry has been started, and its worker takes the steps that are left in the course of a
history. -/
def RunsToEnd (store : Store) (history : List StoreEvent) (id : EntryId) : Prop :=
  ∃ entry, store.find? id = some entry ∧ entry.slot ≠ .pending ∧
    entry.stepsLeft ≤ history.countP (StoreEvent.isStepOf id)

/-- An entry is done whose worker takes its steps. -/
theorem WellFormed.isDone_of_runsToEnd (wellFormed : store.WellFormed)
    {history : List StoreEvent} (runs : store.RunsToEnd history id) :
    ∃ later, (store.afterAll history).find? id = some later ∧ later.isDone = true := by
  obtain ⟨entry, found, begun, enough⟩ := runs
  obtain ⟨later, foundLater, _⟩ := wellFormed.exists_later found history
  exact ⟨later, foundLater, wellFormed.isDone_of_steps found begun enough foundLater⟩

/-- The work on an entry consists of steps of its worker and the time they take. -/
theorem countP_workSteps (id : EntryId) (steps : Nat) :
    (workSteps id steps).countP (StoreEvent.isStepOf id) = steps := by
  induction steps with
  | zero => rfl
  | succ steps ih => simp [workSteps, StoreEvent.isStepOf, ih]

theorem letsRun_workSteps (id : EntryId) (steps : Nat) :
    (workSteps id steps).all StoreEvent.letsRun = true := by
  induction steps with
  | zero => rfl
  | succ steps ih => simp [workSteps, StoreEvent.letsRun, ih]

/-- The store after a paused worker has been resumed so many times. -/
def resumeFor (store : Store) (id : EntryId) : Nat → Store
  | 0 => store
  | times + 1 => (store.resume id).resumeFor id times

/-- The work on an entry can be broken off and taken up again. -/
theorem workSteps_add (id : EntryId) (earlier later : Nat) :
    workSteps id (earlier + later) = workSteps id earlier ++ workSteps id later := by
  induction earlier with
  | zero => rw [Nat.zero_add, workSteps, List.nil_append]
  | succ earlier ih =>
    rw [Nat.succ_add, workSteps, workSteps, ih, List.cons_append, List.cons_append]

/-- A worker that is resumed so many times takes at least as many steps. -/
theorem exists_resumeFor_eq (store : Store) (id : EntryId) (times : Nat) :
    ∃ steps, times ≤ steps ∧ store.resumeFor id times = store.afterAll (workSteps id steps) := by
  induction times generalizing store with
  | zero => exact ⟨0, Nat.le_refl _, rfl⟩
  | succ times ih =>
    obtain ⟨rest, enough, resumed⟩ := ih (store.resume id)
    obtain ⟨steps, worked⟩ := exists_workToPauseFor_eq (store.work id) id
      ((store.work id).stepsLeft id)
    refine ⟨steps + 1 + rest, by omega, ?_⟩
    rw [workSteps_add, afterAll_append, resumeFor, resumed, resume, workToPause, worked]
    rfl

/-- The worker of an entry that has been started takes its steps if it is resumed often enough. -/
theorem exists_resumeFor_runsToEnd (found : store.find? id = some entry)
    (begun : entry.slot ≠ .pending) :
    ∃ times steps, store.resumeFor id times = store.afterAll (workSteps id steps) ∧
      store.RunsToEnd (workSteps id steps) id := by
  obtain ⟨steps, enough, resumed⟩ := store.exists_resumeFor_eq id entry.stepsLeft
  rw [← countP_workSteps id steps] at enough
  exact ⟨entry.stepsLeft, steps, resumed, entry, found, begun, enough⟩

end Store

end SweptCache
