import SweptCache.Proofs.PlanPasses
import SweptCache.Proofs.Settling

/-!
# What the record of an entry tells

The parts of a record are written in different places: the slot and its moments
under a lock, the flags and the hits without one. In every life they agree
(`Entry.IsConsistent`). The moments that a record holds are those at which it
came about in the life of the entry that it was running, and that it settled
(`Entry.Coherent.started_afterEach_iff`, `Entry.Coherent.finished_afterEach_iff`).

Whoever reads the figures of an entry holds its lock, and the worker goes on
meanwhile as far as it can without it. So flags and hits may be read that are
newer than the status (`Entry.Reading`). That does no harm: the search of a
terminal entry is done whenever it is read, so no plan of a sweep aborts what it
has read to be finished.
-/

namespace SweptCache.Entry

variable {entry : Entry}

/-- Something comes about at a moment of a life: it does not hold of the entry before what happens
then, and it holds afterwards. -/
def ComesAbout (entry : Entry) (holds : Entry → Prop) (life : Life) (moment : Instant) : Prop :=
  ∃ earlier event later, life = earlier ++ (moment, event) :: later ∧
    ¬ holds (entry.afterEach earlier) ∧ holds ((entry.afterEach earlier).after moment event)

/-- Nothing comes about in no life. -/
theorem not_comesAbout_nil (holds : Entry → Prop) (moment : Instant) :
    ¬ entry.ComesAbout holds [] moment := by
  rintro ⟨earlier, event, later, split, _⟩
  simp at split

/-- What comes about in a life comes about with what happens first, or in the rest. -/
theorem comesAbout_cons_iff {holds : Entry → Prop} {now moment : Instant} {event : EntryEvent}
    {rest : Life} :
    entry.ComesAbout holds ((now, event) :: rest) moment ↔
      moment = now ∧ ¬ holds entry ∧ holds (entry.after now event) ∨
        (entry.after now event).ComesAbout holds rest moment := by
  constructor
  · rintro ⟨earlier, happens, later, split, before, after⟩
    rcases List.cons_eq_append_iff.mp split with ⟨rfl, first⟩ | ⟨first, rfl, rfl⟩
    · obtain ⟨same, rfl⟩ := List.cons.inj first
      obtain ⟨rfl, rfl⟩ := Prod.mk.inj same
      exact .inl ⟨rfl, before, after⟩
    · exact .inr ⟨first, happens, later, rfl, before, after⟩
  · rintro (⟨rfl, before, after⟩ | ⟨earlier, happens, later, rfl, before, after⟩)
    · exact ⟨[], event, rest, rfl, before, after⟩
    · exact ⟨(now, event) :: earlier, happens, later, rfl, before, after⟩

/-- The entry starts to run at a moment of a life. -/
def StartsAt (entry : Entry) (life : Life) (moment : Instant) : Prop :=
  entry.ComesAbout (fun entry => entry.status = .running) life moment

/-- The entry settles at a moment of a life. -/
def SettlesAt (entry : Entry) (life : Life) (moment : Instant) : Prop :=
  entry.ComesAbout (fun entry => entry.isDone = true) life moment

/-- What is recorded when it comes about with an event, and not otherwise, is recorded in the
course of a life when it comes about in it. -/
theorem recorded_afterEach_iff (recorded : Entry → Option Instant) (holds : Entry → Prop)
    (step : ∀ entry : Entry, entry.Coherent → ∀ now event moment,
      recorded (entry.after now event) = some moment ↔
        recorded entry = some moment ∨ moment = now ∧ ¬ holds entry ∧ holds (entry.after now event))
    (coherent : entry.Coherent) (life : Life) (moment : Instant) :
    recorded (entry.afterEach life) = some moment ↔
      recorded entry = some moment ∨ entry.ComesAbout holds life moment := by
  induction life generalizing entry with
  | nil => simp [not_comesAbout_nil]
  | cons first rest ih =>
    obtain ⟨now, event⟩ := first
    rw [afterEach_cons, ih (coherent.after event), step entry coherent, comesAbout_cons_iff,
      or_assoc]

/-- The status of an entry that is not running. -/
theorem Coherent.not_running_cases (coherent : entry.Coherent)
    (notRunning : ¬ entry.status = .running) :
    entry.IsPending ∨ ∃ verdict, entry.IsSettled verdict := by
  cases coherent with
  | pending pending => exact .inl pending
  | running stage running => exact absurd running.status_eq notRunning
  | settled verdict settled => exact .inr ⟨verdict, settled⟩

/-- A running entry has been started. -/
theorem Coherent.isSome_started_of_running (coherent : entry.Coherent)
    (runs : entry.status = .running) : entry.started.isSome = true := by
  cases coherent with
  | pending pending => simp [pending.status_eq] at runs
  | running stage running => exact running.started
  | settled verdict settled =>
    rcases status_of_slot settled.slot with isDone | isFailed | isCancelled <;> simp_all

/-- The start of an entry that runs is final. -/
theorem started_after_of_running (runs : entry.status = .running) (now : Instant)
    (event : EntryEvent) : (entry.after now event).started = entry.started := by
  by_cases isStart : event = .start
  · subst isStart
    simp only [after, start]
    split
    next pending => simp [status, pending, Slot.status] at runs
    next => rfl
    next => rfl
  · exact started_after_of_ne isStart

/-- An event leaves the end of an entry as it was recorded, or records that it is now. -/
theorem finished_after_cases (now : Instant) (entry : Entry) (event : EntryEvent) :
    (entry.after now event).finished = entry.finished ∨
      (entry.after now event).finished = some now := by
  cases event with
  | start =>
    simp only [after, start]
    split <;> exact .inl rfl
  | trip =>
    simp only [after, trip]
    split <;> exact .inl rfl
  | touch | remember => exact .inl rfl
  | cancel =>
    simp only [after, cancel]
    split
    · exact .inr rfl
    · exact .inl rfl
    · exact .inl rfl
  | advance =>
    simp only [after, advance, perform_eq, judge_eq]
    split
    case h_7 => exact .inr rfl
    all_goals exact .inl rfl

/-- A coherent entry has an end exactly if it is finished for good. -/
theorem Coherent.isSome_finished (coherent : entry.Coherent) :
    entry.finished.isSome = entry.isDone := by
  cases coherent with
  | pending pending =>
    rw [pending.finished, isDone_of_pending pending.status_eq]
    rfl
  | running stage running =>
    rw [running.finished, isDone_of_running running.status_eq]
    rfl
  | settled verdict settled =>
    rw [settled.finished, (isDone_iff entry).mpr ⟨verdict, settled.slot⟩]

/-- An entry that is not finished for good has no end. -/
theorem Coherent.finished_of_unfinished (coherent : entry.Coherent)
    (unfinished : entry.isDone = false) : entry.finished = none := by
  rw [← Option.not_isSome_iff_eq_none, coherent.isSome_finished, unfinished]
  simp

/-- The start of an entry is recorded when it starts to run. -/
theorem Coherent.started_after_iff (coherent : entry.Coherent) (now : Instant)
    (event : EntryEvent) (moment : Instant) :
    (entry.after now event).started = some moment ↔
      entry.started = some moment ∨ moment = now ∧ ¬ entry.status = .running ∧
        (entry.after now event).status = .running := by
  by_cases runs : entry.status = .running
  · simp [started_after_of_running runs now event, runs]
  · rcases coherent.not_running_cases runs with pending | ⟨verdict, settled⟩
    · by_cases isStart : event = .start
      · subst isStart
        simp [Entry.after, Entry.start, pending.slot, pending.started, status, Slot.status,
          eq_comm]
      · have unstarted : (entry.after now event).started = none :=
          (started_after_of_ne isStart).trans pending.started
        have idle : ¬ (entry.after now event).status = .running := fun runsNow => by
          simpa [unstarted] using (coherent.after event).isSome_started_of_running runsNow
        simp [unstarted, pending.started, idle]
    · obtain ⟨_, _, _, becomes, _⟩ := settled.after_eq now event
      have idle : ¬ (entry.after now event).status = .running := by
        rw [becomes]
        exact runs
      simp only [idle, and_false, or_false]
      rw [becomes]

/-- The end of an entry is recorded when it settles. -/
theorem Coherent.finished_after_iff (coherent : entry.Coherent) (now : Instant)
    (event : EntryEvent) (moment : Instant) :
    (entry.after now event).finished = some moment ↔
      entry.finished = some moment ∨ moment = now ∧ ¬ entry.isDone = true ∧
        (entry.after now event).isDone = true := by
  by_cases done : entry.isDone = true
  · obtain ⟨verdict, settled⟩ := coherent.isSettled_of_isDone done
    obtain ⟨_, _, _, becomes, _⟩ := settled.after_eq now event
    simp [becomes, done]
  · have unfinished := coherent.finished_of_unfinished (Bool.eq_false_iff.mpr done)
    have recorded : (entry.after now event).finished.isSome = (entry.after now event).isDone :=
      (coherent.after event).isSome_finished
    cases finished_after_cases now entry event with
    | inl same =>
      rw [same, unfinished] at recorded ⊢
      simp [← recorded]
    | inr settles =>
      rw [settles] at recorded ⊢
      simp [← recorded, unfinished, done, eq_comm]

/-- The start of an entry, unless it was recorded before a life, is when it starts to run. -/
theorem Coherent.started_afterEach_iff (coherent : entry.Coherent) (life : Life)
    (moment : Instant) :
    (entry.afterEach life).started = some moment ↔
      entry.started = some moment ∨ entry.StartsAt life moment :=
  recorded_afterEach_iff (·.started) (·.status = .running)
    (fun _ coherent => coherent.started_after_iff) coherent life moment

/-- The end of an entry, unless it was recorded before a life, is when it settles. -/
theorem Coherent.finished_afterEach_iff (coherent : entry.Coherent) (life : Life)
    (moment : Instant) :
    (entry.afterEach life).finished = some moment ↔
      entry.finished = some moment ∨ entry.SettlesAt life moment :=
  recorded_afterEach_iff (·.finished) (·.isDone = true)
    (fun _ coherent => coherent.finished_after_iff) coherent life moment

/-- A start that has been recorded stays recorded. -/
theorem Coherent.isSome_started_afterEach (coherent : entry.Coherent)
    (started : entry.started.isSome = true) (life : Life) :
    (entry.afterEach life).started.isSome = true := by
  obtain ⟨moment, isStart⟩ := Option.isSome_iff_exists.mp started
  rw [(coherent.started_afterEach_iff life moment).mpr (.inl isStart)]
  rfl

/-- An entry that had not been started is started in a life exactly if it runs at some time. -/
theorem Coherent.isSome_started_iff (coherent : entry.Coherent) (unstarted : entry.started = none)
    (life : Life) :
    (entry.afterEach life).started.isSome = true ↔
      ∃ earlier later, life = earlier ++ later ∧ (entry.afterEach earlier).status = .running := by
  constructor
  · intro started
    obtain ⟨moment, isStart⟩ := Option.isSome_iff_exists.mp started
    rcases (coherent.started_afterEach_iff life moment).mp isStart with before | startsAt
    · simp [unstarted] at before
    · obtain ⟨earlier, event, later, split, _, runs⟩ := startsAt
      exact ⟨earlier ++ [(moment, event)], later, by simp [split], by simpa using runs⟩
  · rintro ⟨earlier, later, rfl, runs⟩
    have coherentThen := coherent.afterEach earlier
    rw [afterEach_append]
    exact coherentThen.isSome_started_afterEach (coherentThen.isSome_started_of_running runs) later

/-- An entry whose flags and moments agree with its status. -/
structure IsConsistent (entry : Entry) : Prop where
  searchDone : entry.isDone = true → entry.searchDone = true
  cancelRequested : entry.status = .cancelled → entry.cancelRequested = true
  pending : entry.status = .pending →
    entry.searchDone = false ∧ entry.cancelRequested = false ∧ entry.storedHits = 0 ∧
      entry.executions = 0
  unstarted : entry.isDone = true → entry.started = none →
    entry.status = .cancelled ∧ entry.executions = 0
  finished : entry.finished.isSome = entry.isDone

/-- The search of a terminal entry is done. -/
theorem Coherent.searchDone_of_isDone (coherent : entry.Coherent) (done : entry.isDone = true) :
    entry.searchDone = true := by
  obtain ⟨verdict, settled⟩ := coherent.isSettled_of_isDone done
  exact settled.searchDone

/-- The flags and moments of a coherent entry agree with its status. -/
theorem Coherent.isConsistent (coherent : entry.Coherent) : entry.IsConsistent where
  searchDone := coherent.searchDone_of_isDone
  cancelRequested := coherent.cancelRequested_of_cancelled
  pending isPending := by
    have pending := coherent.isPending_iff.mp isPending
    exact ⟨pending.searchDone, pending.cancelRequested, pending.storedHits, pending.executions⟩
  unstarted done unstarted := by
    rcases coherent.unstarted_cases unstarted with pending | ⟨cancelled, never⟩
    · simp [isDone_of_pending pending.status_eq] at done
    · exact ⟨by rw [status, cancelled.slot, Slot.status], never⟩
  finished := coherent.isSome_finished

/-- Whether the next step of the worker settles the entry, for which it needs the lock. -/
def isSettling (entry : Entry) : Bool :=
  match entry.worker with
  | some (.settling _) => true
  | _ => false

/-- The entry after its worker has gone on for some steps, as far as it can without the lock. -/
def goOn (now : Instant) (entry : Entry) : Nat → Entry
  | 0 => entry
  | steps + 1 => if entry.isSettling then entry else (entry.advance now).goOn now steps

/-- An entry without a worker stays as it is. -/
theorem goOn_of_no_worker (idle : entry.worker = none) (now : Instant) (steps : Nat) :
    entry.goOn now steps = entry := by
  induction steps with
  | zero => rfl
  | succ steps ih => simp [goOn, isSettling, idle, Coherent.advance_of_no_worker idle, ih]

/-- An entry whose figures are read, and how far its worker goes on meanwhile. -/
structure Reading where
  /-- The entry when its lock is taken. -/
  entry : Entry
  moment : Instant
  /-- The steps that the worker may take until it is read whether the search is done. -/
  stepsToFlag : Nat
  /-- The steps that it may take from then on until the hits are read. -/
  stepsToHits : Nat
  /-- The score, which may go back to other figures. -/
  worthiness : Score

namespace Reading

/-- The figures that are read. -/
def stats (reading : Reading) : Stats :=
  let atFlag := reading.entry.goOn reading.moment reading.stepsToFlag
  { reading.entry.stats reading.moment with
    searchDone := atFlag.searchDone
    storedHits := (atFlag.goOn reading.moment reading.stepsToHits).storedHits }

/-- The entry as a sweep sees it. -/
def candidate (reading : Reading) : Candidate := ⟨reading.worthiness, reading.stats⟩

/-- The search of an entry that is read to be terminal is read to be done. -/
theorem searchDone_of_isDone {reading : Reading} (coherent : reading.entry.Coherent)
    (done : reading.stats.isDone = true) : reading.stats.searchDone = true := by
  obtain ⟨verdict, settled⟩ := coherent.isSettled_of_isDone done
  rw [stats, goOn_of_no_worker settled.worker]
  exact settled.searchDone

/-- No entry that is read to be terminal is taken for a runaway. -/
theorem isDone_of_isRunaway {reading : Reading} (coherent : reading.entry.Coherent)
    {limits : Limits} (runaway : limits.isRunaway reading.stats = true) :
    reading.stats.isDone = false := by
  rw [Limits.isRunaway, Bool.and_eq_true, Bool.not_eq_true'] at runaway
  rw [← Bool.not_eq_true]
  intro done
  simp [searchDone_of_isDone coherent done] at runaway

/-- A plan evicts what was terminal when it was read, and aborts what was not. -/
theorem action_of_mem_actions {readings : List Reading}
    (coherent : ∀ reading ∈ readings, reading.entry.Coherent) {limits : Limits}
    {freeBytes : UInt64} {plan : Plan}
    (made : Plan.make (readings.map candidate) limits freeBytes = .ok plan)
    {decision : Nat × SweepAction} (decided : decision ∈ plan.actions) :
    ∃ reading, readings[decision.1]? = some reading ∧
      (reading.entry.isDone = true ∧ (∃ reason, decision.2 = .evict reason) ∨
        reading.entry.isDone = false ∧ ∃ reason, decision.2 = .abort reason) := by
  rw [Plan.actions_of_make made, List.mem_map] at decided
  obtain ⟨removal, removed, rfl⟩ := decided
  obtain ⟨member, acts⟩ := Plan.action_of_mem_removals removed
  rw [List.mem_zipIdx_iff_getElem?, List.getElem?_map, Option.map_eq_some_iff] at member
  obtain ⟨reading, isRead, isCandidate⟩ := member
  rw [← isCandidate] at acts
  refine ⟨reading, isRead, ?_⟩
  rcases acts with ⟨runaway, aborts⟩ | evicted | aborted
  · have running := isDone_of_isRunaway (coherent reading (List.mem_of_getElem? isRead)) runaway
    exact .inr ⟨running, _, aborts⟩
  · exact .inl evicted
  · exact .inr aborted

end Reading

/-- The flags of an entry agree with its status in every life, and its start is recorded exactly
if it has been running. So whatever goes on while the figures of entries are read, a plan that is
made from them evicts only entries that were terminal and aborts only entries that were not. -/
theorem flags_agree (id : EntryId) (search : Search) (created : Instant) (life : Life)
    {readings : List Reading}
    (lived : ∀ reading ∈ readings, ∃ id search created life,
      reading.entry = (make id search created).afterEach life)
    {limits : Limits} {freeBytes : UInt64} {plan : Plan}
    (made : Plan.make (readings.map Reading.candidate) limits freeBytes = .ok plan) :
    ((make id search created).afterEach life).IsConsistent ∧
    (((make id search created).afterEach life).started.isSome = true ↔
      ∃ earlier later, life = earlier ++ later ∧
        ((make id search created).afterEach earlier).status = .running) ∧
    ∀ decision ∈ plan.actions, ∃ reading, readings[decision.1]? = some reading ∧
      (reading.entry.isDone = true ∧ (∃ reason, decision.2 = .evict reason) ∨
        reading.entry.isDone = false ∧ ∃ reason, decision.2 = .abort reason) := by
  have coherent := coherent_make id search created
  have readCoherent : ∀ reading ∈ readings, reading.entry.Coherent := by
    intro reading member
    obtain ⟨id, search, created, life, isLife⟩ := lived reading member
    exact isLife ▸ (coherent_make id search created).afterEach life
  exact ⟨(coherent.afterEach life).isConsistent, coherent.isSome_started_iff rfl life,
    fun _ => Reading.action_of_mem_actions readCoherent made⟩

/-- A search that finds three hits without a script. -/
def shortSearch : Search where
  key := ⟨"brown", "fox", false⟩
  cacheable := true
  hits := 3
  script := []

/-- A life in which the entry is started and its worker takes some steps. -/
def startedLife (steps : Nat) : Life :=
  (.start, .start) :: List.replicate steps (.start, .advance)

/-- A reading of a settled entry. -/
def settledReading : Reading where
  entry := (make 1 shortSearch .start).afterEach (startedLife 5)
  moment := .start
  stepsToFlag := 1
  stepsToHits := 1
  worthiness := 1

/-- A reading of a running entry in which the search ends before it is read whether it is done, and
its hits are counted before they are read. -/
def overtakenReading : Reading where
  entry := (make 2 shortSearch .start).afterEach (startedLife 1)
  moment := .start
  stepsToFlag := 2
  stepsToHits := 5
  worthiness := 2

/-- Limits by which nothing is kept and nothing may run. -/
def noRoom : Limits :=
  { (Settings.standard 8).limits with maxEntries := some 0, maxConcurrent := 0 }

theorem flags_agree_of_overtaken :
    overtakenReading.stats.isDone = false ∧ overtakenReading.stats.searchDone = true ∧
      overtakenReading.stats.storedHits = 3 ∧
      Plan.make ([settledReading, overtakenReading].map Reading.candidate) noRoom 64000000000 =
        .ok ⟨[(0, .evict .tooManySearches), (1, .abort .noCoresLeft)], 144⟩ ∧
      settledReading.entry.IsConsistent ∧ settledReading.entry.started.isSome = true ∧
      settledReading.entry.isDone = true ∧ overtakenReading.entry.isDone = false := by
  have lived : ∀ reading ∈ [settledReading, overtakenReading], ∃ id search created life,
      reading.entry = (make id search created).afterEach life := by
    simp only [List.forall_mem_cons]
    exact ⟨⟨1, shortSearch, .start, startedLife 5, rfl⟩,
      ⟨2, shortSearch, .start, startedLife 1, rfl⟩, by simp⟩
  have made : Plan.make ([settledReading, overtakenReading].map Reading.candidate) noRoom
      64000000000 = .ok ⟨[(0, .evict .tooManySearches), (1, .abort .noCoresLeft)], 144⟩ := by
    have ranking : rank Candidate.worthiness
        [⟨1, settledReading.stats⟩, ⟨2, overtakenReading.stats⟩] =
          [(⟨2, overtakenReading.stats⟩, 1), (⟨1, settledReading.stats⟩, 0)] := by
      simp [rank, List.mergeSort, outranks]
    have candidates : [settledReading, overtakenReading].map Reading.candidate =
        [⟨1, settledReading.stats⟩, ⟨2, overtakenReading.stats⟩] := rfl
    rw [candidates, Plan.make, ranking]
    rfl
  obtain ⟨consistent, started, decides⟩ :=
    flags_agree 1 shortSearch .start (startedLife 5) lived made
  have runs : ((make 1 shortSearch .start).afterEach (startedLife 0)).status = .running := rfl
  have evicts := decides (0, .evict .tooManySearches) (by simp)
  have aborts := decides (1, .abort .noCoresLeft) (by simp)
  exact ⟨rfl, rfl, rfl, made, consistent, started.mpr ⟨startedLife 0, _, rfl, runs⟩,
    by simpa using evicts, by simpa using aborts⟩

end SweptCache.Entry
