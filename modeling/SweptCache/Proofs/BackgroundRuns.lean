import SweptCache.Proofs.Transparency
import SweptCache.Proofs.Withdrawals

/-!
# Runs in the background

A client that is given a new entry executes it on its own thread or leaves it to
run in the background, where it stops at pauses, is resumed, and other things
happen to the cache in between. As long as nobody asks the entry to stop, both
runs end alike (`Store.Reachable.exists_runsLike`). So it does not matter to the
answer of a search in which way it was submitted
(`Store.Reachable.exists_isAnsweredBy`): a client that waits is told what a
client is told that comes when the entry has run to its end in the background
(`Store.WellFormed.tellsWaiting_of_runsToEnd`).
-/

namespace SweptCache.Store

variable {store other : Store} {search : Search} {id twinId : EntryId}
  {entry later own twin : Entry}

/-- A pending entry has not been asked to stop. -/
theorem WellFormed.unasked_of_pending (wellFormed : store.WellFormed)
    (found : store.find? id = some entry) (pending : entry.status = .pending) :
    entry.cancelRequested = false :=
  ((wellFormed.coherent entry (List.mem_of_find?_eq_some found)).isPending_iff.mp
    pending).cancelRequested

/-- An entry that has been started is there and is no longer pending. -/
theorem WellFormed.exists_started (wellFormed : store.WellFormed)
    (found : store.find? id = some entry) :
    ∃ started, (store.after (.start id)).find? id = some started ∧ started.slot ≠ .pending ∧
      started.search = entry.search ∧ started.cancelRequested = entry.cancelRequested := by
  obtain ⟨started, foundStarted, begun⟩ := Site.slot_start_ne_pending wellFormed found
  exact ⟨started, foundStarted, begun,
    wellFormed.search_afterAll found [.start id] foundStarted,
    wellFormed.cancelRequested_of_letsRun found (by rfl) foundStarted⟩

/-- A pending entry is done once the client that started it has executed it, and has not been
asked to stop. -/
theorem Reachable.exists_own (reachable : store.Reachable)
    (found : store.find? id = some entry) (pending : entry.status = .pending) :
    ∃ own, (store.execute id true).find? id = some own ∧ own.MeetsFate ∧ own.isDone = true ∧
      own.cancelRequested = false ∧ own.search = entry.search := by
  have wellFormed := reachable.wellFormed
  have wellFormedStarted := wellFormed.after (.start id)
  have isPending : store.isPending id = true := by simp [isPending, found, pending]
  obtain ⟨steps, executed, allOfThem⟩ := exists_execute_eq_of_isPending isPending true
  obtain ⟨started, foundStarted, begun, sameSearch, sameRequest⟩ := wellFormed.exists_started found
  have runs : (store.after (.start id)).RunsToEnd (workSteps id steps) id := by
    refine ⟨started, foundStarted, begun, ?_⟩
    rw [countP_workSteps, allOfThem rfl, stepsLeft, foundStarted]
    exact Nat.le_refl _
  obtain ⟨own, foundOwn, done⟩ := wellFormedStarted.isDone_of_runsToEnd runs
  refine ⟨own, by rw [executed, foundOwn],
    ((reachable.after (.start id)).afterAll _).meetsFate foundOwn, done, ?_, ?_⟩
  · rw [wellFormedStarted.cancelRequested_of_letsRun foundStarted (letsRun_workSteps id steps)
      foundOwn, sameRequest, wellFormed.unasked_of_pending found pending]
  · rw [wellFormedStarted.search_afterAll foundStarted _ foundOwn, sameSearch]

/-- What a history has made of an entry that had just been started, compared with an entry that
has been executed without interruption. -/
structure RunsLike (started : Store) (id : EntryId) (history : List StoreEvent)
    (later own : Entry) : Prop where
  /-- The entry has not been asked to stop if there is no event that may do so. -/
  unasked : history.all StoreEvent.letsRun = true → later.cancelRequested = false
  /-- It is done once its worker has taken its steps, whatever happens between them. -/
  done : started.stepsLeft id ≤ history.countP (StoreEvent.isStepOf id) → later.isDone = true
  /-- If it is done and has not been asked to stop, it has ended as the other did. -/
  endsLike : later.cancelRequested = false → later.isDone = true → later.EndsLike own
  /-- If it has not been asked to stop, it comes to that end when its worker is resumed. -/
  resumed : later.cancelRequested = false →
    ∃ times last, ((started.afterAll history).resumeFor id times).find? id = some last ∧
      last.isDone = true ∧ last.EndsLike own

/-- An entry that runs in the background runs as an entry does that its client executes itself,
whatever else happens to the cache. -/
theorem Reachable.exists_runsLike (reachable : other.Reachable)
    (found : other.find? twinId = some twin) (pending : twin.status = .pending)
    (ownMeets : own.MeetsFate) (ownDone : own.isDone = true)
    (ownUnasked : own.cancelRequested = false) (same : twin.search = own.search)
    (history : List StoreEvent) :
    ∃ later, ((other.start twinId).afterAll history).find? twinId = some later ∧
      (other.start twinId).RunsLike twinId history later own := by
  have wellFormed := reachable.wellFormed
  have reachableStarted := reachable.after (.start twinId)
  have wellFormedStarted := wellFormed.after (.start twinId)
  obtain ⟨started, foundStarted, begun, startedSearch, startedRequest⟩ :=
    wellFormed.exists_started found
  have ends : ∀ history ended,
      ((other.start twinId).afterAll history).find? twinId = some ended →
        ended.cancelRequested = false → ended.isDone = true → ended.EndsLike own := by
    intro history ended foundEnded unasked done
    have endedSearch := wellFormedStarted.search_afterAll foundStarted history foundEnded
    exact ((reachableStarted.afterAll history).meetsFate foundEnded).endsLike ownMeets
      (by rw [endedSearch, startedSearch, same]) unasked ownUnasked done ownDone
  obtain ⟨later, foundLater, _⟩ := wellFormedStarted.exists_later foundStarted history
  obtain ⟨begunLater, _⟩ :=
    wellFormedStarted.stepsLeft_afterAll_le foundStarted begun history foundLater
  refine ⟨later, foundLater, ?_, ?_, ends history later foundLater, ?_⟩
  · intro letsRun
    rw [wellFormedStarted.cancelRequested_of_letsRun foundStarted letsRun foundLater,
      startedRequest, wellFormed.unasked_of_pending found pending]
  · intro enough
    refine wellFormedStarted.isDone_of_steps foundStarted begun ?_ foundLater
    rwa [stepsLeft, show (other.start twinId).find? twinId = _ from foundStarted] at enough
  · intro unasked
    have wellFormedLater := wellFormedStarted.afterAll history
    obtain ⟨times, steps, resumed, runs⟩ := exists_resumeFor_runsToEnd foundLater begunLater
    obtain ⟨last, foundLast, lastDone⟩ := wellFormedLater.isDone_of_runsToEnd runs
    have lastUnasked := (wellFormedLater.cancelRequested_of_letsRun foundLater
      (letsRun_workSteps twinId steps) foundLast).trans unasked
    refine ⟨times, last, (congrArg (·.find? twinId) resumed).trans foundLast, lastDone,
      ends (history ++ workSteps twinId steps) last ?_ lastUnasked lastDone⟩
    rw [afterAll_append]
    exact foundLast

/-- Nobody is told anything else of an entry for as long as nobody asks it to stop. -/
def ComesTo (store : Store) (id : EntryId) (answer : Outcome) : Prop :=
  ∀ history later outcome, (store.afterAll history).find? id = some later →
    later.cancelRequested = false → later.outcome? = some outcome → outcome = answer

/-- What an entry comes to it comes to whatever happens to the cache. -/
theorem ComesTo.afterAll {answer : Outcome} (comes : store.ComesTo id answer)
    (earlier : List StoreEvent) : (store.afterAll earlier).ComesTo id answer := by
  intro history later outcome found
  rw [← afterAll_append] at found
  exact comes (earlier ++ history) later outcome found

/-- An entry that is done and was not asked to stop has come to what it comes to. -/
theorem ComesTo.outcome_of_isDone {answer : Outcome} (comes : store.ComesTo id answer)
    (found : store.find? id = some entry) (unasked : entry.cancelRequested = false)
    (done : entry.isDone = true) : entry.outcome? = some answer := by
  obtain ⟨outcome, told⟩ := Entry.exists_outcome?_of_isDone done
  rw [told, comes [] entry outcome found unasked told]

/-- An entry whose worker takes its steps tells what it comes to, unless it was asked to stop. -/
theorem WellFormed.outcome_of_runsToEnd (wellFormed : store.WellFormed) {answer : Outcome}
    (comes : store.ComesTo id answer) {history : List StoreEvent}
    (runs : store.RunsToEnd history id) (found : (store.afterAll history).find? id = some entry)
    (unasked : entry.cancelRequested = false) : entry.outcome? = some answer := by
  obtain ⟨later, foundLater, done⟩ := wellFormed.isDone_of_runsToEnd runs
  rw [found, Option.some.injEq] at foundLater
  exact (comes.afterAll history).outcome_of_isDone found unasked (foundLater ▸ done)

/-- What an entry comes to is fixed by its search. -/
theorem Reachable.exists_comesTo (reachable : store.Reachable)
    (found : store.find? id = some entry) : ∃ answer, store.ComesTo id answer := by
  refine ⟨(entry.search.plainFate id).verdict.outcome, ?_⟩
  intro history later outcome foundLater unasked told
  have reachableLater := reachable.afterAll history
  rw [(reachableLater.meetsFate foundLater).outcome_eq unasked told,
    reachable.wellFormed.search_afterAll found history foundLater,
    (reachableLater.wellFormed.find?_eq_some_iff.mp foundLater).2]

section Submissions

variable {submitted : Submitted} {answer : Outcome}

/-- The entry that a submission is granted has not been asked to stop, and is one for the search if
it is new. -/
theorem WellFormed.exists_granted (wellFormed : store.WellFormed)
    (granted : (store.submit search).1 = .ok submitted) :
    ∃ entry, (store.after (.submit search)).find? submitted.id = some entry ∧
      entry.cancelRequested = false ∧
      (submitted = .created submitted.id → entry.search = search) := by
  cases submitted with
  | found id =>
    obtain ⟨entry, found, unasked⟩ := (wellFormed.uncancelled_of_hit granted).2
    refine ⟨entry, found, unasked, fun isCreated => ?_⟩
    cases isCreated
  | created id =>
    rcases wellFormed.submit_granted granted with ⟨_, isFound, _⟩ | ⟨isCreated, _, found⟩
    · cases isFound
    · injection isCreated with isNext
      exact ⟨_, isNext ▸ found, rfl, fun _ => rfl⟩

/-- A client that executes a new entry itself is told what the entry has come to after that. -/
theorem WellFormed.exists_get_eq (wellFormed : store.WellFormed)
    (granted : (store.submit search).1 = .ok submitted) :
    ∃ history, history.all StoreEvent.letsRun = true ∧
      (store.get search).1 =
        .ok (((store.after (.submit search)).afterAll history).outcome? submitted.id) := by
  have becomes : store.submit search = (.ok submitted, store.after (.submit search)) :=
    Prod.ext granted rfl
  cases submitted with
  | found id => exact ⟨[], rfl, by simp only [get, becomes, Submitted.id, afterAll_nil]⟩
  | created id =>
    obtain ⟨steps, executed⟩ := wellFormed.exists_execute_eq granted true
    refine ⟨.start id :: workSteps id steps, ?_,
      by simp only [get, becomes, executed, Submitted.id]⟩
    rw [List.all_cons, letsRun_workSteps]
    rfl

/-- A client that executes a new entry itself is told what the entry comes to. It is told nothing
if the entry was there and is not done. -/
theorem WellFormed.get_of_comesTo (wellFormed : store.WellFormed)
    (granted : (store.submit search).1 = .ok submitted)
    (comes : (store.after (.submit search)).ComesTo submitted.id answer) :
    (store.get search).1 = .ok (some answer) ∨
    (store.get search).1 = .ok none ∧ submitted = .found submitted.id ∧
      ∃ entry, (store.after (.submit search)).find? submitted.id = some entry ∧
        entry.isDone = false := by
  obtain ⟨entry, found, unasked, _⟩ := wellFormed.exists_granted granted
  have wellFormedGranted := wellFormed.after (.submit search)
  obtain ⟨history, letsRun, tells⟩ := wellFormed.exists_get_eq granted
  obtain ⟨later, foundLater, _⟩ := wellFormedGranted.exists_later found history
  have told : ((store.after (.submit search)).afterAll history).outcome? submitted.id =
      later.outcome? := by rw [outcome?, foundLater, Option.bind_some]
  rw [tells, told]
  cases isOutcome : later.outcome? with
  | some outcome =>
    have stillUnasked :=
      (wellFormedGranted.cancelRequested_of_letsRun found letsRun foundLater).trans unasked
    exact .inl (by rw [comes history later outcome foundLater stillUnasked isOutcome])
  | none =>
    refine .inr ⟨rfl, ?_⟩
    cases submitted with
    | created id =>
      obtain ⟨outcome, isTold, _⟩ := wellFormed.get_of_created granted
      rw [tells, told, isOutcome] at isTold
      cases isTold
    | found id =>
      refine ⟨rfl, entry, found, ?_⟩
      rw [← entry.isSome_outcome?, Option.isSome_eq_false_iff, Option.isNone_iff_eq_none]
      cases toldBefore : entry.outcome? with
      | none => rfl
      | some outcome =>
        have stillTold := wellFormedGranted.outcome?_afterAll
          (show _ = some outcome by rw [outcome?, found, Option.bind_some, toldBefore]) history
        rw [told, isOutcome] at stillTold
        cases stillTold

/-- The work on an entry takes none out of the cache, and asks none to stop. -/
theorem not_isWithdrawnIn_workSteps (store : Store) (id other : EntryId) (steps : Nat) :
    ¬store.IsWithdrawnIn (workSteps id steps) other := by
  induction steps generalizing store with
  | zero => exact not_isWithdrawnIn_nil
  | succ steps ih =>
    rw [workSteps, isWithdrawnIn_cons, isWithdrawnIn_cons, not_or, not_or]
    exact ⟨by simp [Withdraws, removes], by simp [Withdraws, removes], ih _⟩

/-- A client that does not wait is given its entry, on which there is some work if it is new. -/
theorem WellFormed.exists_getAsync_eq (wellFormed : store.WellFormed)
    (granted : (store.submit search).1 = .ok submitted) :
    ∃ history, store.getAsync search =
        (.ok submitted.id, (store.after (.submit search)).afterAll history) ∧
      ¬(store.after (.submit search)).IsWithdrawnIn history submitted.id ∧
      (submitted = .created submitted.id →
        ∃ steps, history = .start submitted.id :: workSteps submitted.id steps) := by
  have becomes : store.submit search = (.ok submitted, store.after (.submit search)) :=
    Prod.ext granted rfl
  cases submitted with
  | found id =>
    refine ⟨[], by simp only [getAsync, becomes, Submitted.id, afterAll_nil],
      not_isWithdrawnIn_nil, ?_⟩
    intro isCreated
    cases isCreated
  | created id =>
    obtain ⟨steps, executed⟩ := wellFormed.exists_execute_eq granted false
    refine ⟨.start id :: workSteps id steps,
      by simp only [getAsync, becomes, executed, Submitted.id], ?_, fun _ => ⟨steps, rfl⟩⟩
    rw [isWithdrawnIn_cons, not_or]
    exact ⟨by simp [Withdraws, removes], not_isWithdrawnIn_workSteps _ id id steps⟩

/-- The work of a client that does not wait changes nothing in what its entry comes to. -/
theorem WellFormed.comesTo_getAsync (wellFormed : store.WellFormed)
    (granted : (store.submit search).1 = .ok submitted)
    (comes : (store.after (.submit search)).ComesTo submitted.id answer) :
    (store.getAsync search).2.WellFormed ∧
      (store.getAsync search).2.ComesTo submitted.id answer := by
  obtain ⟨history, given, _⟩ := wellFormed.exists_getAsync_eq granted
  rw [given]
  exact ⟨(wellFormed.after (.submit search)).afterAll history, comes.afterAll history⟩

/-- The entry that a client was given that does not wait stands for the key of the search after
that, and the cache is open for it. -/
theorem WellFormed.stands_getAsync (wellFormed : store.WellFormed)
    (uses : store.usesCache search = true) (granted : (store.submit search).1 = .ok submitted) :
    (store.getAsync search).2.Stands search.key submitted.id ∧
      (store.getAsync search).2.isShutDown = false ∧
      (store.getAsync search).2.usesCache search = true := by
  obtain ⟨history, given, stays, _⟩ := wellFormed.exists_getAsync_eq granted
  have wellFormedGranted := wellFormed.after (.submit search)
  have stands := wellFormed.stands_of_granted uses granted
  rw [given]
  refine ⟨wellFormedGranted.stands_afterAll stands stays, ?_, ?_⟩
  · rw [wellFormedGranted.isShutDown_afterAll_of_stands stands stays,
      store.isShutDown_after (by simp), isOpen_of_granted granted]
  · rw [usesCache_afterAll, usesCache_after, uses]

/-- A new entry comes to the plain outcome of its search. -/
theorem WellFormed.contentOf_of_created (wellFormed : store.WellFormed)
    (granted : (store.submit search).1 = .ok (.created id))
    (comes : (store.after (.submit search)).ComesTo id answer) :
    contentOf answer = search.plainOutcome := by
  obtain ⟨outcome, told, isPlain⟩ := wellFormed.get_of_created granted
  rcases wellFormed.get_of_comesTo granted comes with isAnswer | ⟨isNone, _⟩
  · rw [told, Except.ok.injEq, Option.some.injEq] at isAnswer
    rw [← isAnswer, isPlain]
  · rw [told] at isNone
    cases isNone

/-- A client that waits for a search and that nothing interrupts but the work on its entry is told
this answer, be it that it executes the search itself or leaves it to run in the background. -/
structure TellsWaiting (store : Store) (search : Search) (submitted : Submitted)
    (answer : Outcome) : Prop where
  get : (store.get search).1 = .ok (some answer)
  clients : ∀ kind, kind.waits = true → ∃ steps, ((Site.opening store).afterAll
      ((Site.opening store).loneCall kind search submitted.id steps)).clients[0]? =
    some ⟨kind, search, .answered submitted answer⟩

/-- All clients that wait and that nothing interrupts are told what a client is told that executes
a new entry itself. -/
theorem WellFormed.tellsWaiting (wellFormed : store.WellFormed)
    (granted : (store.submit search).1 = .ok submitted)
    (told : (store.get search).1 = .ok (some answer)) :
    store.TellsWaiting search submitted answer := by
  refine ⟨told, fun kind waits => ?_⟩
  have becomes : (Site.opening store).store.submit search =
    (.ok submitted, store.after (.submit search)) := Prod.ext granted rfl
  cases submitted with
  | found id =>
    have isAnswer : (store.after (.submit search)).outcome? id = some answer := by
      simpa only [get, show store.submit search = _ from becomes, Except.ok.injEq] using told
    refine ⟨0, ?_⟩
    rw [Submitted.id, Site.afterAll_loneCall_of_found becomes kind]
    simp [Site.opening, Client.step, Client.next, waits, Submitted.id, isAnswer]
  | created id =>
    have isAnswer :
        ((store.after (.submit search)).execute id true).outcome? id = some answer := by
      simpa only [get, show store.submit search = _ from becomes, Except.ok.injEq] using told
    obtain ⟨steps, called⟩ := Site.afterAll_loneCall_of_created wellFormed becomes kind true
    refine ⟨steps, ?_⟩
    rw [Submitted.id, called]
    simp [Site.opening, Client.step, Client.next, waits, Submitted.id, isAnswer]

/-- Who waits for a search is told what the entry comes to that stood for its key and whose worker
has taken its steps, unless that was withdrawn. -/
theorem WellFormed.tellsWaiting_of_runsToEnd (wellFormed : store.WellFormed)
    (isOpen : store.isShutDown = false) (uses : store.usesCache search = true)
    (stands : store.Stands search.key id) (comes : store.ComesTo id answer)
    {history : List StoreEvent} (stays : ¬store.IsWithdrawnIn history id)
    (runs : store.RunsToEnd history id) :
    (store.afterAll history).TellsWaiting search (.found id) answer := by
  have wellFormedThen := wellFormed.afterAll history
  have standsThen := wellFormed.stands_afterAll stands stays
  have openThen := (wellFormed.isShutDown_afterAll_of_stands stands stays).trans isOpen
  have usesThen := (store.usesCache_afterAll history search).trans uses
  have answered := wellFormedThen.submit_of_stands openThen usesThen standsThen
  refine wellFormedThen.tellsWaiting answered ?_
  rw [wellFormedThen.get_of_stands openThen usesThen standsThen]
  obtain ⟨entry, registered, isEntry, _, unasked⟩ := standsThen
  have found := wellFormedThen.find?_eq_some_iff.mpr
    ⟨WellFormed.mem_entries_of_registered registered, isEntry⟩
  rw [outcome?, found, Option.bind_some, wellFormed.outcome_of_runsToEnd comes runs found unasked]

/-- A client that does not wait has started its entry if that is new. -/
theorem WellFormed.exists_started_of_created (wellFormed : store.WellFormed)
    (granted : (store.submit search).1 = .ok submitted)
    (isCreated : submitted = .created submitted.id) :
    ∃ entry, (store.getAsync search).2.find? submitted.id = some entry ∧ entry.slot ≠ .pending ∧
      entry.search = search ∧ entry.cancelRequested = false := by
  have wellFormedGranted := wellFormed.after (.submit search)
  have wellFormedStarted := wellFormedGranted.after (.start submitted.id)
  obtain ⟨entry, found, unasked, isSearch⟩ := wellFormed.exists_granted granted
  obtain ⟨history, given, _, isWork⟩ := wellFormed.exists_getAsync_eq granted
  obtain ⟨steps, rfl⟩ := isWork isCreated
  obtain ⟨started, foundStarted, begun, sameSearch, sameRequest⟩ :=
    wellFormedGranted.exists_started found
  obtain ⟨later, foundLater, begunLater⟩ := wellFormedStarted.find?_afterAll
    (fun entry => entry.slot ≠ .pending) Entry.slot_after_ne_pending foundStarted begun
    (workSteps submitted.id steps)
  refine ⟨later, by rw [given]; exact foundLater, begunLater, ?_, ?_⟩
  · rw [wellFormedStarted.search_afterAll foundStarted _ foundLater, sameSearch, isSearch isCreated]
  · rw [wellFormedStarted.cancelRequested_of_letsRun foundStarted
      (letsRun_workSteps submitted.id steps) foundLater, sameRequest, unasked]

/-- A search that is left to run in the background has this answer in the end. -/
structure IsAnsweredInBackground (store : Store) (search : Search) (submitted : Submitted)
    (answer : Outcome) : Prop where
  /-- The client is given the entry. -/
  getAsync : (store.getAsync search).1 = .ok submitted.id
  /-- This client is one that takes its steps without being interrupted. -/
  lone : ∃ id steps client,
    (Site.opening store).afterAll ((Site.opening store).loneCall .getAsync search id steps) =
      ⟨(store.getAsync search).2, [client]⟩ ∧
    client.search = search ∧ client.progress.given = .ok (some submitted.id)
  /-- It has started the entry if that is new. -/
  started : submitted = .created submitted.id →
    ∃ entry, (store.getAsync search).2.find? submitted.id = some entry ∧ entry.slot ≠ .pending ∧
      entry.search = search
  /-- If nobody asks the entry to stop it tells no other outcome, whatever happens to the cache, and
  it tells the answer once its worker has taken the steps that were left. -/
  told : ∀ history entry,
    ((store.getAsync search).2.afterAll history).find? submitted.id = some entry →
      entry.cancelRequested = false →
        (∀ outcome, entry.outcome? = some outcome → outcome = answer) ∧
        ((store.getAsync search).2.RunsToEnd history submitted.id → entry.outcome? = some answer)
  /-- A client that waits for the search after that is told the answer, unless the search bypasses
  the cache or the entry has been withdrawn. -/
  followed : store.usesCache search = true → ∀ history,
    ¬(store.getAsync search).2.IsWithdrawnIn history submitted.id →
      (store.getAsync search).2.RunsToEnd history submitted.id →
        ((store.getAsync search).2.afterAll history).TellsWaiting search (.found submitted.id)
          answer
  /-- A new entry comes to this if nothing happens to it but that it is resumed at its pauses. -/
  resumed : submitted = .created submitted.id → ∃ times,
    ((store.getAsync search).2.resumeFor submitted.id times).outcome? submitted.id = some answer ∧
    (store.usesCache search = true →
      ((store.getAsync search).2.resumeFor submitted.id times).TellsWaiting search
        (.found submitted.id) answer)
  /-- Where a later client has to execute the search anew, it comes to the same. -/
  again : submitted = .created submitted.id → ∀ history other,
    (((store.getAsync search).2.afterAll history).submit search).1 = .ok (.created other) →
      ∃ outcome, (((store.getAsync search).2.afterAll history).get search).1 = .ok (some outcome) ∧
        contentOf outcome = contentOf answer

/-- A search that is left to run in the background comes to what its entry comes to. -/
theorem WellFormed.isAnsweredInBackground (wellFormed : store.WellFormed)
    (granted : (store.submit search).1 = .ok submitted)
    (comes : (store.after (.submit search)).ComesTo submitted.id answer) :
    store.IsAnsweredInBackground search submitted answer := by
  obtain ⟨before, given, _⟩ := wellFormed.exists_getAsync_eq granted
  obtain ⟨wellFormedGiven, comesThen⟩ := wellFormed.comesTo_getAsync granted comes
  have followed : store.usesCache search = true → ∀ history,
      ¬(store.getAsync search).2.IsWithdrawnIn history submitted.id →
        (store.getAsync search).2.RunsToEnd history submitted.id →
          ((store.getAsync search).2.afterAll history).TellsWaiting search (.found submitted.id)
            answer := by
    intro uses history stays runs
    obtain ⟨stands, isOpen, usesThen⟩ := wellFormed.stands_getAsync uses granted
    exact wellFormedGiven.tellsWaiting_of_runsToEnd isOpen usesThen stands comesThen stays runs
  refine ⟨congrArg Prod.fst given, ?lone, ?started, ?told, followed, ?resumed, ?again⟩
  case lone =>
    have opened : (Site.opening store).store.WellFormed := wellFormed
    obtain ⟨id, steps, client, called, isSearch, isTold⟩ := Site.getAsync_alone opened search
    refine ⟨id, steps, client, called, isSearch, isTold.trans ?_⟩
    rw [Site.opening, given]
    rfl
  case started =>
    intro isCreated
    obtain ⟨entry, found, begun, isSearch, _⟩ :=
      wellFormed.exists_started_of_created granted isCreated
    exact ⟨entry, found, begun, isSearch⟩
  case told =>
    intro history entry found unasked
    exact ⟨fun outcome => comesThen history entry outcome found unasked,
      fun runs => wellFormedGiven.outcome_of_runsToEnd comesThen runs found unasked⟩
  case resumed =>
    intro isCreated
    obtain ⟨entry, found, begun, _, unasked⟩ :=
      wellFormed.exists_started_of_created granted isCreated
    obtain ⟨times, steps, resumed, runs⟩ := exists_resumeFor_runsToEnd found begun
    obtain ⟨later, foundLater, _⟩ :=
      wellFormedGiven.exists_later found (workSteps submitted.id steps)
    have stillUnasked := (wellFormedGiven.cancelRequested_of_letsRun found
      (letsRun_workSteps submitted.id steps) foundLater).trans unasked
    have isAnswer :=
      wellFormedGiven.outcome_of_runsToEnd comesThen runs foundLater stillUnasked
    refine ⟨times, ?_, fun uses => ?_⟩
    · rw [resumed, outcome?, foundLater, Option.bind_some, isAnswer]
    · rw [resumed]
      exact followed uses _ (not_isWithdrawnIn_workSteps _ _ _ steps) runs
  case again =>
    intro isCreated history other grantedAgain
    obtain ⟨outcome, told, isPlain⟩ :=
      (wellFormedGiven.afterAll history).get_of_created grantedAgain
    have isPlainFirst := wellFormed.contentOf_of_created (isCreated ▸ granted) comes
    exact ⟨outcome, told, isPlain.trans isPlainFirst.symm⟩

/-- What has become of a client that came first with a search for which it was granted an entry. -/
theorem WellFormed.exists_arrival (wellFormed : store.WellFormed)
    (granted : (store.submit search).1 = .ok submitted) (kind : CallKind)
    (events : List SiteEvent) :
    ∃ site client history,
      site = (Site.opening store).afterAll (.arrive kind search :: .step 0 :: events) ∧
      site.store = (store.after (.submit search)).afterAll history ∧ site.IsHonest ∧
      site.clients[0]? = some client ∧ client.kind = kind ∧ client.search = search ∧
      client.progress.submitted? = some submitted := by
  let arrived : Site :=
    ⟨store.after (.submit search), [(Client.arriving kind search).step store]⟩
  have isArrived : (Site.opening store).afterAll (.arrive kind search :: .step 0 :: events) =
      arrived.afterAll events :=
    congrArg (fun site : Site => site.afterAll events)
      (Site.after_step_last store [] (.arriving kind search))
  have isGrant : ((Client.arriving kind search).step store).grant? = some (search, submitted) := by
    simp only [Client.grant?, Client.step, Client.next, Client.arriving, granted]
    cases submitted <;> rfl
  have isFirst : arrived.clients[0]? = some ((Client.arriving kind search).step store) := rfl
  obtain ⟨client, isClient, sameKind, stays⟩ := Site.grant_stays events isFirst isGrant
  obtain ⟨given, isGiven, sameGrant⟩ := Option.map_eq_some_iff.mp stays
  rw [Prod.mk.injEq] at sameGrant
  refine ⟨_, client, arrived.trace events, rfl, ?_,
    (Site.isHonest_opening store).afterAll wellFormed _, ?_, sameKind, sameGrant.1,
    by rw [isGiven, sameGrant.2]⟩
  · rw [isArrived, Site.store_afterAll]
  · rw [isArrived, isClient]

/-- A search that was granted an entry has this answer, in whichever way it was submitted. -/
structure IsAnsweredBy (store : Store) (search : Search) (submitted : Submitted)
    (answer : Outcome) : Prop where
  /-- A client that waits is told the answer. There is none as yet if the entry was there and is not
  done. -/
  get : store.TellsWaiting search submitted answer ∨
    (store.get search).1 = .ok none ∧ submitted = .found submitted.id ∧
      ∃ entry, (store.after (.submit search)).find? submitted.id = some entry ∧
        entry.isDone = false
  /-- So it is with an entry that runs in the background. -/
  background : store.IsAnsweredInBackground search submitted answer
  /-- If nobody asks the entry to stop, a client that waits is told no other outcome, whatever
  happens while it waits and whichever way it came, and it is told the answer once the entry is
  done and the client has taken two more steps. -/
  clients : ∀ kind events entry,
    ((Site.opening store).afterAll (.arrive kind search :: .step 0 :: events)).store.find?
        submitted.id = some entry →
      entry.cancelRequested = false →
        (∀ given outcome,
          ((Site.opening store).afterAll (.arrive kind search :: .step 0 :: events)).clients[0]? =
              some ⟨kind, search, .answered given outcome⟩ →
            given = submitted ∧ outcome = answer) ∧
        (kind.waits = true → entry.isDone = true →
          ∀ more, 2 ≤ more.countP (SiteEvent.isStepOf 0) →
            ((Site.opening store).afterAll
                (.arrive kind search :: .step 0 :: events ++ more)).clients[0]? =
              some ⟨kind, search, .answered submitted answer⟩)

/-- A search that is granted an entry is answered by what the entry comes to. -/
theorem WellFormed.isAnsweredBy (wellFormed : store.WellFormed)
    (granted : (store.submit search).1 = .ok submitted)
    (comes : (store.after (.submit search)).ComesTo submitted.id answer) :
    store.IsAnsweredBy search submitted answer where
  get := (wellFormed.get_of_comesTo granted comes).imp_left (wellFormed.tellsWaiting granted)
  background := wellFormed.isAnsweredInBackground granted comes
  clients := by
    intro kind events entry found unasked
    obtain ⟨site, client, history, isSite, becomes, honest, isClient, sameKind, sameSearch,
      isGiven⟩ := wellFormed.exists_arrival granted kind events
    simp only [Site.afterAll_append, ← isSite] at found ⊢
    have foundThen := found
    rw [becomes] at foundThen
    constructor
    · intro given outcome isAnswered
      rw [isClient, Option.some.injEq] at isAnswered
      subst isAnswered
      obtain rfl : given = submitted := Option.some.inj isGiven
      have told := honest 0 _ given outcome isClient rfl
      rw [outcome?, found, Option.bind_some] at told
      exact ⟨rfl, comes history entry outcome foundThen unasked told⟩
    · intro waits done more enough
      have isAnswer := (comes.afterAll history).outcome_of_isDone foundThen unasked done
      have told : site.store.outcome? submitted.id = some answer := by
        rw [outcome?, found, Option.bind_some, isAnswer]
      have wellFormedThen : site.store.WellFormed :=
        becomes ▸ (wellFormed.after (.submit search)).afterAll history
      rw [honest.answered_of_steps wellFormedThen isClient (sameKind ▸ waits) isGiven told
        ((Progress.stepsToAnswer_le isGiven).trans enough), ← sameKind, ← sameSearch]

/-- A search that is granted an entry has one answer, in whichever way it was submitted. -/
theorem Reachable.exists_isAnsweredBy (reachable : store.Reachable)
    (granted : (store.submit search).1 = .ok submitted) :
    ∃ answer, store.IsAnsweredBy search submitted answer := by
  obtain ⟨entry, found, _⟩ := reachable.wellFormed.exists_granted granted
  obtain ⟨answer, comes⟩ := (reachable.after (.submit search)).exists_comesTo found
  exact ⟨answer, reachable.wellFormed.isAnsweredBy granted comes⟩

end Submissions

/-- A search that is refused is refused in whichever way it was submitted. -/
structure IsRefusedWith (store : Store) (search : Search) (refusal : Refusal) : Prop where
  get : (store.get search).1 = .error refusal
  getAsync : (store.getAsync search).1 = .error refusal
  clients : ∀ kind, ((Site.opening store).afterAll [.arrive kind search, .step 0]).clients =
    [⟨kind, search, .refused refusal⟩]

theorem isRefusedWith_of_submit {refusal : Refusal}
    (refused : (store.submit search).1 = .error refusal) : store.IsRefusedWith search refusal := by
  have becomes : store.submit search = (.error refusal, store.after (.submit search)) :=
    Prod.ext refused rfl
  refine ⟨get_of_refused refused, by simp only [getAsync, becomes], fun kind => ?_⟩
  refine (congrArg Site.clients (Site.after_step_last store [] (.arriving kind search))).trans ?_
  simp only [List.nil_append, Client.step, Client.next, Client.arriving, refused]

/-- Blocking and background execution agree. A pending entry that its client executes itself is
done after that, as it is when a caller takes the steps one by one; and every pending entry for the
same search, in any cache and with any history after its start, runs like it: if nobody asks it to
stop it ends with the same status, content of the outcome and stored hits, its search is done and
was executed once. So a search has the same answer from the same cache in whichever way it is
submitted. -/
theorem runs_agree_in_background (reachable : store.Reachable) :
    (∀ id entry, store.find? id = some entry → entry.status = .pending →
      ∃ own, (store.execute id true).find? id = some own ∧ own.isDone = true ∧
        (∃ steps, (Exchange.opening store).afterAll
            (.arrive id (.start true) :: .step 0 :: Exchange.loneExecution 0 steps) =
          ⟨store.execute id true, [⟨id, .start true, .returned none⟩]⟩) ∧
        ∀ (other : Store) twinId twin, other.Reachable → other.find? twinId = some twin →
          twin.status = .pending → twin.search = entry.search →
            (∀ isBlocking, ∃ steps, other.execute twinId isBlocking =
              (other.start twinId).afterAll (workSteps twinId steps)) ∧
            ∀ history, ∃ later,
              ((other.start twinId).afterAll history).find? twinId = some later ∧
                (other.start twinId).RunsLike twinId history later own) ∧
    (∀ search refusal, (store.submit search).1 = .error refusal →
      store.IsRefusedWith search refusal) ∧
    (∀ search submitted, (store.submit search).1 = .ok submitted →
      ∃ answer, store.IsAnsweredBy search submitted answer) := by
  refine ⟨?_, fun _ _ refused => isRefusedWith_of_submit refused,
    fun _ _ granted => reachable.exists_isAnsweredBy granted⟩
  intro id entry found pending
  obtain ⟨own, foundOwn, meets, done, unasked, ownSearch⟩ := reachable.exists_own found pending
  have ownPending : store.isPending id = true := by simp [isPending, found, pending]
  have opened : (Exchange.opening store).store.WellFormed := reachable.wellFormed
  refine ⟨own, foundOwn, done, Exchange.start_alone opened ownPending, ?_⟩
  intro other twinId twin otherReachable foundTwin twinPending sameSearch
  have isPending : other.isPending twinId = true := by simp [isPending, foundTwin, twinPending]
  refine ⟨fun isBlocking => ?_, otherReachable.exists_runsLike foundTwin twinPending meets done
    unasked (sameSearch.trans ownSearch.symm)⟩
  obtain ⟨steps, executed, _⟩ := exists_execute_eq_of_isPending isPending isBlocking
  exact ⟨steps, executed⟩

/-- A search that pauses once it has reported hits. -/
def pausingSearch : Search where
  key := ⟨"small", "slow", false⟩
  cacheable := true
  hits := 3
  script := [.reportHits 7, .pause, .checkpoint]

/-- The work on the first entry, in the course of which it is removed and the cache is cleared. -/
def disturbedWork : List StoreEvent :=
  [.advance 1, .advance 1, .remove pausingSearch.key, .advance 1, .submit (plainSearch "other"),
    .clear false, .advance 1, .touch 1, .advance 1, .overview, .advance 1, .advance 1, .advance 1]

theorem runs_agree_in_background_when_removed :
    ∃ own, ((freshStore.addEntry pausingSearch).execute 1 true).find? 1 = some own ∧
      own.storedHits = 7 ∧
      ∃ later,
        (((freshStore.after (.submit pausingSearch)).start 1).afterAll disturbedWork).find? 1 =
          some later ∧ later.EndsLike own ∧
      ∃ answer, freshStore.IsAnsweredBy pausingSearch (.created 1) answer := by
  have fresh : freshStore.Reachable := ⟨_, _, _, _, [], create_freshStore, rfl⟩
  obtain ⟨own, foundOwn, _, _, runs⟩ :=
    (runs_agree_in_background (fresh.after (.addEntry pausingSearch))).1 1 _ rfl rfl
  obtain ⟨later, foundLater, like⟩ :=
    (runs _ 1 _ (fresh.after (.submit pausingSearch)) rfl rfl rfl).2 disturbedWork
  refine ⟨own, foundOwn, ?_, later, foundLater, ?_,
    (runs_agree_in_background fresh).2.2 pausingSearch (.created 1) rfl⟩
  · cases foundOwn
    rfl
  · have unasked : later.cancelRequested = false := by
      cases foundLater
      rfl
    refine like.endsLike unasked (like.done ?_)
    decide

end SweptCache.Store
