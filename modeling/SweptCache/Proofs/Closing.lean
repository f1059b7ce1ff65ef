import SweptCache.Proofs.Deduplication
import SweptCache.Proofs.SingleAssignment

/-!
# Shutting down is final

Once a cache has been shut down it is `IsClosed`: nothing is registered, every
lookup is refused and leaves it as it is, and no event opens it again. What was
registered until then is done or has been asked to stop. An entry that its
client had been given but had not yet started (`AwaitsStart`) is cancelled, and
the start that the client goes on to make comes too late.
-/

namespace SweptCache

namespace Store

variable {store : Store} {id : EntryId} {entry : Entry}

/-- An entry that no event of a history starts is as much started as it was. -/
theorem WellFormed.started_afterAll (wellFormed : store.WellFormed)
    (found : store.find? id = some entry) {history : List StoreEvent}
    (none : .start id ∉ history) :
    ∃ later, (store.afterAll history).find? id = some later ∧ later.started = entry.started := by
  induction history generalizing store entry with
  | nil => exact ⟨entry, found, rfl⟩
  | cons event rest ih =>
    rw [List.mem_cons, not_or] at none
    have notNow : .start ∉ store.effects event entry := by
      intro starts
      have isStart := eq_source_of_mem_effects starts rfl
      rw [(wellFormed.find?_eq_some_iff.mp found).2] at isStart
      exact none.1 isStart.symm
    obtain ⟨later, isLater, same⟩ :=
      ih (wellFormed.after event) (wellFormed.find?_after found event) none.2
    exact ⟨later, isLater, same.trans (Entry.started_afterAll_of_notMem notNow)⟩

/-- A cache that has been shut down. -/
structure IsClosed (store : Store) : Prop where
  isShutDown : store.isShutDown = true
  registrations : store.registrations = []

/-- Shutting a cache down closes it. -/
theorem isClosed_shutDown (store : Store) : store.shutDown.IsClosed := ⟨rfl, rfl⟩

/-- A closed cache turns every submission away and stays as it is. -/
theorem IsClosed.submit_eq (closed : store.IsClosed) (search : Search) :
    store.submit search = (.error (.error .shutDown), store) := by
  rw [submit, if_pos closed.isShutDown]

/-- No event opens a closed cache. -/
theorem IsClosed.after (closed : store.IsClosed) (event : StoreEvent) :
    (store.after event).IsClosed where
  isShutDown := by
    cases event with
    | shutDown => rfl
    | _ => exact (store.isShutDown_after (by simp)).trans closed.isShutDown
  registrations := by
    have addsNone : store.registers event = none := by
      cases event with
      | submit search => simp only [registers, closed.submit_eq]
      | _ => rfl
    have same := store.registrations_after event
    rw [addsNone, closed.registrations] at same
    exact same.eq_nil

/-- No history opens a closed cache. -/
theorem IsClosed.afterAll (closed : store.IsClosed) (history : List StoreEvent) :
    (store.afterAll history).IsClosed := by
  induction history generalizing store with
  | nil => exact closed
  | cons event rest ih => exact ih (closed.after event)

/-- A sweep of a closed cache succeeds, and finds nothing to do. -/
theorem IsClosed.sweep_eq (closed : store.IsClosed) :
    ∃ swept, store.sweep = (.ok ⟨0, 0, 0, 0, 0⟩, swept) ∧ swept.entries = store.entries ∧
      swept.registrations = [] := by
  have noEntries : store.registeredEntries = [] := by
    rw [registeredEntries, closed.registrations]
    rfl
  have planned : store.plan = .ok ⟨[], 0⟩ := by
    rw [Store.plan, candidates, noEntries]
    simp only [Plan.make, rank, List.map_nil, List.zipIdx_nil, List.mergeSort_nil]
    rfl
  have noRemovals : store.sweepRemovals = [] := by
    simp only [sweepRemovals, planned]
    rfl
  have noEffects : ∀ entry, store.sweepEffects entry = [] := by
    intro entry
    simp [sweepEffects, registeredIds, closed.registrations, isAbortedBySweep, noRemovals]
  have entries : store.sweep.2.entries = store.entries := by
    simp [entries_sweep, noEffects]
  have registrations : store.sweep.2.registrations = [] := by
    rw [registrations_sweep, closed.registrations]
    rfl
  have noneLeft : store.sweep.2.registeredEntries = [] := by
    rw [registeredEntries, registrations]
    rfl
  have summary : store.sweep.1 = .ok ⟨0, 0, 0, 0, 0⟩ := by
    rw [sweep_fst_of_plan planned, Store.summary, sizeBytes, size, noneLeft, registrations]
    rfl
  exact ⟨store.sweep.2, Prod.ext summary rfl, entries, registrations⟩

/-- Shutting a closed cache down again changes nothing. -/
theorem IsClosed.shutDown_eq (closed : store.IsClosed) : store.shutDown = store := by
  obtain ⟨settings, policy, entries, registrations, memory, clock, isShutDown, lastReport,
    lastListing, reports⟩ := store
  obtain ⟨rfl, rfl⟩ := closed
  simp [shutDown, clear, updateAll, registeredIds]

/-- A registered entry is done or asked to stop once the cache has been shut down. -/
theorem WellFormed.stopped_by_shutDown (wellFormed : store.WellFormed)
    (registered : entry ∈ store.registeredEntries) (history : List StoreEvent) :
    ∃ later, ((store.after .shutDown).afterAll history).find? entry.id = some later ∧
      (later.searchDone = true ∨ later.cancelRequested = true) := by
  obtain ⟨member, registeredId⟩ := wellFormed.mem_registeredEntries_iff.mp registered
  have found := wellFormed.find?_eq_some_iff.mpr ⟨member, rfl⟩
  have leaves : store.Leaves .shutDown entry.id := by
    refine ⟨registeredId, ?_⟩
    simp [Store.after, registeredIds, store.isClosed_shutDown.registrations]
  refine (wellFormed.after .shutDown).find?_afterAll
    (fun later => later.searchDone = true ∨ later.cancelRequested = true) ?_
    (wellFormed.find?_after found .shutDown) (wellFormed.stopped_of_leaves found leaves rfl) history
  intro now earlier event stopped
  rcases stopped with done | requested
  · exact .inl (Entry.searchDone_after now earlier event done)
  · exact .inr (Entry.cancelRequested_after now earlier event requested)

/-- A registered entry that has not been started when the cache is shut down is cancelled, and
never executed. -/
theorem WellFormed.cancelled_by_shutDown (wellFormed : store.WellFormed)
    (registered : entry ∈ store.registeredEntries) (unstarted : entry.started = none)
    (history : List StoreEvent) :
    ∃ later, ((store.after .shutDown).afterAll history).find? entry.id = some later ∧
      later.status = .cancelled ∧ later.executions = 0 := by
  obtain ⟨member, registeredId⟩ := wellFormed.mem_registeredEntries_iff.mp registered
  have found := wellFormed.find?_eq_some_iff.mpr ⟨member, rfl⟩
  have cancelled : ∃ closed, (store.after .shutDown).find? entry.id = some closed ∧
      closed.IsSettled .cancelled ∧ closed.executions = 0 := by
    rcases (wellFormed.coherent entry member).unstarted_cases unstarted with
      pending | ⟨settled, never⟩
    · refine ⟨_, wellFormed.find?_after found .shutDown, ?_⟩
      have effects : store.effects .shutDown entry = [.cancel] := by
        simp [Store.effects, registeredId, pending.searchDone]
      rw [effects, Entry.afterAll_cons, Entry.afterAll_nil]
      refine pending.settled_of_requested ?_
      rw [Entry.after, Entry.cancel, pending.slot]
    · obtain ⟨closed, isClosed, frozen⟩ := wellFormed.frozen_afterAll found settled [.shutDown]
      exact ⟨closed, isClosed, frozen.settled, frozen.executions.trans never⟩
  obtain ⟨closed, isClosed, settled, never⟩ := cancelled
  obtain ⟨later, isLater, frozen⟩ :=
    (wellFormed.after .shutDown).frozen_afterAll isClosed settled history
  refine ⟨later, isLater, ?_, frozen.executions.trans never⟩
  rw [Entry.status, frozen.settled.slot, Slot.status]

end Store

namespace Site

variable {site : Site} {id : EntryId}

/-- No two clients were given an entry as new. -/
theorem IsSound.creator_unique (sound : site.IsSound) {first second : Nat} {client other : Client}
    (isClient : site.clients[first]? = some client) (isOther : site.clients[second]? = some other)
    (created : client.progress.submitted? = some (.created id))
    (createdToo : other.progress.submitted? = some (.created id)) : first = second := by
  have isGrant : client.grant? = some (client.search, .created id) := by
    rw [Client.grant?, created]
    rfl
  have otherGrant : other.grant? = some (other.search, .created id) := by
    rw [Client.grant?, createdToo]
    rfl
  have once := List.pairwise_iff_getElem.mp (List.pairwise_filterMap.mp sound.accounts.once)
  obtain ⟨firstWithin, rfl⟩ := List.getElem?_eq_some_iff.mp isClient
  obtain ⟨secondWithin, rfl⟩ := List.getElem?_eq_some_iff.mp isOther
  by_contra distinct
  rcases Nat.lt_or_gt_of_ne distinct with before | after
  · exact once first second firstWithin secondWithin before _ isGrant _ otherGrant id rfl rfl
  · exact once second first secondWithin firstWithin after _ otherGrant _ isGrant id rfl rfl

/-- An entry that a client is about to start has not been started yet. -/
def AwaitsStart (site : Site) (id : EntryId) : Prop :=
  ∀ client ∈ site.clients, client.progress = .starting id →
    ∃ entry, site.store.find? id = some entry ∧ entry.started = none

/-- An entry is started by a client to whom it was given as new, or by somebody who holds it. -/
theorem starter_of_mem_storeEvents {event : SiteEvent}
    (starts : .start id ∈ site.storeEvents event) :
    event = .happen (.start id) ∨
      ∃ index client, event = .step index ∧ site.clients[index]? = some client ∧
        client.progress = .starting id := by
  cases event with
  | arrive kind search => cases starts
  | happen event =>
    simp only [storeEvents] at starts
    split at starts
    · cases starts
    · exact .inl (by rw [List.mem_singleton.mp starts])
  | step index =>
    right
    simp only [storeEvents] at starts
    cases isClient : site.clients[index]? with
    | none => simp [isClient] at starts
    | some client =>
      refine ⟨index, client, rfl, isClient, ?_⟩
      rw [isClient, Option.map_some, Option.getD_some] at starts
      obtain ⟨kind, search, progress⟩ := client
      cases progress with
      | starting own => simpa [Client.events, eq_comm] using starts
      | submitting => simp [Client.events] at starts
      | holding | refused | answered => cases starts

/-- A client that is about to start an entry after an event has just been given it as new, or was
about to start it before, and then the event does not start it unless somebody else does. -/
theorem IsSound.starting_cases (sound : site.IsSound) {event : SiteEvent}
    (notByOthers : event ≠ .happen (.start id)) {client : Client}
    (member : client ∈ (site.after event).clients) (starting : client.progress = .starting id) :
    (∃ search, site.storeEvents event = [.submit search] ∧
      (site.store.submit search).1 = .ok (.created id)) ∨
    ∃ before ∈ site.clients, before.progress = .starting id ∧
      .start id ∉ site.storeEvents event := by
  obtain ⟨index, isClient⟩ := List.mem_iff_getElem?.mp member
  rcases client_after_cases isClient with ⟨before, isBefore, same | ⟨isTurn, stepped⟩⟩ |
    ⟨kind, search, arrives⟩
  · subst same
    refine .inr ⟨client, List.mem_of_getElem? isBefore, starting, ?_⟩
    intro starts
    rcases starter_of_mem_storeEvents starts with byOthers |
      ⟨turn, starter, rfl, isStarter, isStarting⟩
    · exact notByOthers byOthers
    · -- The starter is this very client, whose step leaves it holding the entry.
      have sameTurn : turn = index := sound.creator_unique isStarter isBefore
        (by rw [isStarting]; rfl) (by rw [starting]; rfl)
      subst sameTurn
      have becomes : (site.after (.step turn)).clients[turn]? = some (client.step site.store) := by
        simp [after, clientsAfter, isBefore]
      rw [becomes, Option.some.injEq] at isClient
      have holds : (client.step site.store).progress = .holding (.created id) := by
        rw [Client.step, Client.next, starting]
      rw [isClient, starting] at holds
      cases holds
  · subst stepped
    have storeEvents : site.storeEvents event = before.events := by
      simp [isTurn, Site.storeEvents, isBefore]
    obtain ⟨kind, search, progress⟩ := before
    cases progress with
    | submitting =>
      refine .inl ⟨search, storeEvents, ?_⟩
      simp only [Client.step, Client.next] at starting
      split at starting
      · cases starting
      · cases starting
      next granted =>
        injection starting with same
        rw [granted, same]
    | starting own => cases starting
    | refused refusal => cases starting
    | answered submitted outcome => cases starting
    | holding submitted =>
      simp only [Client.step, Client.next] at starting
      split at starting
      · split at starting <;> cases starting
      · cases starting
  · rw [arrives] at starting
    cases starting

/-- Nobody else having started it, an entry that a client is about to start has not been started. -/
theorem AwaitsStart.afterAll (awaits : site.AwaitsStart id) (sound : site.IsSound)
    {events : List SiteEvent} (notByOthers : .happen (.start id) ∉ events) :
    (site.afterAll events).AwaitsStart id := by
  induction events generalizing site with
  | nil => exact awaits
  | cons event rest ih =>
    rw [List.mem_cons, not_or] at notByOthers
    refine ih ?_ (sound.afterAll [event]) notByOthers.2
    intro client member starting
    rcases sound.starting_cases (Ne.symm notByOthers.1) member starting with
      ⟨search, submits, granted⟩ | ⟨before, isBefore, startingBefore, notNow⟩
    · rcases sound.wellFormed.submit_granted granted with ⟨entry, isFound, _⟩ |
        ⟨isCreated, _, found⟩
      · cases isFound
      · injection isCreated with isNext
        refine ⟨.make site.store.nextId search site.store.clock, ?_, rfl⟩
        rw [after, submits, isNext]
        exact found
    · obtain ⟨entry, found, unstarted⟩ := awaits before isBefore startingBefore
      obtain ⟨later, isLater, same⟩ := sound.wellFormed.started_afterAll found notNow
      exact ⟨later, isLater, same.trans unstarted⟩

/-- A client that comes to look its search up at a closed cache is refused, and leaves the cache as
it is. -/
theorem refused_of_isClosed (closed : site.store.IsClosed) {index : Nat} {client : Client}
    (isClient : site.clients[index]? = some client) (submitting : client.progress = .submitting) :
    (site.after (.step index)).store = site.store ∧
      (site.after (.step index)).clients[index]? =
        some { client with progress := .refused (.error .shutDown) } := by
  constructor
  · have storeEvents : site.storeEvents (.step index) = [.submit client.search] := by
      simp [Site.storeEvents, isClient, Client.events, submitting]
    rw [after, storeEvents, Store.afterAll_cons, Store.afterAll_nil, Store.after, closed.submit_eq]
  · have refused : client.next site.store = .refused (.error .shutDown) := by
      rw [Client.next, submitting, closed.submit_eq]
    simp [after, clientsAfter, isClient, Client.step, refused]

/-- A shutdown is final, whatever the clients, the workers and the cache have begun before it and
go on to do after it. From then on nothing is registered. Every client that looks its search up is
refused, and the cache stays as it is. What was registered until then is done or asked to stop. Of
that, what nobody had started is cancelled and never executed, though a client may go on to start
it that had been given it as new. Sweeps find nothing to do, and another shutdown changes
nothing. -/
theorem shutdown_is_final {settings : Settings} {policy : Policy} {memory : MemoryReadings}
    {initial : Store} (created : Store.create settings policy memory = .ok initial)
    {earlier later : List SiteEvent} {before last : Site}
    (isBefore : before = (opening initial).afterAll earlier)
    (isLast : last = (before.after (.happen .shutDown)).afterAll later) :
    (last.store.isShutDown = true ∧ last.store.registrations = []) ∧
    (∀ (index : Nat) (client : Client), last.clients[index]? = some client →
      client.progress = .submitting →
        (last.after (.step index)).store = last.store ∧
        (last.after (.step index)).clients[index]? =
          some { client with progress := .refused (.error .shutDown) }) ∧
    (∀ entry ∈ before.store.registeredEntries,
      ∃ final, last.store.find? entry.id = some final ∧
        (final.searchDone = true ∨ final.cancelRequested = true) ∧
        (entry.status = .pending → final.status = .cancelled ∧ final.executions = 0) ∧
        (∀ client ∈ before.clients, client.progress = .starting entry.id →
          .happen (.start entry.id) ∉ earlier →
            final.status = .cancelled ∧ final.executions = 0)) ∧
    (∃ swept, last.store.sweep = (.ok ⟨0, 0, 0, 0, 0⟩, swept) ∧
      swept.entries = last.store.entries ∧ swept.registrations = []) ∧
    last.store.shutDown = last.store := by
  have openingSite : (opening initial).Reachable :=
    ⟨settings, policy, memory, initial, [], created, rfl⟩
  have sound : before.IsSound := isBefore ▸ openingSite.isSound.afterAll earlier
  have isHistory : ∃ history, last.store = (before.store.after .shutDown).afterAll history :=
    ⟨_, by rw [isLast, store_afterAll]; rfl⟩
  obtain ⟨history, isHistory⟩ := isHistory
  have closed : last.store.IsClosed := isHistory ▸ before.store.isClosed_shutDown.afterAll history
  refine ⟨⟨closed.isShutDown, closed.registrations⟩, ?_, ?_, closed.sweep_eq, closed.shutDown_eq⟩
  · intro index client isClient submitting
    exact refused_of_isClosed closed isClient submitting
  · intro entry registered
    obtain ⟨final, isFinal, stopped⟩ := sound.wellFormed.stopped_by_shutDown registered history
    have neverExecuted : entry.started = none →
        final.status = .cancelled ∧ final.executions = 0 := by
      intro unstarted
      obtain ⟨cancelled, isCancelled, settles⟩ :=
        sound.wellFormed.cancelled_by_shutDown registered unstarted history
      rw [isFinal, Option.some.injEq] at isCancelled
      exact isCancelled ▸ settles
    obtain ⟨member, _⟩ := sound.wellFormed.mem_registeredEntries_iff.mp registered
    rw [isHistory]
    refine ⟨final, isFinal, stopped, ?_, ?_⟩
    · intro isPending
      exact neverExecuted
        ((sound.wellFormed.coherent entry member).isPending_iff.mp isPending).started
    · intro client isClient starting notByOthers
      have awaits : before.AwaitsStart entry.id := by
        rw [isBefore]
        refine AwaitsStart.afterAll ?_ openingSite.isSound notByOthers
        intro client member
        cases member
      obtain ⟨same, isSame, unstarted⟩ := awaits client isClient starting
      rw [sound.wellFormed.find?_eq_some_iff.mpr ⟨member, rfl⟩, Option.some.injEq] at isSame
      exact neverExecuted (isSame ▸ unstarted)

/-- Two clients have been given new entries, and one of them has started its own. -/
def caughtByShutdown : List SiteEvent :=
  [.arrive .get (Store.plainSearch "first"), .arrive .search (Store.plainSearch "second"), .step 0,
    .step 1, .step 1, .happen (.advance 2)]

/-- The other one starts its entry as well, and a third client comes. -/
def tooLate : List SiteEvent :=
  [.step 0, .happen (.advance 1), .happen .sweep, .arrive .get (Store.plainSearch "third")]

theorem shutdown_is_final_for_caught_client :
    ∃ before last : Site,
      before = (opening Store.freshStore).afterAll caughtByShutdown ∧
        last = (before.after (.happen .shutDown)).afterAll tooLate ∧
        before.store.registeredIds = [1, 2] ∧ last.store.registrations = [] ∧
        (last.after (.step 2)).clients[2]? =
          some ⟨.get, Store.plainSearch "third", .refused (.error .shutDown)⟩ ∧
        ∃ final, last.store.find? 1 = some final ∧ final.status = .cancelled ∧
          final.executions = 0 := by
  have registered : Entry.make 1 (Store.plainSearch "first") .start ∈
      ((opening Store.freshStore).afterAll caughtByShutdown).store.registeredEntries := .head _
  obtain ⟨⟨_, isEmpty⟩, refused, stopped, _⟩ := @shutdown_is_final _ _ _ _ Store.create_freshStore
    caughtByShutdown tooLate _ _ rfl rfl
  refine ⟨_, _, rfl, rfl, rfl, isEmpty, (refused 2 _ rfl rfl).2, ?_⟩
  obtain ⟨final, isFinal, _, _, cancelled⟩ := stopped _ registered
  exact ⟨final, isFinal, cancelled ⟨.get, Store.plainSearch "first", .starting 1⟩ (.head _) rfl
    (by simp [caughtByShutdown])⟩

end Site

end SweptCache
