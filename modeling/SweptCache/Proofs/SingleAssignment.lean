import SweptCache.Proofs.Reachability
import SweptCache.Store.Calls

/-!
# An entry settles once

However the calls on an entry, the steps of its worker and the events of the
cache are interleaved, its status makes only the `Moves` of an entry's life, its
search is executed once at most, and what it has settled with is final
(`Entry.after_of_settled`). One event of the cache brings an entry one event of
its own at most, apart from a score that is remembered
(`Store.exists_afterAll_effects_eq`), which carries these facts from entries to
histories. Callers are told outcomes that their entries have settled with, so
all of them are told the same.
-/

namespace SweptCache

/-- The moves that the status of an entry makes in the course of its life. -/
inductive Status.Moves : Status → Status → Prop where
  | starts : Moves .pending .running
  | neverStarts : Moves .pending .cancelled
  | succeeds : Moves .running .done
  | fails : Moves .running .failed
  | stops : Moves .running .cancelled

namespace Entry

variable {entry : Entry} {now : Instant}

/-- All that an event does to a settled entry is to note that it was asked for or scored, or that
its token was tripped. -/
theorem IsSettled.after_eq {verdict : Verdict} (settled : entry.IsSettled verdict) (now : Instant)
    (event : EntryEvent) :
    ∃ isAsked lastAccess worthiness,
      entry.after now event =
        { entry with
          cancelRequested := isAsked, lastAccess := lastAccess, worthiness := worthiness } ∧
      (entry.cancelRequested = true → isAsked = true) := by
  have unchanged : ∀ later, later = entry → ∃ isAsked lastAccess worthiness,
      later = { entry with
        cancelRequested := isAsked, lastAccess := lastAccess, worthiness := worthiness } ∧
      (entry.cancelRequested = true → isAsked = true) :=
    fun _ same =>
      ⟨entry.cancelRequested, entry.lastAccess, entry.worthiness, same, fun asked => asked⟩
  cases event with
  | start => exact unchanged _ (by simp only [after, start, settled.slot])
  | advance => exact unchanged _ (Coherent.advance_of_no_worker settled.worker)
  | cancel => exact unchanged _ (by simp only [after, cancel, settled.slot])
  | trip =>
    have tripped : entry.trip = { entry with cancelRequested := true } := by
      simp only [trip, settled.slot]
    exact ⟨true, entry.lastAccess, entry.worthiness, tripped, fun _ => rfl⟩
  | touch => exact ⟨entry.cancelRequested, now, entry.worthiness, rfl, fun asked => asked⟩
  | remember score =>
    exact ⟨entry.cancelRequested, entry.lastAccess, score, rfl, fun asked => asked⟩

/-- An entry that has settled as another did, with the same hits and after as many executions. -/
structure IsFrozenAs (later entry : Entry) (verdict : Verdict) : Prop where
  settled : later.IsSettled verdict
  storedHits : later.storedHits = entry.storedHits
  executions : later.executions = entry.executions

/-- A settled entry stays frozen, whatever befalls it. -/
theorem IsFrozenAs.after {later : Entry} {verdict : Verdict}
    (frozen : later.IsFrozenAs entry verdict) (event : EntryEvent) :
    (later.after now event).IsFrozenAs entry verdict := by
  obtain ⟨isAsked, lastAccess, worthiness, becomes, stays⟩ := frozen.settled.after_eq now event
  rw [becomes]
  exact ⟨{ frozen.settled with cancelled := fun same => stays (frozen.settled.cancelled same) },
    frozen.storedHits, frozen.executions⟩

/-- The status of a settled entry is the one that its verdict calls for. -/
theorem status_of_slot {verdict : Verdict} (slot : entry.slot = .settled verdict) :
    entry.status = .done ∨ entry.status = .failed ∨ entry.status = .cancelled := by
  cases verdict <;> simp [status, slot, Slot.status]

/-- An event leaves the status of an entry as it is, or moves it on. -/
theorem Coherent.status_after (coherent : entry.Coherent) (event : EntryEvent) :
    (entry.after now event).status = entry.status ∨
      entry.status.Moves (entry.after now event).status := by
  cases coherent with
  | pending pending =>
    have isPending := pending.status_eq
    cases event with
    | start =>
      right
      have started : (entry.after now .start).status = .running := by
        simp [Entry.after, Entry.start, pending.slot, status, Slot.status]
      rw [isPending, started]
      exact .starts
    | cancel =>
      right
      have cancelled : (entry.after now .cancel).status = .cancelled := by
        simp [Entry.after, Entry.cancel, pending.slot, status, Slot.status]
      rw [isPending, cancelled]
      exact .neverStarts
    | advance =>
      left
      rw [Entry.after, advance_of_no_worker pending.worker]
    | trip =>
      left
      rw [Entry.after, pending.trip_eq]
    | touch | remember => exact .inl rfl
  | running stage running =>
    have isRunning := running.status_eq
    have begun : (entry.after now event).slot ≠ .pending :=
      slot_after_ne_pending now entry event (by simp [running.slot])
    cases slot : (entry.after now event).slot with
    | pending => exact absurd slot begun
    | running =>
      left
      rw [isRunning, status, slot, Slot.status]
    | settled verdict =>
      right
      rw [isRunning]
      rcases status_of_slot slot with isDone | isFailed | isCancelled
      · rw [isDone]
        exact .succeeds
      · rw [isFailed]
        exact .fails
      · rw [isCancelled]
        exact .stops
  | settled verdict settled =>
    left
    obtain ⟨_, _, _, becomes, _⟩ := settled.after_eq now event
    rw [becomes]
    rfl

/-- A pending entry that an event asks to stop settles without having been executed. -/
theorem IsPending.settled_of_requested (pending : entry.IsPending) {event : EntryEvent}
    (asked : (entry.after now event).cancelRequested = true) :
    (entry.after now event).IsSettled .cancelled ∧ (entry.after now event).executions = 0 := by
  cases event with
  | cancel =>
    simp only [Entry.after, cancel, pending.slot]
    exact ⟨⟨rfl, pending.worker, rfl, rfl, fun _ => rfl,
      .inr ⟨pending.started, pending.executions, rfl⟩⟩, pending.executions⟩
  | trip =>
    rw [Entry.after, pending.trip_eq, pending.cancelRequested] at asked
    cases asked
  | start | advance | touch | remember =>
    rw [cancelRequested_after_of_not_request now entry rfl, pending.cancelRequested] at asked
    cases asked

/-- An entry is pending for clients when it is pending. -/
theorem Coherent.isPending_iff (coherent : entry.Coherent) :
    entry.status = .pending ↔ entry.IsPending := by
  constructor
  · intro isPending
    cases coherent with
    | pending pending => exact pending
    | running stage running => simp [running.status_eq] at isPending
    | settled verdict settled =>
      rcases status_of_slot settled.slot with isDone | isFailed | isCancelled <;> simp_all
  · exact IsPending.status_eq

end Entry

namespace Store

variable {store : Store} {id : EntryId} {entry : Entry}

/-- A sweep remembers a score of an entry and cancels it at most. -/
theorem exists_afterAll_sweepEffects_eq (store : Store) (now : Instant) (entry : Entry) :
    ∃ score event?, entry.afterAll now (store.sweepEffects entry) =
      (entry.rememberWorthiness score).afterAll now (Option.toList event?) := by
  have scored : ∃ score, entry.afterAll now (if store.registeredIds.contains entry.id then
      [.remember (store.policy (entry.stats store.clock))] else []) =
        entry.rememberWorthiness score := by
    split
    · exact ⟨_, rfl⟩
    · exact ⟨entry.worthiness, rfl⟩
  obtain ⟨score, isScored⟩ := scored
  rw [sweepEffects, Entry.afterAll_append, isScored]
  split
  · exact ⟨score, some .cancel, rfl⟩
  · exact ⟨score, none, rfl⟩

/-- An event of the cache brings an entry one event at most, besides a score that is
remembered. -/
theorem exists_afterAll_effects_eq (store : Store) (now : Instant) (event : StoreEvent)
    (entry : Entry) :
    ∃ score event?, entry.afterAll now (store.effects event entry) =
      (entry.rememberWorthiness score).afterAll now (Option.toList event?) := by
  have one : ∀ holds : Bool, ∀ single : EntryEvent, ∃ score event?,
      entry.afterAll now (if holds then [single] else []) =
        (entry.rememberWorthiness score).afterAll now (Option.toList event?) := by
    intro holds single
    cases holds with
    | true => exact ⟨entry.worthiness, some single, rfl⟩
    | false => exact ⟨entry.worthiness, none, rfl⟩
  cases event with
  | submit search =>
    simp only [effects]
    split
    · exact ⟨entry.worthiness, some .touch, rfl⟩
    · split
      · exact exists_afterAll_sweepEffects_eq ..
      · exact ⟨entry.worthiness, none, rfl⟩
  | sweep => exact exists_afterAll_sweepEffects_eq ..
  | start target => simpa [effects] using one (decide (entry.id = target)) .start
  | advance target => simpa [effects] using one (decide (entry.id = target)) .advance
  | cancel target => simpa [effects] using one (decide (entry.id = target)) .cancel
  | trip target => simpa [effects] using one (decide (entry.id = target)) .trip
  | touch target => simpa [effects] using one (decide (entry.id = target)) .touch
  | score policy target =>
    simpa [effects] using
      one (decide (entry.id = target)) (.remember (policy (entry.stats store.clock)))
  | removeIndex index => exact one _ .cancel
  | clear cancelsRunning => exact one _ .cancel
  | shutDown => exact one _ .cancel
  | remove | overview | addEntry | relist | memory | pass => exact one false .cancel

/-- An event of the cache leaves the status of an entry as it is, or moves it on; and a pending
entry that it asks to stop settles without having been executed. -/
theorem WellFormed.status_after (wellFormed : store.WellFormed)
    (found : store.find? id = some entry) (event : StoreEvent) :
    ∃ later, (store.after event).find? id = some later ∧
      (later.status = entry.status ∨ entry.status.Moves later.status) ∧
      (entry.status = .pending → later.cancelRequested = true →
        later.IsSettled .cancelled ∧ later.executions = 0) := by
  obtain ⟨member, _⟩ := wellFormed.find?_eq_some_iff.mp found
  refine ⟨_, wellFormed.find?_after found event, ?_⟩
  obtain ⟨score, event?, becomes⟩ := store.exists_afterAll_effects_eq store.clock event entry
  have scored := (wellFormed.coherent entry member).rememberWorthiness score
  have sameStatus : (entry.rememberWorthiness score).status = entry.status := rfl
  rw [becomes, ← sameStatus]
  cases event? with
  | none =>
    refine ⟨.inl rfl, ?_⟩
    intro isPending asked
    have pending := scored.isPending_iff.mp isPending
    rw [Option.toList_none, Entry.afterAll_nil, pending.cancelRequested] at asked
    cases asked
  | some single =>
    refine ⟨scored.status_after single, ?_⟩
    intro isPending asked
    exact (scored.isPending_iff.mp isPending).settled_of_requested asked

/-- A pending entry that is cancelled has been asked to stop. -/
theorem WellFormed.requested_of_cancel (wellFormed : store.WellFormed) {later : Entry}
    (found : store.find? id = some entry) (isPending : entry.status = .pending)
    (isLater : (store.after (.cancel id)).find? id = some later) :
    later.cancelRequested = true := by
  obtain ⟨member, isId⟩ := wellFormed.find?_eq_some_iff.mp found
  have pending := (wellFormed.coherent entry member).isPending_iff.mp isPending
  have becomes : entry.afterAll store.clock (store.effects (.cancel id) entry) = later :=
    Option.some.inj ((wellFormed.find?_after found (.cancel id)).symm.trans isLater)
  rw [← becomes, effects, if_pos isId, Entry.afterAll_cons, Entry.afterAll_nil, Entry.after,
    Entry.cancel, pending.slot]

/-- What a settled entry holds is final. -/
theorem WellFormed.frozen_afterAll (wellFormed : store.WellFormed)
    (found : store.find? id = some entry) {verdict : Verdict} (settled : entry.IsSettled verdict)
    (history : List StoreEvent) :
    ∃ later, (store.afterAll history).find? id = some later ∧ later.IsFrozenAs entry verdict :=
  wellFormed.find?_afterAll (fun later => later.IsFrozenAs entry verdict)
    (fun _ _ event frozen => frozen.after event) found ⟨settled, rfl, rfl⟩ history

end Store

namespace Caller

variable {store : Store} {caller : Caller} {outcome : Outcome}

/-- A caller that looks for an outcome returns with the one of its entry, or not at all. -/
theorem outcome?_of_look (told : caller.look store = .returned (some outcome)) :
    store.outcome? caller.entry = some outcome := by
  unfold look at told
  split at told
  next => cases told
  next outcome isOutcome =>
    injection told with same
    rw [isOutcome, same]

/-- A caller that returns with an outcome returns with that of its entry. -/
theorem outcome?_of_step (told : (caller.step store).state = .returned (some outcome)) :
    caller.state = .returned (some outcome) ∨ store.outcome? caller.entry = some outcome := by
  obtain ⟨entry, call, state⟩ := caller
  cases state with
  | calling =>
    right
    cases call with
    | start isBlocking =>
      simp only [step, next, opened] at told
      split at told
      · cases told
      · injection told with none
        cases none
    | cancel =>
      injection told with none
      cases none
    | outcome =>
      injection told
    | get | getUntil | wait => exact outcome?_of_look told
  | executing =>
    simp only [step, next] at told
    split at told
    · injection told with none
      cases none
    · cases told
  | sleeping => exact .inr (outcome?_of_look told)
  | returned outcome => exact .inl told

/-- A caller that gives up with an outcome after all returns with that of its entry. -/
theorem outcome?_of_expire (told : (caller.expire store).state = .returned (some outcome)) :
    caller.state = .returned (some outcome) ∨ store.outcome? caller.entry = some outcome := by
  obtain ⟨entry, call, state⟩ := caller
  cases state with
  | calling => cases told
  | executing => cases told
  | returned outcome => exact .inl told
  | sleeping =>
    simp only [expire, expired] at told
    split at told
    · injection told with same
      exact .inr same
    · cases told

/-- A reader that looks at a settled entry returns with its outcome. -/
theorem next_of_settled (reading : caller.call.isReading = true)
    (waiting : caller.state = .calling ∨ caller.state = .sleeping)
    (isOutcome : store.outcome? caller.entry = some outcome) :
    caller.next store = .returned (some outcome) := by
  obtain ⟨entry, call, state⟩ := caller
  have looks : look store ⟨entry, call, state⟩ = .returned (some outcome) := by
    rw [look, isOutcome]
  rcases waiting with calling | sleeping
  · simp only at calling
    subst calling
    cases call with
    | start | cancel => cases reading
    | outcome => exact congrArg CallState.returned isOutcome
    | get | getUntil | wait => exact looks
  · simp only at sleeping
    subst sleeping
    exact looks

end Caller

namespace Exchange

variable {exchange : Exchange} {id : EntryId}

/-- The events at an exchange are a history of its cache. -/
theorem store_afterAll (exchange : Exchange) (events : List ExchangeEvent) :
    (exchange.afterAll events).store = exchange.store.afterAll (exchange.trace events) := by
  induction events generalizing exchange with
  | nil => rfl
  | cons event rest ih =>
    rw [trace, Store.afterAll_append]
    exact ih (exchange.after event)

/-- An event at an exchange is one event of its cache at most. -/
theorem storeEvents_cases (exchange : Exchange) (event : ExchangeEvent) :
    exchange.storeEvents event = [] ∨ ∃ storeEvent, exchange.storeEvents event = [storeEvent] := by
  cases event with
  | arrive | expire => exact .inl rfl
  | happen event => exact .inr ⟨event, rfl⟩
  | step index =>
    simp only [storeEvents]
    cases exchange.callers[index]? with
    | none => exact .inl rfl
    | some caller =>
      obtain ⟨entry, call, state⟩ := caller
      cases state with
      | calling =>
        cases call with
        | start => exact .inr ⟨_, rfl⟩
        | cancel => exact .inr ⟨_, rfl⟩
        | outcome | get | getUntil | wait => exact .inl rfl
      | executing => exact .inr ⟨_, rfl⟩
      | sleeping | returned => exact .inl rfl

/-- A caller after an event is what it was before, or has taken a step or been told that its
time is up, or has just come. -/
theorem caller_after_cases {event : ExchangeEvent} {caller : Caller}
    (member : caller ∈ (exchange.after event).callers) :
    (∃ before ∈ exchange.callers, caller = before ∨ caller = before.step exchange.store ∨
      caller = before.expire exchange.store) ∨
    ∃ entry call, caller = .arriving entry call := by
  have modified : ∀ index change, caller ∈ exchange.callers.modify index change →
      ∃ before ∈ exchange.callers, caller = before ∨ caller = change before := by
    intro index change changed
    obtain ⟨position, isCaller⟩ := List.mem_iff_getElem?.mp changed
    rw [List.getElem?_modify] at isCaller
    obtain ⟨before, isBefore, becomes⟩ := Option.map_eq_some_iff.mp isCaller
    refine ⟨before, List.mem_of_getElem? isBefore, ?_⟩
    split at becomes
    · exact .inr becomes.symm
    · exact .inl becomes.symm
  cases event with
  | arrive entry call =>
    rcases List.mem_append.mp member with before | new
    · exact .inl ⟨caller, before, .inl rfl⟩
    · exact .inr ⟨entry, call, List.mem_singleton.mp new⟩
  | happen event => exact .inl ⟨caller, member, .inl rfl⟩
  | step index =>
    obtain ⟨before, isBefore, becomes⟩ := modified index _ member
    exact .inl ⟨before, isBefore, becomes.imp_right .inl⟩
  | expire index =>
    obtain ⟨before, isBefore, becomes⟩ := modified index _ member
    exact .inl ⟨before, isBefore, becomes.imp_right .inr⟩

/-- Every caller that was told an outcome was told that of its entry. -/
def IsHonest (exchange : Exchange) : Prop :=
  ∀ caller ∈ exchange.callers, ∀ outcome, caller.state = .returned (some outcome) →
    exchange.store.outcome? caller.entry = some outcome

/-- Callers stay honest through an event. -/
theorem IsHonest.after (honest : exchange.IsHonest) (wellFormed : exchange.store.WellFormed)
    (event : ExchangeEvent) : (exchange.after event).IsHonest := by
  intro caller member outcome told
  apply wellFormed.outcome?_afterAll
  rcases caller_after_cases member with ⟨before, isBefore, same | stepped | expired⟩ |
    ⟨entry, call, arrives⟩
  · exact honest caller (same ▸ isBefore) outcome told
  · subst stepped
    rcases Caller.outcome?_of_step told with already | now
    · exact honest before isBefore outcome already
    · exact now
  · subst expired
    rcases Caller.outcome?_of_expire told with already | now
    · exact honest before isBefore outcome already
    · exact now
  · rw [arrives] at told
    cases told

/-- What is known of every exchange: its cache is well-formed and its callers are honest. -/
structure IsSound (exchange : Exchange) : Prop where
  wellFormed : exchange.store.WellFormed
  honest : exchange.IsHonest

/-- An exchange stays sound, whatever happens. -/
theorem IsSound.afterAll (sound : exchange.IsSound) (events : List ExchangeEvent) :
    (exchange.afterAll events).IsSound := by
  induction events generalizing exchange with
  | nil => exact sound
  | cons event rest ih =>
    apply ih
    constructor
    · exact sound.wellFormed.afterAll _
    · exact sound.honest.after sound.wellFormed event

/-- Every reachable exchange is sound. -/
theorem Reachable.isSound (reachable : exchange.Reachable) : exchange.IsSound := by
  obtain ⟨settings, policy, memory, initial, events, created, rfl⟩ := reachable
  apply IsSound.afterAll
  constructor
  · exact Store.wellFormed_of_create created
  · intro caller member
    cases member

/-- Whether an event at an exchange is a request to cancel an entry. -/
def Cancels (exchange : Exchange) (event : ExchangeEvent) (id : EntryId) : Prop :=
  .cancel id ∈ exchange.storeEvents event

/-- An event at an exchange leaves the status of an entry as it is, or moves it on; and a pending
entry that it asks to stop settles without having been executed. -/
theorem IsSound.status_after (sound : exchange.IsSound) {entry : Entry}
    (found : exchange.store.find? id = some entry) (event : ExchangeEvent) :
    ∃ later, (exchange.after event).store.find? id = some later ∧
      (later.status = entry.status ∨ entry.status.Moves later.status) ∧
      (entry.status = .pending → exchange.Cancels event id ∨ later.cancelRequested = true →
        later.IsSettled .cancelled ∧ later.executions = 0) := by
  unfold Cancels
  rcases exchange.storeEvents_cases event with nothing | ⟨storeEvent, one⟩
  · rw [after, nothing]
    refine ⟨entry, found, .inl rfl, ?_⟩
    intro isPending asked
    obtain ⟨member, _⟩ := sound.wellFormed.find?_eq_some_iff.mp found
    have pending := (sound.wellFormed.coherent entry member).isPending_iff.mp isPending
    rcases asked with cancels | requested
    · cases cancels
    · rw [pending.cancelRequested] at requested
      cases requested
  · rw [after, one]
    obtain ⟨later, isLater, moves, settles⟩ := sound.wellFormed.status_after found storeEvent
    refine ⟨later, isLater, moves, ?_⟩
    intro isPending asked
    rcases asked with cancels | requested
    · have isCancel := List.mem_singleton.mp cancels
      subst isCancel
      exact settles isPending (sound.wellFormed.requested_of_cancel found isPending isLater)
    · exact settles isPending requested

/-- What a settled entry of an exchange holds is final. -/
theorem IsSound.frozen_afterAll (sound : exchange.IsSound) {entry : Entry}
    (found : exchange.store.find? id = some entry) {verdict : Verdict}
    (settled : entry.IsSettled verdict) (events : List ExchangeEvent) :
    ∃ later, (exchange.afterAll events).store.find? id = some later ∧
      later.IsFrozenAs entry verdict := by
  rw [store_afterAll]
  exact sound.wellFormed.frozen_afterAll found settled _

/-- Callers that are told an outcome of one entry are told the same, whenever they are told. -/
theorem IsSound.same_outcome (sound : exchange.IsSound) {caller later : Caller}
    (member : caller ∈ exchange.callers) {outcome other : Outcome}
    (told : caller.state = .returned (some outcome)) {events : List ExchangeEvent}
    (laterMember : later ∈ (exchange.afterAll events).callers)
    (sameEntry : later.entry = caller.entry) (toldLater : later.state = .returned (some other)) :
    other = outcome := by
  have first := sound.wellFormed.outcome?_afterAll (sound.honest caller member outcome told)
    (exchange.trace events)
  have second := (sound.afterAll events).honest later laterMember other toldLater
  rw [store_afterAll, sameEntry, first] at second
  exact (Option.some.inj second).symm

/-- A search is executed once at most, and never if its entry was asked to stop before it was
started. The status of an entry only makes the moves of an entry's life. Once an entry has
settled, its slot and its hits never change again, whatever happens to it and to the cache. So all
callers that are told an outcome of an entry are told the same one, and one that asks a settled
entry is told. -/
theorem entry_settles_once (reachable : exchange.Reachable) :
    (∀ id entry, exchange.store.find? id = some entry → entry.executions ≤ 1) ∧
    (∀ id entry event, exchange.store.find? id = some entry →
      ∃ later, (exchange.after event).store.find? id = some later ∧
        (later.status = entry.status ∨ entry.status.Moves later.status) ∧
        (entry.status = .pending → exchange.Cancels event id ∨ later.cancelRequested = true →
          ∀ events, ∃ last, ((exchange.after event).afterAll events).store.find? id = some last ∧
            last.status = .cancelled ∧ last.executions = 0)) ∧
    (∀ id entry events, exchange.store.find? id = some entry → entry.isDone = true →
      ∃ later, (exchange.afterAll events).store.find? id = some later ∧
        later.slot = entry.slot ∧ later.storedHits = entry.storedHits) ∧
    (∀ caller ∈ exchange.callers, ∀ outcome, caller.state = .returned (some outcome) →
      ∀ events, ∀ later ∈ (exchange.afterAll events).callers, later.entry = caller.entry →
        ∀ other, later.state = .returned (some other) → other = outcome) ∧
    (∀ caller ∈ exchange.callers, ∀ entry, exchange.store.find? caller.entry = some entry →
      entry.isDone = true → caller.call.isReading = true →
        caller.state = .calling ∨ caller.state = .sleeping →
          ∃ outcome, entry.outcome? = some outcome ∧
            caller.next exchange.store = .returned (some outcome)) := by
  have sound := reachable.isSound
  have coherent : ∀ {id entry}, exchange.store.find? id = some entry → entry.Coherent := by
    intro id entry found
    exact sound.wellFormed.coherent entry (sound.wellFormed.find?_eq_some_iff.mp found).1
  refine ⟨?_, ?_, ?_, ?_, ?_⟩
  · intro id entry found
    exact (coherent found).executions_le_one
  · intro id entry event found
    obtain ⟨later, isLater, moves, settles⟩ := sound.status_after found event
    refine ⟨later, isLater, moves, ?_⟩
    intro isPending asked events
    obtain ⟨settled, never⟩ := settles isPending asked
    obtain ⟨last, isLast, frozen⟩ := (sound.afterAll [event]).frozen_afterAll isLater settled events
    refine ⟨last, isLast, ?_, frozen.executions.trans never⟩
    rw [Entry.status, frozen.settled.slot, Slot.status]
  · intro id entry events found isDone
    obtain ⟨verdict, settled⟩ := (coherent found).isSettled_of_isDone isDone
    obtain ⟨later, isLater, frozen⟩ := sound.frozen_afterAll found settled events
    exact ⟨later, isLater, frozen.settled.slot.trans settled.slot.symm, frozen.storedHits⟩
  · intro caller member outcome told events later laterMember sameEntry other toldLater
    exact sound.same_outcome member told laterMember sameEntry toldLater
  · intro caller member entry found isDone reading waiting
    obtain ⟨outcome, isOutcome⟩ := Entry.exists_outcome?_of_isDone isDone
    refine ⟨outcome, isOutcome, Caller.next_of_settled reading waiting ?_⟩
    rw [Store.outcome?, found, Option.bind_some, isOutcome]

/-- Two starts, a cancellation that comes too late and two readers of one entry, of whom the
first sleeps until the entry has settled. -/
def racingCalls : List ExchangeEvent :=
  [.happen (.submit (Store.plainSearch "first")), .arrive 1 .get, .arrive 1 (.start true),
    .arrive 1 (.start false), .arrive 1 .outcome, .arrive 1 .cancel, .step 0, .step 1, .step 2,
    .step 1, .step 1, .step 1, .step 1, .step 1, .step 4, .step 0, .step 3]

theorem entry_settles_once_in_racing_calls :
    ∃ entry : Entry,
      ((opening Store.freshStore).afterAll racingCalls).store.find? 1 = some entry ∧
        entry.status = .done ∧ entry.executions ≤ 1 ∧
        (∀ events, ∃ later, (((opening Store.freshStore).afterAll racingCalls).afterAll
          events).store.find? 1 = some later ∧ later.slot = entry.slot) ∧
        ∀ events, ∀ later ∈ (((opening Store.freshStore).afterAll racingCalls).afterAll
          events).callers, later.entry = 1 → ∀ other, later.state = .returned (some other) →
            other = .ok ⟨.ofHits 3, 1⟩ := by
  have reachable : ((opening Store.freshStore).afterAll racingCalls).Reachable :=
    ⟨.standard 2, .standard, .fixed 200000000, Store.freshStore, racingCalls,
      Store.create_freshStore, rfl⟩
  obtain ⟨once, _, final, same, _⟩ := entry_settles_once reachable
  refine ⟨_, rfl, rfl, once 1 _ rfl, ?_, ?_⟩
  · intro events
    obtain ⟨later, isLater, sameSlot, _⟩ := final 1 _ events rfl rfl
    exact ⟨later, isLater, sameSlot⟩
  · intro events later member sameEntry other told
    exact same ⟨1, .get, .returned (some (.ok ⟨.ofHits 3, 1⟩))⟩ (.head _) _ rfl events later member
      sameEntry other told

end Exchange

end SweptCache
