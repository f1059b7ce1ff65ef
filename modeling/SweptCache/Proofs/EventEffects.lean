import SweptCache.Proofs.SweepEffects
import SweptCache.Store.History

/-!
# What an event of a cache does

Every event of a cache does three things, each of which is spelled out once
here. It brings each entry some `effects`, of which it may make one more
(`entries_after`). It takes some registrations out of the cache, and it may
register one entry (`registrations_after`). What later modules prove of
histories, they prove from these two equations and not from the operations.
-/

namespace SweptCache.Store

/-- The cache as the admission of a new search leaves it. -/
def admission (store : Store) : Store := store.acquireMemory.2

/-- Whether a submission is neither turned away nor answered by a registered entry. -/
def needsAdmission (store : Store) (search : Search) : Bool :=
  !store.isShutDown && (store.reusable? search).isNone

/-- Whether a submission has to sweep the cache. -/
def sweepsFor (store : Store) (search : Search) : Bool :=
  store.needsAdmission search && !store.hasMemory

/-- The events that an event of the cache brings to an entry. -/
def effects (store : Store) (event : StoreEvent) (entry : Entry) : List EntryEvent :=
  match event with
  | .submit search =>
    if (store.reusable? search).any fun found => !store.isShutDown && found.id = entry.id then
      [.touch]
    else if store.sweepsFor search then store.afterReading.sweepEffects entry
    else []
  | .start id => if entry.id = id then [.start] else []
  | .advance id => if entry.id = id then [.advance] else []
  | .cancel id => if entry.id = id then [.cancel] else []
  | .trip id => if entry.id = id then [.trip] else []
  | .touch id => if entry.id = id then [.touch] else []
  | .score policy id =>
    if entry.id = id then [.remember (policy (entry.stats store.clock))] else []
  | .removeIndex index =>
    if ((store.registrationsOf index).map (·.entry)).contains entry.id && !entry.searchDone then
      [.cancel]
    else []
  | .clear cancelsRunning =>
    if cancelsRunning && store.registeredIds.contains entry.id && !entry.searchDone then
      [.cancel]
    else []
  | .shutDown =>
    if store.registeredIds.contains entry.id && !entry.searchDone then [.cancel] else []
  | .sweep => store.sweepEffects entry
  | .remove _ | .overview | .addEntry _ | .relist _ | .memory _ | .pass _ => []

/-- The entry that an event makes, if it makes one. -/
def made (store : Store) (event : StoreEvent) : List Entry :=
  match event with
  | .submit search =>
    match (store.submit search).1 with
    | .ok (.created id) => [.make id search store.clock]
    | .ok (.found _) | .error _ => []
  | .addEntry search => [.make store.nextId search store.clock]
  | _ => []

/-- Whether an event leaves a registration in the cache. -/
def keeps (store : Store) : StoreEvent → Registration → Bool
  | .submit search => fun registration =>
    !(store.sweepsFor search &&
      store.afterReading.sweepRemovals.any fun removal => removal.1.key = registration.key)
  | .remove key => fun registration => registration.key ≠ key
  | .removeIndex index => fun registration => registration.key.index ≠ index
  | .clear _ | .shutDown => fun _ => false
  | .sweep => fun registration =>
    !store.sweepRemovals.any fun removal => removal.1.key = registration.key
  | .start _ | .advance _ | .cancel _ | .trip _ | .touch _ | .score _ _ | .overview | .addEntry _
  | .relist _ | .memory _ | .pass _ => fun _ => true

/-- The registration that an event adds, if it adds one. -/
def registers (store : Store) (event : StoreEvent) : Option Registration :=
  match event with
  | .submit search =>
    match (store.submit search).1 with
    | .ok (.created id) => if store.usesCache search then some ⟨search.key, id⟩ else none
    | .ok (.found _) | .error _ => none
  | _ => none

/-- Admission takes one reading if that shows enough memory, and sweeps the cache if not. -/
theorem acquireMemory_cases (store : Store) :
    (store.hasMemory = true ∧ store.acquireMemory = (.ok (), store.afterReading)) ∨
    (store.hasMemory = false ∧ ∃ answer memory,
      store.acquireMemory = (answer, { store.afterReading.sweep.2 with memory := memory })) := by
  unfold acquireMemory
  split
  next enough => exact .inl ⟨enough, rfl⟩
  next short =>
    refine .inr ⟨by simpa using short, ?_⟩
    split
    next overflow swept failed =>
      rw [show swept = store.afterReading.sweep.2 by rw [failed]]
      exact ⟨_, _, rfl⟩
    next summary swept succeeded =>
      rw [show swept = store.afterReading.sweep.2 by rw [succeeded]]
      split <;> exact ⟨_, _, rfl⟩

/-- What a submission comes to: it is turned away, it is answered by a registered
entry, it is refused for want of memory, or it makes an entry. -/
theorem submit_cases (store : Store) (search : Search) :
    (store.isShutDown = true ∧ store.submit search = (.error (.error .shutDown), store)) ∨
    (∃ entry, store.isShutDown = false ∧ store.reusable? search = some entry ∧
      store.submit search = (.ok (.found entry.id), store.touch entry.id)) ∨
    (store.needsAdmission search = true ∧ store.reusable? search = none ∧
      ((∃ refusal, store.submit search = (.error refusal, store.admission)) ∨
        store.submit search =
          (.ok (.created store.admission.nextId), store.admission.addSearch search))) := by
  unfold submit
  cases shut : store.isShutDown with
  | true => exact .inl ⟨rfl, rfl⟩
  | false =>
    cases reusable : store.reusable? search with
    | some entry => exact .inr (.inl ⟨entry, rfl, rfl, rfl⟩)
    | none =>
      refine .inr (.inr ⟨by simp [needsAdmission, shut, reusable], rfl, ?_⟩)
      simp only [admission]
      cases acquired : store.acquireMemory with
      | mk answer admitted =>
        cases answer with
        | error refusal => exact .inl ⟨refusal, rfl⟩
        | ok _ => exact .inr rfl

/-- Admission brings every entry the events of its sweep, if it has to sweep. -/
theorem entries_admission (store : Store) :
    store.admission.entries = store.entries.map fun entry => entry.afterAll store.clock
      (if store.hasMemory then [] else store.afterReading.sweepEffects entry) := by
  unfold admission
  rcases store.acquireMemory_cases with ⟨enough, acquired⟩ | ⟨short, answer, memory, acquired⟩
  · simp [acquired, enough, afterReading]
  · simp only [acquired, short, Bool.false_eq_true, if_false]
    exact store.afterReading.entries_sweep

/-- Admission takes what its sweep removes out of the cache, if it has to sweep. -/
theorem registrations_admission (store : Store) :
    store.admission.registrations = store.registrations.filter fun registration =>
      !(!store.hasMemory &&
        store.afterReading.sweepRemovals.any fun removal => removal.1.key = registration.key) := by
  unfold admission
  rcases store.acquireMemory_cases with ⟨enough, acquired⟩ | ⟨short, answer, memory, acquired⟩
  · simp [acquired, enough, afterReading]
  · simp only [acquired, short, Bool.not_false, Bool.true_and]
    exact store.afterReading.registrations_sweep

/-- What admission has no part in. -/
theorem admission_frame (store : Store) :
    store.admission.clock = store.clock ∧ store.admission.settings = store.settings ∧
      store.admission.policy = store.policy ∧ store.admission.isShutDown = store.isShutDown := by
  unfold admission
  rcases store.acquireMemory_cases with ⟨enough, acquired⟩ | ⟨short, answer, memory, acquired⟩
  · rw [acquired]
    exact ⟨rfl, rfl, rfl, rfl⟩
  · rw [acquired]
    exact store.afterReading.sweep_frame

/-- Admission makes no entries. -/
@[simp] theorem nextId_admission (store : Store) : store.admission.nextId = store.nextId := by
  simp [nextId, store.entries_admission]

/-- Another order of the registrations changes nothing else. -/
theorem relist_frame (store : Store) (registrations : List Registration) :
    (store.relist registrations).entries = store.entries ∧
      (store.relist registrations).settings = store.settings ∧
      (store.relist registrations).policy = store.policy := by
  unfold relist
  split <;> exact ⟨rfl, rfl, rfl⟩

/-- The registrations in another order are still the same. -/
theorem registrations_relist_perm (store : Store) (registrations : List Registration) :
    (store.relist registrations).registrations.Perm store.registrations := by
  unfold relist
  split
  next perm => exact List.isPerm_iff.mp perm
  next => exact .refl _

/-- An update of one entry, as events that are brought to it. -/
theorem entries_update (store : Store) (id : EntryId) (event : EntryEvent) :
    (store.update id fun entry => entry.after store.clock event).entries =
      store.entries.map fun entry =>
        entry.afterAll store.clock (if entry.id = id then [event] else []) := by
  simp only [update]
  congr 1
  funext entry
  split <;> rfl

/-- A cancellation of several entries unless they are done, as events that are brought to them. -/
theorem entries_cancelAll (store : Store) (ids : List EntryId) :
    (store.updateAll ids (Entry.cancelUnlessDone store.clock)).entries =
      store.entries.map fun entry => entry.afterAll store.clock
        (if ids.contains entry.id && !entry.searchDone then [.cancel] else []) := by
  simp only [updateAll, Entry.cancelUnlessDone]
  congr 1
  funext entry
  cases ids.contains entry.id <;> cases entry.searchDone <;> rfl

/-- A submission brings each entry its effects, and makes no more than one entry. -/
theorem entries_submit (store : Store) (search : Search) :
    (store.after (.submit search)).entries =
      (store.entries.map fun entry =>
        entry.afterAll store.clock (store.effects (.submit search) entry)) ++
        store.made (.submit search) := by
  simp only [after, effects, made]
  rcases store.submit_cases search with ⟨shut, turnedAway⟩ | ⟨found, isOpen, reusable, answered⟩ |
    ⟨needed, missing, ⟨refusal, refused⟩ | created⟩
  · simp [turnedAway, shut, sweepsFor, needsAdmission]
  · rw [answered]
    simp only [List.append_nil, reusable, Option.any_some, isOpen, Bool.not_false, Bool.true_and,
      decide_eq_true_eq, sweepsFor, needsAdmission, Option.isNone_some, Bool.and_false,
      Bool.false_and, Bool.false_eq_true, if_false]
    rw [show store.touch found.id = store.update found.id
      fun entry => entry.after store.clock .touch from rfl, entries_update]
    simp only [eq_comm]
  · rw [refused, entries_admission]
    cases enough : store.hasMemory <;> simp [missing, sweepsFor, needed, enough]
  · rw [created]
    have clock := store.admission_frame.1
    have added : (store.admission.addSearch search).entries =
        store.admission.entries ++ [.make store.nextId search store.clock] := by
      unfold addSearch
      split <;> simp [register, addEntry, clock]
    simp only [added, nextId_admission, entries_admission]
    cases enough : store.hasMemory <;> simp [missing, sweepsFor, needed, enough]

/-- Every event brings each entry its effects, and makes no more than one entry. -/
theorem entries_after (store : Store) (event : StoreEvent) :
    (store.after event).entries =
      (store.entries.map fun entry => entry.afterAll store.clock (store.effects event entry)) ++
        store.made event := by
  cases event with
  | start id =>
    simp only [effects, made, List.append_nil]
    exact store.entries_update id .start
  | advance id =>
    simp only [effects, made, List.append_nil]
    exact store.entries_update id .advance
  | cancel id =>
    simp only [effects, made, List.append_nil]
    exact store.entries_update id .cancel
  | trip id =>
    simp only [effects, made, List.append_nil]
    exact store.entries_update id .trip
  | touch id =>
    simp only [effects, made, List.append_nil]
    exact store.entries_update id .touch
  | score policy id =>
    simp only [after, score, update, effects, made, List.append_nil]
    congr 1
    funext entry
    split <;> rfl
  | removeIndex index =>
    simp only [effects, made, List.append_nil]
    exact store.entries_cancelAll ((store.registrationsOf index).map (·.entry))
  | clear cancelsRunning =>
    simp only [effects, made, List.append_nil]
    cases cancelsRunning with
    | true =>
      simp only [Bool.true_and]
      exact store.entries_cancelAll store.registeredIds
    | false => simp [after, clear]
  | shutDown =>
    simp only [effects, made, List.append_nil]
    exact store.entries_cancelAll store.registeredIds
  | sweep =>
    simp only [effects, made, List.append_nil]
    exact store.entries_sweep
  | overview =>
    simp only [after, overview, effects, made, Entry.afterAll_nil, List.map_id', List.append_nil]
    split <;> rfl
  | remove | memory | pass =>
    simp [after, effects, made, remove, pass]
  | relist registrations =>
    simp only [after, effects, made, Entry.afterAll_nil, List.map_id', List.append_nil]
    exact store.relist_frame registrations |>.1
  | addEntry search => simp [after, effects, made, addEntry]
  | submit search => exact store.entries_submit search

/-- A submission takes what its sweep removes out of the cache and registers one entry at most. -/
theorem registrations_submit (store : Store) (search : Search) :
    (store.after (.submit search)).registrations =
      match store.registers (.submit search) with
      | none => store.registrations.filter (store.keeps (.submit search))
      | some added => registerIn added.key added.entry
        (store.registrations.filter (store.keeps (.submit search))) := by
  simp only [after, registers, keeps]
  rcases store.submit_cases search with ⟨shut, turnedAway⟩ | ⟨found, isOpen, reusable, answered⟩ |
    ⟨needed, missing, ⟨refusal, refused⟩ | created⟩
  · simp [turnedAway, shut, sweepsFor, needsAdmission]
  · simp [answered, sweepsFor, needsAdmission, reusable, touch, update]
  · simp [refused, registrations_admission, sweepsFor, needed]
  · have uses : store.admission.usesCache search = store.usesCache search := by
      simp only [usesCache, store.admission_frame.2.1]
    cases registered : store.usesCache search <;>
      simp [created, addSearch, uses, registered, register, addEntry, sweepsFor, needed,
        registrations_admission]

/-- Every event takes some registrations out of the cache and adds one at most, apart from the
order in which they are listed. -/
theorem registrations_after (store : Store) (event : StoreEvent) :
    (store.after event).registrations.Perm
      (match store.registers event with
      | none => store.registrations.filter (store.keeps event)
      | some added =>
        registerIn added.key added.entry (store.registrations.filter (store.keeps event))) := by
  cases event with
  | sweep => exact .of_eq store.registrations_sweep
  | remove | removeIndex => exact .refl _
  | clear | shutDown => simp [after, clear, shutDown, registers, keeps]
  | overview =>
    simp only [after, overview, registers, keeps, List.filter_true]
    split <;> exact .refl _
  | relist registrations =>
    simp only [registers, keeps, List.filter_true]
    exact store.registrations_relist_perm registrations
  | start | advance | cancel | trip | touch | score | addEntry | memory | pass =>
    simp only [registers, keeps, List.filter_true]
    exact .refl _
  | submit search => exact .of_eq (store.registrations_submit search)

/-- Only a shutdown shuts the cache. -/
theorem isShutDown_after (store : Store) {event : StoreEvent} (other : event ≠ .shutDown) :
    (store.after event).isShutDown = store.isShutDown := by
  cases event with
  | submit search =>
    obtain ⟨_, _, _, shut⟩ := store.admission_frame
    simp only [after]
    rcases store.submit_cases search with ⟨_, turnedAway⟩ | ⟨found, _, _, answered⟩ |
      ⟨_, _, ⟨refusal, refused⟩ | created⟩
    · rw [turnedAway]
    · rw [answered]
      rfl
    · rw [refused, shut]
    · rw [created, addSearch]
      split <;> exact shut
  | sweep => exact store.sweep_frame.2.2.2
  | shutDown => exact absurd rfl other
  | clear cancelsRunning => cases cancelsRunning <;> rfl
  | overview =>
    simp only [after, overview]
    split <;> rfl
  | relist registrations =>
    simp only [after, relist]
    split <;> rfl
  | start | advance | cancel | trip | touch | score | remove | removeIndex | addEntry | memory
  | pass => rfl

/-- A start, a step of the worker and a trip of the token come to an entry by events that are about
that entry alone: which one. -/
def sourceOf? (id : EntryId) : EntryEvent → Option StoreEvent
  | .start => some (.start id)
  | .advance => some (.advance id)
  | .trip => some (.trip id)
  | .cancel | .touch | .remember _ => none

/-- The cache starts no entries, takes no steps for them and has no part in their trips. -/
theorem eq_source_of_mem_effects {store : Store} {event source : StoreEvent} {entry : Entry}
    {single : EntryEvent} (member : single ∈ store.effects event entry)
    (isSource : sourceOf? entry.id single = some source) : event = source := by
  have notBySweep : ∀ swept : Store, single ∉ swept.sweepEffects entry := by
    intro swept bySweep
    rcases List.mem_append.mp bySweep with scores | aborts
    · split at scores
      · rw [List.mem_singleton.mp scores] at isSource
        cases isSource
      · cases scores
    · split at aborts
      · rw [List.mem_singleton.mp aborts] at isSource
        cases isSource
      · cases aborts
  cases event with
  | submit search =>
    simp only [effects] at member
    split at member
    · rw [List.mem_singleton.mp member] at isSource
      cases isSource
    · split at member
      · exact absurd member (notBySweep _)
      · cases member
  | sweep => exact absurd member (notBySweep _)
  | start | advance | trip =>
    simp only [effects] at member
    split at member
    next same =>
      rw [List.mem_singleton.mp member, sourceOf?, Option.some.injEq, same] at isSource
      exact isSource
    next => cases member
  | cancel | touch | score | removeIndex | clear | shutDown =>
    simp only [effects] at member
    split at member
    · rw [List.mem_singleton.mp member] at isSource
      cases isSource
    · cases member
  | remove | overview | addEntry | relist | memory | pass => cases member

/-- What events have no part in. -/
theorem after_frame (store : Store) (event : StoreEvent) :
    (store.after event).settings = store.settings ∧ (store.after event).policy = store.policy := by
  cases event with
  | submit search =>
    obtain ⟨_, settings, policy, _⟩ := store.admission_frame
    simp only [after]
    rcases store.submit_cases search with ⟨shut, turnedAway⟩ | ⟨found, isOpen, reusable, answered⟩ |
      ⟨needed, missing, ⟨refusal, refused⟩ | created⟩
    · rw [turnedAway]
      exact ⟨rfl, rfl⟩
    · rw [answered]
      exact ⟨rfl, rfl⟩
    · rw [refused]
      exact ⟨settings, policy⟩
    · rw [created]
      simp only [addSearch]
      split <;> exact ⟨settings, policy⟩
  | clear cancelsRunning => cases cancelsRunning <;> exact ⟨rfl, rfl⟩
  | sweep => exact ⟨store.sweep_frame.2.1, store.sweep_frame.2.2.1⟩
  | overview =>
    simp only [after, overview]
    split <;> exact ⟨rfl, rfl⟩
  | relist registrations => exact (store.relist_frame registrations).2
  | start | advance | cancel | trip | touch | score | remove | removeIndex | shutDown | addEntry
  | memory | pass => exact ⟨rfl, rfl⟩

end SweptCache.Store
