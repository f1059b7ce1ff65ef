import SweptCache.Proofs.Closing
import SweptCache.Proofs.Orphans

/-!
# How far a shutdown reaches

A shutdown asks what is registered to stop, so it reaches every search that was
submitted and uses the cache, unless its entry left the cache gently before:
whatever else takes an entry out of the cache has stopped its search. A search
that bypasses the cache was never registered and runs on until its client asks it
to stop, or the search itself does.
-/

namespace SweptCache.Store

variable {store : Store} {search : Search} {submitted : Submitted}

/-- A closed cache grants nothing. -/
theorem IsClosed.grants_eq_nil (closed : store.IsClosed) (history : List StoreEvent) :
    store.grants history = [] := by
  induction history generalizing store with
  | nil => rfl
  | cons event rest ih =>
    have none : store.grant? event = none := by
      cases event with
      | submit search => rw [grant?, closed.submit_eq]
      | _ => rfl
    rw [grants, none, ih (closed.after event)]
    rfl

/-- All that is granted in a history with a shutdown is granted before it. -/
theorem grants_shutDown (store : Store) (earlier later : List StoreEvent) :
    store.grants (earlier ++ .shutDown :: later) = store.grants earlier := by
  have closed : ((store.afterAll earlier).after .shutDown).IsClosed := isClosed_shutDown _
  rw [grants_append, grants, closed.grants_eq_nil]
  exact List.append_nil _

/-- A search that is done or asked to stop stays so. -/
theorem WellFormed.stopped_afterAll (wellFormed : store.WellFormed) {id : EntryId} {entry : Entry}
    (found : store.find? id = some entry)
    (stopped : entry.searchDone = true ∨ entry.cancelRequested = true)
    (history : List StoreEvent) :
    ∃ later, (store.afterAll history).find? id = some later ∧
      (later.searchDone = true ∨ later.cancelRequested = true) := by
  refine wellFormed.find?_afterAll
    (fun later => later.searchDone = true ∨ later.cancelRequested = true) ?_ found stopped history
  rintro now earlier event (done | requested)
  · exact .inl (Entry.searchDone_after now earlier event done)
  · exact .inr (Entry.cancelRequested_after now earlier event requested)

/-- A shutdown reaches every search that was granted an entry of the cache, unless the entry left
gently before. -/
theorem WellFormed.stopped_of_granted (wellFormed : store.WellFormed)
    {earlier later : List StoreEvent} (granted : (search, submitted) ∈ store.grants earlier)
    (uses : store.usesCache search = true) :
    ∃ entry, (store.afterAll (earlier ++ .shutDown :: later)).find? submitted.id = some entry ∧
      (entry.searchDone = true ∨ entry.cancelRequested = true ∨
        LeftGently store earlier submitted.id) := by
  obtain ⟨before, rest, rfl, answered⟩ := exists_submit_of_mem_grants granted
  have wellFormedBefore := wellFormed.afterAll before
  have usesBefore : (store.afterAll before).usesCache search = true := by
    rwa [usesCache_afterAll]
  obtain ⟨own, isOwn, ownId, _⟩ := wellFormedBefore.stands_of_granted usesBefore answered
  have registered : submitted.id ∈
      (store.afterAll (before ++ [.submit search])).registeredIds := by
    rw [afterAll_append, ← ownId]
    exact ((wellFormedBefore.after _).mem_registeredEntries_iff.mp isOwn).2
  obtain ⟨entry, found, account⟩ := wellFormed.accounted_for (before ++ .submit search :: rest)
    (before ++ [.submit search]) rest (by simp) registered
  have wellFormedThen := wellFormed.afterAll (before ++ .submit search :: rest)
  rw [afterAll_append]
  rcases account with registeredThen | done | requested | gently
  · obtain ⟨member, isEntry⟩ := wellFormedThen.find?_eq_some_iff.mp found
    rw [← isEntry] at registeredThen ⊢
    obtain ⟨last, foundLast, stopped⟩ := wellFormedThen.stopped_by_shutDown
      (wellFormedThen.mem_registeredEntries_iff.mpr ⟨member, registeredThen⟩) later
    exact ⟨last, foundLast, stopped.elim .inl fun requested => .inr (.inl requested)⟩
  · obtain ⟨last, foundLast, stopped⟩ :=
      wellFormedThen.stopped_afterAll found (.inl done) (.shutDown :: later)
    exact ⟨last, foundLast, stopped.elim .inl fun requested => .inr (.inl requested)⟩
  · obtain ⟨last, foundLast, stopped⟩ :=
      wellFormedThen.stopped_afterAll found (.inr requested) (.shutDown :: later)
    exact ⟨last, foundLast, stopped.elim .inl fun requested => .inr (.inl requested)⟩
  · obtain ⟨last, foundLast, _⟩ := wellFormedThen.exists_later found (.shutDown :: later)
    exact ⟨last, foundLast, .inr (.inr gently)⟩

/-- A search that bypasses the cache is asked to stop by a client, by itself or not at all. -/
theorem WellFormed.requested_of_bypassing (wellFormed : store.WellFormed)
    (initially : store.registrations = []) {history : List StoreEvent}
    (granted : (search, submitted) ∈ store.grants history)
    (bypasses : store.usesCache search = false) :
    ∃ entry, (store.afterAll history).find? submitted.id = some entry ∧
      submitted.id ∉ (store.afterAll history).registeredIds ∧
      (entry.cancelRequested = true →
        .cancel submitted.id ∈ history ∨ .trip submitted.id ∈ history) := by
  have unregisteredIn : ∀ {shorter}, (search, submitted) ∈ store.grants shorter →
      submitted.id ∉ (store.afterAll shorter).registeredIds := by
    intro shorter isGranted
    have accounts := wellFormed.accounts_afterAll (accounts_nil initially) shorter
    exact accounts.unregistered _ (by simpa using isGranted) (by rwa [usesCache_afterAll])
  obtain ⟨before, rest, rfl, answered⟩ := exists_submit_of_mem_grants granted
  have wellFormedBefore := wellFormed.afterAll before
  rcases wellFormedBefore.submit_granted answered with ⟨_, _, reusable⟩ | ⟨rfl, _, isNew⟩
  · have usesBefore := (wellFormedBefore.reusable?_eq_some_iff.mp reusable).1
    rw [usesCache_afterAll, bypasses] at usesBefore
    cases usesBefore
  · have wellFormedThen := wellFormedBefore.after (.submit search)
    have isGranted : (search, .created (store.afterAll before).nextId) ∈
        store.grants (before ++ [.submit search]) := by
      rw [grants_append, grants, grant?_eq_some_iff.mpr ⟨rfl, answered⟩]
      simp
    have unregistered := unregisteredIn isGranted
    rw [afterAll_append] at unregistered
    obtain ⟨entry, found, _⟩ := wellFormedThen.exists_later isNew rest
    have foundLast : (store.afterAll (before ++ .submit search :: rest)).find?
        (store.afterAll before).nextId = some entry := by
      rwa [afterAll_append, afterAll_cons]
    refine ⟨entry, foundLast, unregisteredIn granted, fun asked => ?_⟩
    rcases wellFormedThen.requested_from_outside isNew unregistered rest found asked with
      askedAtOnce | byClient | bySearch
    · cases askedAtOnce
    · exact .inl (List.mem_append_right _ (List.mem_cons_of_mem _ byClient))
    · exact .inr (List.mem_append_right _ (List.mem_cons_of_mem _ bySearch))

/-- Once a cache has been shut down, and ever after, each search that was submitted to it and uses
it is done or has been asked to stop, unless its entry left gently before. A search that bypasses
the cache, because it opts out or because caching is off, is asked to stop by its clients, or it
trips the token itself that it was handed; the cache leaves it alone. -/
theorem shutDown_stops_searches_of_cache {settings : Settings} {policy : Policy}
    {memory : MemoryReadings} {initial : Store}
    (created : create settings policy memory = .ok initial) (earlier later : List StoreEvent)
    (search : Search) (submitted : Submitted)
    (granted : (search, submitted) ∈ initial.grants (earlier ++ .shutDown :: later)) :
    (search.cacheable = true → settings.isDisabled = false →
      ∃ entry, (initial.afterAll (earlier ++ .shutDown :: later)).find? submitted.id = some entry ∧
        (entry.searchDone = true ∨ entry.cancelRequested = true ∨
          LeftGently initial earlier submitted.id)) ∧
    (search.cacheable = false ∨ settings.isDisabled = true →
      ∃ entry, (initial.afterAll (earlier ++ .shutDown :: later)).find? submitted.id = some entry ∧
        (entry.cancelRequested = true → .cancel submitted.id ∈ earlier ++ .shutDown :: later ∨
          .trip submitted.id ∈ earlier ++ .shutDown :: later)) := by
  have wellFormed := wellFormed_of_create created
  have isEmpty := eq_empty_of_create created
  constructor
  · intro cacheable enabled
    have uses : initial.usesCache search = true := by
      simp [isEmpty, usesCache, empty, cacheable, enabled]
    rw [grants_shutDown] at granted
    exact wellFormed.stopped_of_granted granted uses
  · intro bypasses
    have bypassed : initial.usesCache search = false := by
      rcases bypasses with uncacheable | disabled
      · simp [usesCache, uncacheable]
      · simp [isEmpty, usesCache, empty, disabled]
    have initially : initial.registrations = [] := by
      rw [isEmpty]
      rfl
    obtain ⟨entry, found, _, outside⟩ :=
      wellFormed.requested_of_bypassing initially granted bypassed
    exact ⟨entry, found, outside⟩

/-- A search that opts out is submitted and executed. -/
def executedAside : List StoreEvent :=
  [.submit { plainSearch "aside" with cacheable := false }, .start 1, .advance 1]

/-- A search that bypasses the cache outlives the shutdown. -/
theorem bypassing_search_outlives_shutDown :
    ¬ ∀ (settings : Settings) (policy : Policy) (memory : MemoryReadings) (initial : Store),
      create settings policy memory = .ok initial →
        ∀ (earlier later : List StoreEvent) (search : Search) (submitted : Submitted)
          (entry : Entry), (search, submitted) ∈ initial.grants (earlier ++ .shutDown :: later) →
            (initial.afterAll (earlier ++ .shutDown :: later)).find? submitted.id = some entry →
              entry.status = .running → entry.searchDone = false →
                entry.cancelRequested = true ∨ LeftGently initial earlier submitted.id := by
  intro allStopped
  have isGranted : ({ plainSearch "aside" with cacheable := false }, .created 1) ∈
      freshStore.grants (executedAside ++ [.shutDown]) := .head _
  rcases allStopped _ _ _ _ create_freshStore executedAside [] _ _ _ isGranted rfl rfl rfl with
    asked | ⟨before, event, after, split, gentle, _⟩
  · cases asked
  · have noneGentle : ∀ event ∈ executedAside, event.isGentle = false := by
      simp [executedAside, StoreEvent.isGentle]
    rw [noneGentle event (by simp [split])] at gentle
    cases gentle

/-- A search that uses the cache is asked to stop when the cache is shut down, and one that is
executed aside is left alone. -/
theorem shutDown_stops_searches_of_cache_but_not_aside :
    (∃ entry, (freshStore.afterAll [.submit (plainSearch "kept"), .start 1, .shutDown]).find? 1 =
        some entry ∧
      (entry.searchDone = true ∨ entry.cancelRequested = true ∨
        LeftGently freshStore [.submit (plainSearch "kept"), .start 1] 1)) ∧
    ∃ entry, (freshStore.afterAll (executedAside ++ [.shutDown])).find? 1 = some entry ∧
      (entry.cancelRequested = true → .cancel 1 ∈ executedAside ++ [.shutDown] ∨
        .trip 1 ∈ executedAside ++ [.shutDown]) := by
  have isGranted : (plainSearch "kept", .created 1) ∈
      freshStore.grants [.submit (plainSearch "kept"), .start 1, .shutDown] := .head _
  have isGrantedAside : ({ plainSearch "aside" with cacheable := false }, .created 1) ∈
      freshStore.grants (executedAside ++ [.shutDown]) := .head _
  exact ⟨(shutDown_stops_searches_of_cache create_freshStore
      [.submit (plainSearch "kept"), .start 1] [] _ _ isGranted).1 rfl rfl,
    (shutDown_stops_searches_of_cache create_freshStore executedAside [] _ _
      isGrantedAside).2 (.inl rfl)⟩

end SweptCache.Store
