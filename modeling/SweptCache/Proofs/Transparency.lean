import Mathlib.Data.List.Induction
import SweptCache.Proofs.UndisturbedRuns

/-!
# The cache is transparent

If equal searches behave equally, clients cannot tell from what they are told
whether they were answered from the cache. A settled entry that answers a
submission has the plain outcome of the submitted search, and so has every
entry that a submission was given and nobody asked to stop, which is just what
a cache with caching disabled would tell. What a search came to after it was
asked to stop is never served to a later submission.
-/

namespace SweptCache.Store

/-- Searches of a history that are equal end equally if nobody asks them to stop. -/
def BehaveEqually (history : List StoreEvent) : Prop :=
  ∀ first second, .submit first ∈ history → .submit second ∈ history → first.key = second.key →
    first.plainEnding = second.plainEnding

/-- An outcome of a search that a cache with caching disabled would tell as well. -/
structure IsPlainAnswer (search : Search) (outcome : Outcome) : Prop where
  /-- It is what the search comes to if nobody asks it to stop. -/
  isPlain : contentOf outcome = search.plainOutcome
  /-- No cache with caching disabled tells anything else, unless it refuses. -/
  uncached : ∀ (plain : Store) (answer : Option Outcome), plain.Reachable →
    plain.settings.isDisabled = true → (plain.get search).1 = .ok answer →
      answer.map contentOf = some (contentOf outcome)
  /-- Not all of them refuse. -/
  exists_uncached : ∃ (plain : Store) (answer : Outcome), plain.Reachable ∧
    plain.settings.isDisabled = true ∧ (plain.get search).1 = .ok (some answer)

variable {store : Store} {search : Search}

/-- The search of a registered entry was submitted. -/
theorem WellFormed.submitted_of_registered (wellFormed : store.WellFormed)
    (initially : store.registrations = []) (history : List StoreEvent) {entry : Entry}
    (registered : entry ∈ (store.afterAll history).registeredEntries) :
    .submit entry.search ∈ history := by
  induction history using List.reverseRecOn generalizing entry with
  | nil => simp [registeredEntries, initially] at registered
  | append_singleton history event ih =>
    have wellFormedBefore := wellFormed.afterAll history
    have wellFormedAfter := wellFormedBefore.after event
    simp only [afterAll_append, afterAll_cons, afterAll_nil] at registered
    rw [List.mem_append, List.mem_singleton]
    obtain ⟨member, registeredId⟩ := wellFormedAfter.mem_registeredEntries_iff.mp registered
    have found := wellFormedAfter.find?_eq_some_iff.mpr ⟨member, rfl⟩
    rcases wellFormedBefore.find?_after_cases found with ⟨before, foundBefore, isAfter⟩ |
      ⟨isNext, search, made, isMade⟩
    · have registeredBefore : entry.id ∈ (store.afterAll history).registeredIds := by
        by_contra unregistered
        exact wellFormedBefore.notMem_registeredIds_afterAll foundBefore unregistered [event]
          registeredId
      obtain ⟨beforeMember, sameId⟩ := wellFormedBefore.find?_eq_some_iff.mp foundBefore
      have submitted := ih (wellFormedBefore.mem_registeredEntries_iff.mpr
        ⟨beforeMember, sameId ▸ registeredBefore⟩)
      rw [isAfter, Entry.search_afterAll]
      exact .inl submitted
    · right
      obtain ⟨registration, added, isEntry⟩ := List.mem_map.mp registeredId
      rcases (wellFormedBefore.mem_registrations_after_iff event registration).mp added with
        registers | ⟨earlier, _, _⟩
      · rcases (store.afterAll history).made_cases event with ⟨_, none⟩ |
          ⟨other, otherMade, none | ⟨isSubmit, _⟩⟩
        · simp [none] at registers
        · simp [none] at registers
        · rw [made, List.cons.injEq] at otherMade
          rw [isSubmit, otherMade.1]
          rfl
      · have given := wellFormedBefore.registeredId_lt_nextId (List.mem_map_of_mem earlier)
        rw [isEntry, isNext] at given
        exact absurd given (Nat.lt_irrefl _)

/-- Every entry stays on course unless it is asked to stop. -/
theorem keepsCourse_afterAll (initially : store.entries = []) (history : List StoreEvent)
    {entry : Entry} {id : EntryId} (found : (store.afterAll history).find? id = some entry) :
    entry.KeepsCourse :=
  forall_entries_afterAll Entry.keepsCourse_make (fun now _ event keeps => keeps.after now event)
    (by simp [initially]) history entry (List.mem_of_find?_eq_some found)

/-- A cache with caching disabled tells every client the plain outcome of its search. -/
theorem WellFormed.get_of_isDisabled (wellFormed : store.WellFormed)
    (disabled : store.settings.isDisabled = true) {answer : Option Outcome}
    (answered : (store.get search).1 = .ok answer) :
    answer.map contentOf = some search.plainOutcome := by
  have granted : ∃ submitted, (store.submit search).1 = .ok submitted := by
    simp only [get] at answered
    cases submitted : store.submit search with
    | mk reply later =>
      cases reply with
      | error refusal => simp [submitted] at answered
      | ok granted => exact ⟨granted, rfl⟩
  obtain ⟨submitted, granted⟩ := granted
  rcases wellFormed.submit_granted granted with ⟨entry, _, reusable⟩ | ⟨isCreated, _, _⟩
  · have uses := (wellFormed.reusable?_eq_some_iff.mp reusable).1
    simp [usesCache, disabled] at uses
  · rw [isCreated] at granted
    obtain ⟨outcome, told, isPlain⟩ := wellFormed.get_of_created granted
    rw [told, Except.ok.injEq] at answered
    rw [← answered, Option.map_some, isPlain]

/-- A new cache with caching disabled and ample memory free. -/
def uncachedStore : Store :=
  empty { Settings.standard 2 with maxNumberOfSearches := some 0 } .standard (.fixed 200000000)

theorem reachable_uncachedStore : uncachedStore.Reachable :=
  ⟨{ Settings.standard 2 with maxNumberOfSearches := some 0 }, .standard, .fixed 200000000,
    uncachedStore, [], rfl, rfl⟩

/-- A cache with caching disabled tells what a search comes to, if it has the memory. -/
theorem exists_get_uncachedStore (search : Search) :
    ∃ outcome, (uncachedStore.get search).1 = .ok (some outcome) := by
  have bypasses : uncachedStore.reusable? search = none := by
    have off : uncachedStore.settings.isDisabled = true := rfl
    simp [reusable?, usesCache, off]
  have admits : uncachedStore.acquireMemory = (.ok (), uncachedStore.afterReading) := rfl
  have granted : (uncachedStore.submit search).1 =
      .ok (.created uncachedStore.afterReading.nextId) := by
    simp only [submit, bypasses, admits]
    rfl
  obtain ⟨outcome, told, _⟩ := reachable_uncachedStore.wellFormed.get_of_created granted
  exact ⟨outcome, told⟩

/-- Whatever tells the plain outcome of a search tells what a cache with caching
disabled would. -/
theorem isPlainAnswer_of_isPlain {outcome : Outcome}
    (isPlain : contentOf outcome = search.plainOutcome) : IsPlainAnswer search outcome where
  isPlain := isPlain
  uncached := by
    intro plain answer reachable disabled answered
    rw [isPlain]
    exact reachable.wellFormed.get_of_isDisabled disabled answered
  exists_uncached := by
    obtain ⟨outcome, told⟩ := exists_get_uncachedStore search
    exact ⟨uncachedStore, outcome, reachable_uncachedStore, rfl, told⟩

/-- The registered entry that answers a submission has the plain outcome of the
submitted search. -/
theorem WellFormed.plainOutcome_of_reusable (wellFormed : store.WellFormed)
    (initially : store.registrations = []) {earlier later : List StoreEvent}
    (equal : BehaveEqually (earlier ++ .submit search :: later)) {entry : Entry}
    (reusable : (store.afterAll earlier).reusable? search = some entry) :
    entry.search.plainOutcome = search.plainOutcome := by
  obtain ⟨_, registered, sameKey, _⟩ :=
    (wellFormed.afterAll earlier).reusable?_eq_some_iff.mp reusable
  have submitted := wellFormed.submitted_of_registered initially earlier registered
  exact Search.plainOutcome_congr
    (equal entry.search search (List.mem_append_left _ submitted) (by simp) sameKey)

/-- The entry that a submission is given has the plain outcome of the submitted search. -/
theorem WellFormed.plainOutcome_of_granted (wellFormed : store.WellFormed)
    (initially : store.registrations = []) {earlier later : List StoreEvent}
    (equal : BehaveEqually (earlier ++ .submit search :: later)) {submitted : Submitted}
    (granted : ((store.afterAll earlier).submit search).1 = .ok submitted) :
    ∃ entry, ((store.afterAll earlier).after (.submit search)).find? submitted.id = some entry ∧
      entry.search.plainOutcome = search.plainOutcome := by
  have wellFormedBefore := wellFormed.afterAll earlier
  rcases wellFormedBefore.submit_granted granted with ⟨entry, rfl, reusable⟩ | ⟨rfl, _, found⟩
  · refine ⟨_, wellFormedBefore.find?_after (wellFormedBefore.find?_reusable reusable) _, ?_⟩
    rw [Entry.search_afterAll]
    exact wellFormed.plainOutcome_of_reusable initially equal reusable
  · exact ⟨_, found, rfl⟩

/-- A submission that is answered by an entry is answered by one that nobody asked to
stop, and asks it to stop no more than before. -/
theorem WellFormed.uncancelled_of_hit (wellFormed : store.WellFormed) {id : EntryId}
    (granted : (store.submit search).1 = .ok (.found id)) :
    (∃ entry, store.find? id = some entry ∧ entry.cancelRequested = false ∧
      store.reusable? search = some entry) ∧
    ∃ entry, (store.after (.submit search)).find? id = some entry ∧
      entry.cancelRequested = false := by
  rcases wellFormed.submit_granted granted with ⟨entry, isEntry, reusable⟩ | ⟨isNew, _⟩
  · injection isEntry with isEntry
    subst isEntry
    have found := wellFormed.find?_reusable reusable
    have uncancelled := (wellFormed.reusable?_eq_some_iff.mp reusable).2.2.2
    refine ⟨⟨entry, found, uncancelled, reusable⟩, _, wellFormed.find?_after found _, ?_⟩
    have admitted : store.sweepsFor search = false := by simp [sweepsFor, needsAdmission, reusable]
    rw [Entry.cancelRequested_afterAll_of_no_request, uncancelled]
    simp only [effects, admitted, Bool.false_eq_true, if_false]
    split <;> rfl
  · cases isNew

/-- An entry that nobody has asked to stop never was asked before. -/
theorem WellFormed.uncancelled_before (wellFormed : store.WellFormed) {history : List StoreEvent}
    {id : EntryId} {entry later : Entry} (found : store.find? id = some entry)
    (laterFound : (store.afterAll history).find? id = some later)
    (uncancelled : later.cancelRequested = false) : entry.cancelRequested = false := by
  rw [Bool.eq_false_iff]
  intro asked
  obtain ⟨same, sameFound, stillAsked⟩ := wellFormed.find?_afterAll
    (fun entry => entry.cancelRequested = true) Entry.cancelRequested_after found asked history
  rw [laterFound, Option.some.injEq] at sameFound
  rw [← sameFound, uncancelled] at stillAsked
  cases stillAsked

/-- A submission that hits a settled entry hits the plain outcome of its search. -/
theorem WellFormed.outcome_of_hit (wellFormed : store.WellFormed) (noEntries : store.entries = [])
    (noRegistrations : store.registrations = []) {earlier later : List StoreEvent}
    (equal : BehaveEqually (earlier ++ .submit search :: later)) {entry : Entry}
    (granted : ((store.afterAll earlier).submit search).1 = .ok (.found entry.id))
    (found : (store.afterAll earlier).find? entry.id = some entry) (done : entry.isDone = true) :
    entry.outcome?.map contentOf = some search.plainOutcome := by
  obtain ⟨⟨other, otherFound, uncancelled, reusable⟩, _⟩ :=
    (wellFormed.afterAll earlier).uncancelled_of_hit granted
  rw [found, Option.some.injEq] at otherFound
  subst otherFound
  have keeps := keepsCourse_afterAll noEntries earlier found
  obtain ⟨outcome, told⟩ := Entry.exists_outcome?_of_isDone done
  rw [told, Option.map_some, keeps.contentOf_outcome uncancelled told,
    wellFormed.plainOutcome_of_reusable noRegistrations equal reusable]

/-- Once the entry that a submission was given has settled and nobody had asked it to stop till
then, it tells the plain outcome of the submitted search ever after. -/
theorem WellFormed.outcome_of_settled (wellFormed : store.WellFormed)
    (noEntries : store.entries = []) (noRegistrations : store.registrations = [])
    {earlier later : List StoreEvent} (equal : BehaveEqually (earlier ++ .submit search :: later))
    {submitted : Submitted} (granted : ((store.afterAll earlier).submit search).1 = .ok submitted)
    {shorter rest : List StoreEvent} (split : earlier ++ .submit search :: later = shorter ++ rest)
    {entry : Entry} (found : (store.afterAll shorter).find? submitted.id = some entry)
    (done : entry.isDone = true) (unasked : entry.cancelRequested = false) :
    ∃ outcome, (store.afterAll (earlier ++ .submit search :: later)).outcome? submitted.id =
        some outcome ∧ contentOf outcome = search.plainOutcome := by
  obtain ⟨given, givenFound, isPlain⟩ :=
    wellFormed.plainOutcome_of_granted noRegistrations equal granted
  obtain ⟨last, lastFound, givenSearch⟩ :=
    ((wellFormed.afterAll earlier).after (.submit search)).exists_later givenFound later
  rw [← afterAll_cons, ← afterAll_append, split, afterAll_append] at lastFound
  have lastSearch := (wellFormed.afterAll shorter).search_afterAll found rest lastFound
  have keeps := keepsCourse_afterAll noEntries shorter found
  obtain ⟨outcome, told⟩ := Entry.exists_outcome?_of_isDone done
  refine ⟨outcome, ?_, ?_⟩
  · rw [split, afterAll_append]
    refine (wellFormed.afterAll shorter).outcome?_afterAll ?_ rest
    rw [outcome?, found, Option.bind_some, told]
  · rw [keeps.contentOf_outcome unasked told, ← lastSearch, givenSearch, isPlain]

/-- What a submission is served that was granted an entry in the course of a history, by a cache of
which nobody can tell whether it keeps results. -/
structure IsServed (initial : Store) (earlier : List StoreEvent) (search : Search)
    (later : List StoreEvent) (submitted : Submitted) : Prop where
  /-- A submission that hits a settled entry hits the plain outcome of its search. -/
  hit : ∀ entry, submitted = .found entry.id →
    (initial.afterAll earlier).find? entry.id = some entry → entry.isDone = true →
      entry.outcome?.map contentOf = some search.plainOutcome
  /-- Nobody ever asked an entry to stop that a submission hits. -/
  unasked : ∀ shorter rest entry, earlier = shorter ++ rest → submitted = .found entry.id →
    (initial.afterAll shorter).find? entry.id = some entry → entry.cancelRequested = false
  /-- If nobody asks the entry to stop before it settles, it has one answer from then on, which is
  that of a cache with caching disabled. -/
  settled : ∀ shorter rest entry, earlier ++ .submit search :: later = shorter ++ rest →
    (initial.afterAll shorter).find? submitted.id = some entry → entry.isDone = true →
      entry.cancelRequested = false →
        ∃ outcome, IsPlainAnswer search outcome ∧
          (initial.afterAll (earlier ++ .submit search :: later)).outcome? submitted.id =
            some outcome
  /-- The entry does settle, once it has been started and its worker has taken its steps. -/
  settles : ∀ shorter rest, later = shorter ++ rest →
    (initial.afterAll (earlier ++ .submit search :: shorter)).RunsToEnd rest submitted.id →
      ∃ entry, (initial.afterAll (earlier ++ .submit search :: later)).find? submitted.id =
        some entry ∧ entry.isDone = true
  /-- A client that gets the search in one go is told such an answer, unless there is an entry that
  has yet to settle. -/
  get :
    (∃ outcome, IsPlainAnswer search outcome ∧
      ((initial.afterAll earlier).get search).1 = .ok (some outcome)) ∨
    ((initial.afterAll earlier).get search).1 = .ok none ∧
      ∃ entry, submitted = .found entry.id ∧
        (initial.afterAll earlier).find? entry.id = some entry ∧ entry.isDone = false
  /-- The client that does so is one that takes its steps without being interrupted. -/
  lone : ∃ id steps client,
    (Site.opening (initial.afterAll earlier)).afterAll
        ((Site.opening (initial.afterAll earlier)).loneCall .get search id steps) =
      ⟨((initial.afterAll earlier).get search).2, [client]⟩ ∧
    client.search = search ∧
    client.progress.told = ((initial.afterAll earlier).get search).1

/-- A client that is given a new entry or a settled one and gets the search in one go is told its
plain outcome. -/
theorem WellFormed.get_of_granted (wellFormed : store.WellFormed) (noEntries : store.entries = [])
    (noRegistrations : store.registrations = []) {earlier later : List StoreEvent}
    (equal : BehaveEqually (earlier ++ .submit search :: later)) {submitted : Submitted}
    (granted : ((store.afterAll earlier).submit search).1 = .ok submitted) :
    (∃ outcome, IsPlainAnswer search outcome ∧
      ((store.afterAll earlier).get search).1 = .ok (some outcome)) ∨
    ((store.afterAll earlier).get search).1 = .ok none ∧
      ∃ entry, submitted = .found entry.id ∧
        (store.afterAll earlier).find? entry.id = some entry ∧ entry.isDone = false := by
  have wellFormedBefore := wellFormed.afterAll earlier
  rcases wellFormedBefore.submit_granted granted with ⟨entry, rfl, reusable⟩ | ⟨rfl, _, _⟩
  · have found := wellFormedBefore.find?_reusable reusable
    rw [wellFormedBefore.get_of_reusable (isOpen_of_granted granted) reusable]
    cases done : entry.isDone with
    | true =>
      have told := wellFormed.outcome_of_hit noEntries noRegistrations equal granted found done
      obtain ⟨outcome, isOutcome, isPlain⟩ := Option.map_eq_some_iff.mp told
      exact .inl ⟨outcome, isPlainAnswer_of_isPlain isPlain, by rw [isOutcome]⟩
    | false =>
      have untold : entry.outcome? = none := by
        rw [← Option.isNone_iff_eq_none, ← Option.isSome_eq_false_iff, entry.isSome_outcome?, done]
      exact .inr ⟨by rw [untold], entry, rfl, found, done⟩
  · obtain ⟨outcome, told, isPlain⟩ := wellFormedBefore.get_of_created granted
    exact .inl ⟨outcome, isPlainAnswer_of_isPlain isPlain, told⟩

/-- Every submission that is granted an entry is served so. -/
theorem WellFormed.isServed (wellFormed : store.WellFormed) (noEntries : store.entries = [])
    (noRegistrations : store.registrations = []) {earlier later : List StoreEvent}
    (equal : BehaveEqually (earlier ++ .submit search :: later)) {submitted : Submitted}
    (granted : ((store.afterAll earlier).submit search).1 = .ok submitted) :
    store.IsServed earlier search later submitted where
  hit := by
    rintro entry rfl found done
    exact wellFormed.outcome_of_hit noEntries noRegistrations equal granted found done
  unasked := by
    rintro shorter rest entry rfl rfl found
    obtain ⟨⟨other, otherFound, uncancelled, _⟩, _⟩ :=
      (wellFormed.afterAll _).uncancelled_of_hit granted
    rw [afterAll_append] at otherFound
    exact (wellFormed.afterAll shorter).uncancelled_before found otherFound uncancelled
  settled := by
    intro shorter rest entry split found done unasked
    obtain ⟨outcome, told, isPlain⟩ :=
      wellFormed.outcome_of_settled noEntries noRegistrations equal granted split found done unasked
    exact ⟨outcome, isPlainAnswer_of_isPlain isPlain, told⟩
  settles := by
    rintro shorter rest rfl runs
    rw [← List.cons_append, ← List.append_assoc, afterAll_append]
    exact (wellFormed.afterAll _).isDone_of_runsToEnd runs
  get := wellFormed.get_of_granted noEntries noRegistrations equal granted
  lone := by
    have opened : (Site.opening (store.afterAll earlier)).store.WellFormed :=
      wellFormed.afterAll earlier
    exact Site.get_alone opened search

/-- Clients that take their steps in any order, with anything else in between, are served as if
nothing were kept. If nobody asks the entry of a client to stop before it settles, the client is
told no other outcome than that of a cache with caching disabled, and is told it once it has taken
two more steps if it waits. -/
def ServesClients (initial : Store) (events : List SiteEvent) : Prop :=
  ∀ (index : Nat) (client : Client) (submitted : Submitted),
    ((Site.opening initial).afterAll events).clients[index]? = some client →
      client.progress.submitted? = some submitted →
        ∀ shorter rest entry, events = shorter ++ rest →
          ((Site.opening initial).afterAll shorter).store.find? submitted.id = some entry →
            entry.isDone = true → entry.cancelRequested = false →
              ∃ outcome, IsPlainAnswer client.search outcome ∧
                (∀ given told, client.progress = .answered given told → told = outcome) ∧
                (client.kind.waits = true →
                  ∀ more, 2 ≤ more.countP (SiteEvent.isStepOf index) →
                    ((Site.opening initial).afterAll (events ++ more)).clients[index]? =
                      some { client with progress := .answered submitted outcome })

/-- The clients of a cache that has just been opened are served so. -/
theorem WellFormed.servesClients (wellFormed : store.WellFormed) (noEntries : store.entries = [])
    (noRegistrations : store.registrations = []) {events : List SiteEvent}
    (equal : BehaveEqually ((Site.opening store).trace events)) : store.ServesClients events := by
  rintro index client submitted isClient granted shorter rest entry rfl found done unasked
  have isGrant : client.grant? = some (client.search, submitted) := by
    rw [Client.grant?, granted, Option.map_some]
  have inGrants := Site.grant_mem_of_new _ isClient isGrant (by simp [Site.opening])
  obtain ⟨before, others, isTrace, answered⟩ := exists_submit_of_mem_grants inGrants
  rw [isTrace] at equal
  have split := isTrace.symm.trans ((Site.opening store).trace_append shorter rest)
  rw [Site.store_afterAll] at found
  obtain ⟨outcome, told, isPlain⟩ :=
    wellFormed.outcome_of_settled noEntries noRegistrations equal answered split found done unasked
  have toldThen : ((Site.opening store).afterAll (shorter ++ rest)).store.outcome? submitted.id =
      some outcome := by
    rw [Site.store_afterAll, isTrace]
    exact told
  have honest : ((Site.opening store).afterAll (shorter ++ rest)).IsHonest :=
    (Site.isHonest_opening store).afterAll wellFormed _
  refine ⟨outcome, isPlainAnswer_of_isPlain isPlain, ?_, ?_⟩
  · intro given other isAnswered
    have isGiven : given = submitted := by
      rw [isAnswered] at granted
      exact Option.some.inj granted
    have isOther := honest index client given other isClient isAnswered
    rw [isGiven, toldThen] at isOther
    exact (Option.some.inj isOther).symm
  · intro waits more enough
    rw [Site.afterAll_append]
    refine honest.answered_of_steps ?_ isClient waits granted toldThen
      ((Progress.stepsToAnswer_le granted).trans enough)
    rw [Site.store_afterAll]
    exact wellFormed.afterAll _

/-- The cache is transparent. If equal searches behave equally, nobody can tell from what it tells
whether it keeps results. Every submission is refused or served. One that hits a settled entry hits
the plain outcome of its search, and the entry that it hits was never asked to stop. Whatever
becomes of an entry that a submission was granted, once it has settled without having been asked to
stop it answers as a cache with caching disabled does. A client that gets a search in one go is told
such an answer, unless it has to wait for an entry that was there and has yet to settle; and a
client that waits is told one, whatever else happens. -/
theorem cache_is_transparent {settings : Settings} {policy : Policy} {memory : MemoryReadings}
    {initial : Store} (created : create settings policy memory = .ok initial) :
    (∀ earlier search later, BehaveEqually (earlier ++ .submit search :: later) →
      (∃ refusal, ((initial.afterAll earlier).submit search).1 = .error refusal ∧
        ((initial.afterAll earlier).get search).1 = .error refusal) ∨
      ∃ submitted, ((initial.afterAll earlier).submit search).1 = .ok submitted ∧
        initial.IsServed earlier search later submitted) ∧
    (∀ events, BehaveEqually ((Site.opening initial).trace events) →
      initial.ServesClients events) := by
  have wellFormed := wellFormed_of_create created
  have isEmpty := eq_empty_of_create created
  have noEntries : initial.entries = [] := by rw [isEmpty]; rfl
  have noRegistrations : initial.registrations = [] := by rw [isEmpty]; rfl
  constructor
  · intro earlier search later equal
    cases answered : ((initial.afterAll earlier).submit search).1 with
    | error refusal => exact .inl ⟨refusal, rfl, get_of_refused answered⟩
    | ok submitted =>
      exact .inr ⟨submitted, rfl, wellFormed.isServed noEntries noRegistrations equal answered⟩
  · intro events equal
    exact wellFormed.servesClients noEntries noRegistrations equal

/-- A search that is submitted, started and executed to its end. -/
def executedOnce : List StoreEvent :=
  [.submit (plainSearch "first"), .start 1, .advance 1, .advance 1, .advance 1, .advance 1,
    .advance 1]

/-- A client gets a search, and another one looks the same search up after that. -/
def twoGets : List SiteEvent :=
  [.arrive .get (plainSearch "first"), .step 0, .step 0] ++
    (executedOnce.drop 2).map .happen ++ [.arrive .get (plainSearch "first"), .step 1]

theorem cache_is_transparent_when_executed :
    freshStore.IsServed executedOnce (plainSearch "first") [.cancel 1] (.found 1) ∧
    ∃ outcome, contentOf outcome = .ok (.ofHits 3) ∧
      ((Site.opening freshStore).afterAll (twoGets ++ [.step 1, .step 1])).clients[1]? =
        some ⟨.get, plainSearch "first", .answered (.found 1) outcome⟩ := by
  have equal : ∀ history : List StoreEvent,
      (∀ search, .submit search ∈ history → search = plainSearch "first") →
        BehaveEqually history := by
    intro history only first second isFirst isSecond _
    rw [only first isFirst, only second isSecond]
  have isTrace : (Site.opening freshStore).trace twoGets =
      executedOnce ++ [.submit (plainSearch "first")] := rfl
  obtain ⟨served, servesClients⟩ := cache_is_transparent create_freshStore
  constructor
  · rcases served executedOnce (plainSearch "first") [.cancel 1] (equal _ (by simp [executedOnce]))
      with ⟨refusal, refused, _⟩ | ⟨submitted, granted, isServed⟩
    · cases refused
    · cases granted
      exact isServed
  obtain ⟨outcome, isPlain, _, told⟩ :=
    servesClients twoGets (equal _ (by simp [isTrace, executedOnce])) 1 _ (.found 1) rfl rfl
      twoGets [] _ rfl rfl rfl rfl
  exact ⟨outcome, isPlain.isPlain, told rfl _ (by decide)⟩

end SweptCache.Store
