import SweptCache.Proofs.ClientRuns

/-!
# Equal searches share their entry

However the steps of clients, workers and the cache are interleaved, two
submissions of equal searches that use the cache are given the same entry unless
it was withdrawn between their lookups. Of all clients that hold an entry one was
given it as new and starts it, so a race for a search that is not yet in the
cache executes the search once. Searches that do not use the cache share their
entries with nobody.
-/

namespace SweptCache

/-- What holds of one item in a list and of no two holds of exactly one. -/
theorem countP_eq_one_of_pairwise {α : Type} {items : List α} {holds : α → Bool}
    (pairwise : items.Pairwise fun first second => holds first = true → holds second = false)
    {item : α} (member : item ∈ items) (isOne : holds item = true) : items.countP holds = 1 := by
  induction items with
  | nil => cases member
  | cons first rest ih =>
    obtain ⟨others, pairwise⟩ := List.pairwise_cons.mp pairwise
    cases isFirst : holds first with
    | true =>
      rw [List.countP_cons_of_pos isFirst, List.countP_eq_zero.mpr]
      intro other otherMember
      simp [others other otherMember isFirst]
    | false =>
      rw [List.countP_cons_of_neg (by simp [isFirst])]
      refine ih pairwise ?_
      rcases List.mem_cons.mp member with rfl | later
      · simp [isOne] at isFirst
      · exact later

namespace Site

/-- A site that some events lead to from the opening of a newly created cache. -/
def Reachable (site : Site) : Prop :=
  ∃ (settings : Settings) (policy : Policy) (memory : MemoryReadings) (initial : Store)
    (events : List SiteEvent),
    Store.create settings policy memory = .ok initial ∧ site = (opening initial).afterAll events

/-- The next step of a client is to look a search up, and it is granted. -/
def LooksUp (site : Site) (index : Nat) (search : Search) (submitted : Submitted) : Prop :=
  ∃ client, site.clients[index]? = some client ∧ client.search = search ∧
    client.progress = .submitting ∧ (site.store.submit search).1 = .ok submitted

/-- A client that was granted a search with a key, which uses the cache, in the course
of events that lead from one site to another. -/
structure IsRacer (before after : Site) (key : SearchKey) (index : Nat) (client : Client)
    (submitted : Submitted) : Prop where
  isClient : after.clients[index]? = some client
  isNew : ∀ earlier, before.clients[index]? = some earlier → earlier.progress.submitted? = none
  sameKey : client.search.key = key
  uses : after.store.usesCache client.search = true
  granted : client.progress.submitted? = some submitted

/-- An entry that all racers for a key share, and that is executed once for all of them. -/
structure IsShared (before after : Site) (key : SearchKey) (entry : Entry) : Prop where
  /-- No other entry is registered for the key. -/
  alone : after.store.registeredEntries.filter (fun other => other.key = key) = [entry]
  /-- It is not executed twice. -/
  executedOnce : entry.executions ≤ 1
  /-- Every racer was given it. -/
  held : ∀ index client submitted, IsRacer before after key index client submitted →
    submitted.id = entry.id
  /-- The racers that are answered are told its outcome, which comes from its execution. -/
  told : ∀ index client submitted outcome, IsRacer before after key index client submitted →
    client.progress = .answered submitted outcome →
      entry.outcome? = some outcome ∧ entry.executions = 1
  /-- All racers that wait have been answered when neither they nor its worker have a
  step to take. -/
  answered : entry.worker = none →
    (∀ index client submitted, IsRacer before after key index client submitted →
      client.next after.store = client.progress) →
      ∀ index client submitted, IsRacer before after key index client submitted →
        client.kind.waits = true → ∃ outcome, client.progress = .answered submitted outcome

variable {site : Site}

/-- What is known of every site: its cache is well-formed, what its clients were granted
accounts for it, they are honest, and they go on to start what is new. -/
structure IsSound (site : Site) : Prop where
  wellFormed : site.store.WellFormed
  accounts : site.store.Accounts site.granted
  honest : site.IsHonest
  starts : site.StartsWhatIsNew

/-- A site stays sound, whatever happens. -/
theorem IsSound.afterAll (sound : site.IsSound) (events : List SiteEvent) :
    (site.afterAll events).IsSound where
  wellFormed := by
    rw [store_afterAll]
    exact sound.wellFormed.afterAll _
  accounts := accounts_afterAll sound.wellFormed sound.accounts events
  honest := sound.honest.afterAll sound.wellFormed events
  starts := sound.starts.afterAll sound.wellFormed sound.accounts events

/-- Every reachable site is sound. -/
theorem Reachable.isSound (reachable : site.Reachable) : site.IsSound := by
  obtain ⟨settings, policy, memory, initial, events, created, rfl⟩ := reachable
  have noRegistrations : initial.registrations = [] := by
    rw [Store.eq_empty_of_create created]
    rfl
  refine IsSound.afterAll ⟨Store.wellFormed_of_create created, ?_, ?_, ?_⟩ events
  · exact Store.accounts_nil noRegistrations
  · intro index client submitted outcome isClient
    simp [opening] at isClient
  · intro index client id isClient
    simp [opening] at isClient

/-- Two lookups of equal searches that use the cache are granted the same entry, unless
it is withdrawn between them. -/
theorem IsSound.shared_or_withdrawn (sound : site.IsSound) {first second : Nat}
    {search other : Search} {submitted again : Submitted} {middle : List SiteEvent}
    (granted : site.LooksUp first search submitted)
    (grantedAgain : ((site.after (.step first)).afterAll middle).LooksUp second other again)
    (sameKey : search.key = other.key) (uses : site.store.usesCache search = true)
    (usesToo : site.store.usesCache other = true) :
    again.id = submitted.id ∨
      (site.after (.step first)).store.IsWithdrawnIn ((site.after (.step first)).trace middle)
        submitted.id := by
  obtain ⟨client, isClient, rfl, isSubmitting, answered⟩ := granted
  obtain ⟨latter, _, rfl, _, answeredAgain⟩ := grantedAgain
  have lookedUp : (site.after (.step first)).store = site.store.after (.submit client.search) := by
    simp [after, storeEvents, isClient, Client.events, isSubmitting]
  have wellFormedThen := (sound.afterAll [.step first]).wellFormed
  have wellFormedLater := ((sound.afterAll [.step first]).afterAll middle).wellFormed
  simp only [afterAll_cons, afterAll_nil] at wellFormedThen wellFormedLater
  by_cases withdrawn : (site.after (.step first)).store.IsWithdrawnIn
      ((site.after (.step first)).trace middle) submitted.id
  · exact .inr withdrawn
  · left
    have stands : (site.after (.step first)).store.Stands client.search.key submitted.id := by
      rw [lookedUp]
      exact sound.wellFormed.stands_of_granted uses answered
    have standsLater := wellFormedThen.stands_afterAll stands withdrawn
    rw [← store_afterAll, sameKey] at standsLater
    have usesThen : ((site.after (.step first)).afterAll middle).store.usesCache latter.search =
        true := by
      rw [store_afterAll, Store.usesCache_afterAll, lookedUp, Store.usesCache_after]
      exact usesToo
    obtain ⟨entry, reusable, isEntry⟩ := wellFormedLater.reusable?_of_stands usesThen standsLater
    rcases wellFormedLater.submit_granted answeredAgain with ⟨found, rfl, foundReusable⟩ |
      ⟨_, missing, _⟩
    · rw [reusable, Option.some.injEq] at foundReusable
      rw [← isEntry, foundReusable]
      rfl
    · simp [reusable] at missing

/-- Of the clients that were given an entry exactly one was given it as new. -/
theorem IsSound.countP_created (sound : site.IsSound) {client : Client}
    (member : client ∈ site.clients) {submitted : Submitted}
    (granted : client.progress.submitted? = some submitted) :
    site.clients.countP (fun client =>
      client.progress.submitted? = some (.created submitted.id)) = 1 := by
  have isGrant : (client.search, submitted) ∈ site.granted :=
    List.mem_filterMap.mpr ⟨client, member, by rw [Client.grant?, granted]; rfl⟩
  obtain ⟨search, created⟩ := sound.accounts.exists_created isGrant
  obtain ⟨creator, creatorMember, isCreator⟩ := List.mem_filterMap.mp created
  have isCreated : creator.progress.submitted? = some (.created submitted.id) := by
    obtain ⟨given, isGiven, same⟩ := Option.map_eq_some_iff.mp isCreator
    rw [Prod.mk.injEq] at same
    rw [isGiven, same.2]
  refine countP_eq_one_of_pairwise ?_ creatorMember (by simpa using isCreated)
  have once := List.pairwise_filterMap.mp sound.accounts.once
  refine once.imp fun {first second} distinct firstCreated => ?_
  simp only [decide_eq_true_eq, decide_eq_false_iff_not] at firstCreated ⊢
  intro secondCreated
  exact distinct _ (by rw [Client.grant?, firstCreated]; rfl) _
    (by rw [Client.grant?, secondCreated]; rfl) submitted.id rfl rfl

/-- A client whose search does not use the cache shares its entry with no other client. -/
theorem IsSound.apart_of_uncached (sound : site.IsSound) {first second : Nat}
    (distinct : first ≠ second) {client other : Client}
    (isClient : site.clients[first]? = some client) (isOther : site.clients[second]? = some other)
    {submitted otherSubmitted : Submitted}
    (granted : client.progress.submitted? = some submitted)
    (otherGranted : other.progress.submitted? = some otherSubmitted)
    (uncached : site.store.usesCache client.search = false) :
    submitted.id ≠ otherSubmitted.id := by
  have isGrant : client.grant? = some (client.search, submitted) := by
    rw [Client.grant?, granted]
    rfl
  have otherGrant : other.grant? = some (other.search, otherSubmitted) := by
    rw [Client.grant?, otherGranted]
    rfl
  have apart := List.pairwise_iff_getElem.mp (List.pairwise_filterMap.mp sound.accounts.apart)
  obtain ⟨firstWithin, rfl⟩ := List.getElem?_eq_some_iff.mp isClient
  obtain ⟨secondWithin, rfl⟩ := List.getElem?_eq_some_iff.mp isOther
  rcases Nat.lt_or_gt_of_ne distinct with before | after
  · exact apart first second firstWithin secondWithin before _ isGrant _ otherGrant (.inl uncached)
  · exact (apart second first secondWithin firstWithin after _ otherGrant _ isGrant
      (.inr uncached)).symm

/-- All racers for a key that nothing was registered for hold the entry that is then
registered for it. -/
theorem IsSound.held_by_racers {before : Site} (sound : before.IsSound) {key : SearchKey}
    (unregistered : before.store.contains key = false) {race : List SiteEvent}
    (quiet : before.store.IsQuietFor (before.trace race) key) {index : Nat} {client : Client}
    {submitted : Submitted}
    (racer : IsRacer before (before.afterAll race) key index client submitted) :
    ∃ entry ∈ (before.afterAll race).store.registeredEntries, entry.key = key ∧
      entry.cancelRequested = false ∧
      ∀ index client submitted, IsRacer before (before.afterAll race) key index client submitted →
        submitted.id = entry.id := by
  have granted : ∀ index client submitted,
      IsRacer before (before.afterAll race) key index client submitted →
        (client.search, submitted) ∈ before.store.grants (before.trace race) := by
    intro index client submitted racer
    refine grant_mem_of_new race racer.isClient ?_ ?_
    · rw [Client.grant?, racer.granted]
      rfl
    · intro earlier isEarlier
      rw [Client.grant?, racer.isNew earlier isEarlier]
      rfl
  have noneBefore := sound.wellFormed.contains_eq_false_iff.mp unregistered
  have one := sound.wellFormed.shared_in_quiet noneBefore quiet
  rw [← store_afterAll] at one
  rcases one with ⟨none, _⟩ | ⟨id, ⟨entry, registered, rfl, sameKey, uncancelled⟩, shared⟩
  · have uncached := none _ (granted index client submitted racer) racer.sameKey
    simp [racer.uses] at uncached
  · refine ⟨entry, registered, sameKey, uncancelled, ?_⟩
    intro index client submitted racer
    exact shared _ (granted index client submitted racer) racer.sameKey racer.uses

/-- Nobody held an entry before a race that is registered after it for a key that
nothing was registered for. -/
theorem IsSound.not_held_before {before : Site} (sound : before.IsSound) {key : SearchKey}
    (unregistered : before.store.contains key = false) {race : List SiteEvent} {entry : Entry}
    (registered : entry ∈ (before.afterAll race).store.registeredEntries)
    (sameKey : entry.key = key) {grant : Search × Submitted} (member : grant ∈ before.granted) :
    grant.2.id ≠ entry.id := by
  intro same
  obtain ⟨old, oldFound, _⟩ := sound.accounts.made grant member
  rw [same] at oldFound
  have wellFormedAfter := (sound.afterAll race).wellFormed
  obtain ⟨isEntry, registeredId⟩ := wellFormedAfter.mem_registeredEntries_iff.mp registered
  rw [store_afterAll] at isEntry registeredId
  have absent : entry.id ∉ before.store.registeredIds := by
    intro registeredBefore
    obtain ⟨oldMember, oldId⟩ := sound.wellFormed.find?_eq_some_iff.mp oldFound
    have oldRegistered := sound.wellFormed.mem_registeredEntries_iff.mpr
      ⟨oldMember, by rw [oldId]; exact registeredBefore⟩
    obtain ⟨later, laterFound, laterKey⟩ := sound.wellFormed.find?_afterAll
      (fun entry => entry.key = old.key)
      (fun now entry event same => (congrArg Search.key (Entry.search_after ..)).trans same)
      oldFound rfl (before.trace race)
    rw [(sound.wellFormed.afterAll _).find?_eq_some_iff.mpr ⟨isEntry, rfl⟩,
      Option.some.injEq] at laterFound
    refine sound.wellFormed.contains_eq_false_iff.mp unregistered old oldRegistered ?_
    rw [← laterKey, ← laterFound, sameKey]
  exact sound.wellFormed.notMem_registeredIds_afterAll oldFound absent _ registeredId

/-- The client that was given an entry as new is one of the racers for it. -/
theorem IsSound.creator_isRacer {before : Site} (sound : before.IsSound) {key : SearchKey}
    (unregistered : before.store.contains key = false) {race : List SiteEvent} {entry : Entry}
    (registered : entry ∈ (before.afterAll race).store.registeredEntries)
    (sameKey : entry.key = key) :
    ∃ index client, IsRacer before (before.afterAll race) key index client (.created entry.id) := by
  have soundAfter := sound.afterAll race
  obtain ⟨member, registeredId⟩ := soundAfter.wellFormed.mem_registeredEntries_iff.mp registered
  obtain ⟨search, created⟩ := soundAfter.accounts.registered entry.id registeredId
  obtain ⟨client, clientMember, isCreator⟩ := List.mem_filterMap.mp created
  obtain ⟨index, isClient⟩ := List.mem_iff_getElem?.mp clientMember
  obtain ⟨given, isGiven, same⟩ := Option.map_eq_some_iff.mp isCreator
  rw [Prod.mk.injEq] at same
  obtain ⟨rfl, rfl⟩ := same
  obtain ⟨other, otherFound, otherKey⟩ := soundAfter.accounts.made _ created
  rw [show Submitted.id (.created entry.id) = entry.id from rfl,
    soundAfter.wellFormed.find?_eq_some_iff.mpr ⟨member, rfl⟩, Option.some.injEq] at otherFound
  refine ⟨index, client, isClient, ?_, ?_, ?_, isGiven⟩
  · intro earlier isEarlier
    by_contra granted
    obtain ⟨submitted, isGranted⟩ := Option.ne_none_iff_exists'.mp granted
    have isGrant : earlier.grant? = some (earlier.search, submitted) := by
      rw [Client.grant?, isGranted]
      rfl
    -- A client stays with its entry, so it would have held this one before the race.
    obtain ⟨later, isLater, _, laterGrant⟩ := grant_stays race isEarlier isGrant
    rw [isClient, Option.some.injEq] at isLater
    rw [← isLater, isCreator, Option.some.injEq, Prod.mk.injEq] at laterGrant
    refine sound.not_held_before unregistered registered sameKey
      (List.mem_filterMap.mpr ⟨earlier, List.mem_of_getElem? isEarlier, isGrant⟩) ?_
    rw [← laterGrant.2]
    rfl
  · rw [← sameKey, otherFound, otherKey]
  · rw [← Bool.not_eq_false]
    exact fun uncached => soundAfter.accounts.unregistered _ created uncached registeredId

/-- An entry that a race leaves with no step to take for its racers or its worker has settled. -/
theorem IsSound.settles_at_rest {before : Site} (sound : before.IsSound) {key : SearchKey}
    (unregistered : before.store.contains key = false) {race : List SiteEvent} {entry : Entry}
    (registered : entry ∈ (before.afterAll race).store.registeredEntries)
    (sameKey : entry.key = key) (idle : entry.worker = none)
    (rest : ∀ index client submitted,
      IsRacer before (before.afterAll race) key index client submitted →
        client.next (before.afterAll race).store = client.progress) :
    ∃ outcome, (before.afterAll race).store.outcome? entry.id = some outcome := by
  have soundAfter := sound.afterAll race
  have member := Store.WellFormed.mem_entries_of_registered registered
  have found := soundAfter.wellFormed.find?_eq_some_iff.mpr ⟨member, rfl⟩
  obtain ⟨index, creator, racer⟩ := sound.creator_isRacer unregistered registered sameKey
  rcases soundAfter.starts index creator entry.id racer.isClient racer.granted with
    starting | ⟨same, sameFound, begun⟩
  · have stuck := rest index creator _ racer
    rw [Client.next, starting] at stuck
    cases stuck
  · rw [found, Option.some.injEq] at sameFound
    subst sameFound
    cases soundAfter.wellFormed.coherent entry member with
    | pending pending => exact absurd pending.slot begun
    | running stage running => simp [running.worker] at idle
    | settled verdict settled =>
      refine ⟨verdict.outcome, ?_⟩
      rw [Store.outcome?, found, Option.bind_some, Entry.outcome?, settled.slot, Slot.outcome?]

/-- A client that waits and has no step to take once its entry has settled has been answered. -/
theorem answered_at_rest {store : Store} {client : Client} {submitted : Submitted}
    {outcome : Outcome} (granted : client.progress.submitted? = some submitted)
    (told : store.outcome? submitted.id = some outcome) (waits : client.kind.waits = true)
    (rest : client.next store = client.progress) :
    ∃ outcome, client.progress = .answered submitted outcome := by
  obtain ⟨kind, search, progress⟩ := client
  cases progress with
  | submitting => cases granted
  | refused refusal => cases granted
  | starting id => cases rest
  | answered given answer =>
    rw [Progress.submitted?, Option.some.injEq] at granted
    exact ⟨answer, by rw [granted]⟩
  | holding given =>
    rw [Progress.submitted?, Option.some.injEq] at granted
    simp only [Client.next, granted, told] at rest
    rw [if_pos waits] at rest
    cases rest

/-- A race for a search that is not registered comes to one entry, which all racers share. -/
theorem IsSound.shared_by_racers {before : Site} (sound : before.IsSound) {key : SearchKey}
    (unregistered : before.store.contains key = false) {race : List SiteEvent}
    (quiet : before.store.IsQuietFor (before.trace race) key) {index : Nat} {client : Client}
    {submitted : Submitted}
    (racer : IsRacer before (before.afterAll race) key index client submitted) :
    ∃ entry, IsShared before (before.afterAll race) key entry := by
  have soundAfter := sound.afterAll race
  obtain ⟨entry, registered, sameKey, uncancelled, held⟩ :=
    sound.held_by_racers unregistered quiet racer
  have member := Store.WellFormed.mem_entries_of_registered registered
  have found := soundAfter.wellFormed.find?_eq_some_iff.mpr ⟨member, rfl⟩
  have coherent := soundAfter.wellFormed.coherent entry member
  refine ⟨entry, ?_, coherent.executions_le_one, held, ?_, ?_⟩
  · rw [← sameKey]
    exact soundAfter.wellFormed.filter_key_registeredEntries registered
  · intro index client submitted outcome racer answered
    have told := soundAfter.honest index client submitted outcome racer.isClient answered
    rw [held index client submitted racer, Store.outcome?, found, Option.bind_some] at told
    refine ⟨told, ?_⟩
    cases slot : entry.slot with
    | pending => simp [Entry.outcome?, slot, Slot.outcome?] at told
    | running => simp [Entry.outcome?, slot, Slot.outcome?] at told
    | settled verdict => exact coherent.executions_of_settled slot uncancelled
  · intro idle rest index client submitted racer waits
    obtain ⟨outcome, told⟩ := sound.settles_at_rest unregistered registered sameKey idle rest
    rw [← held index client submitted racer] at told
    exact answered_at_rest racer.granted told waits (rest index client submitted racer)

/-- Equal searches share their entry, in every interleaving of the steps of clients,
workers and the cache. Two lookups of equal searches that use the cache are granted
the same entry unless it was withdrawn in between. Of the clients that were given an
entry one was given it as new, and goes on to start it. All racers for a search that
is not registered share one entry, which is executed once for all of them. A search
that does not use the cache shares its entry with nobody. -/
theorem searches_share_entries (reachable : site.Reachable) :
    (∀ (first second : Nat) (search other : Search) (submitted again : Submitted)
      (middle : List SiteEvent), site.LooksUp first search submitted →
        ((site.after (.step first)).afterAll middle).LooksUp second other again →
          search.key = other.key → site.store.usesCache search = true →
            site.store.usesCache other = true →
              again.id = submitted.id ∨ (site.after (.step first)).store.IsWithdrawnIn
                ((site.after (.step first)).trace middle) submitted.id) ∧
    (∀ client ∈ site.clients, ∀ submitted, client.progress.submitted? = some submitted →
      site.clients.countP (fun client =>
        client.progress.submitted? = some (.created submitted.id)) = 1) ∧
    site.StartsWhatIsNew ∧
    (∀ (race : List SiteEvent) (key : SearchKey), site.store.contains key = false →
      site.store.IsQuietFor (site.trace race) key →
        (∃ index client submitted,
          IsRacer site (site.afterAll race) key index client submitted) →
          ∃ entry, IsShared site (site.afterAll race) key entry) ∧
    (∀ (first second : Nat) (client other : Client) (submitted otherSubmitted : Submitted),
      first ≠ second → site.clients[first]? = some client →
        site.clients[second]? = some other → client.progress.submitted? = some submitted →
          other.progress.submitted? = some otherSubmitted →
            site.store.usesCache client.search = false → submitted.id ≠ otherSubmitted.id) := by
  have sound := reachable.isSound
  refine ⟨?_, ?_, sound.starts, ?_, ?_⟩
  · intro first second search other submitted again middle granted grantedAgain
    exact sound.shared_or_withdrawn granted grantedAgain
  · intro client member submitted granted
    exact sound.countP_created member granted
  · rintro race key unregistered quiet ⟨index, client, submitted, racer⟩
    exact sound.shared_by_racers unregistered quiet racer
  · intro first second client other submitted otherSubmitted distinct isClient isOther granted
      otherGranted
    exact sound.apart_of_uncached distinct isClient isOther granted otherGranted

/-- Two clients with one search, which the second submits before the first has started it. -/
def closeRace : List SiteEvent :=
  [.arrive .get (Store.plainSearch "first"), .arrive .get (Store.plainSearch "first"), .step 0,
    .step 1, .step 0, .happen (.advance 1), .happen (.advance 1), .happen (.advance 1),
    .happen (.advance 1), .happen (.advance 1), .step 0, .step 1]

theorem searches_share_entries_in_close_race :
    ((opening Store.freshStore).afterAll closeRace).clients =
        [⟨.get, Store.plainSearch "first", .answered (.created 1) (.ok ⟨.ofHits 3, 1⟩)⟩,
          ⟨.get, Store.plainSearch "first", .answered (.found 1) (.ok ⟨.ofHits 3, 1⟩)⟩] ∧
      ∃ entry, ((opening Store.freshStore).afterAll closeRace).store.registeredEntries.filter
          (fun other => other.key = (Store.plainSearch "first").key) = [entry] ∧
        entry.outcome? = some (.ok ⟨.ofHits 3, 1⟩) ∧ entry.executions = 1 := by
  have reachable : (opening Store.freshStore).Reachable :=
    ⟨.standard 2, .standard, .fixed 200000000, Store.freshStore, [], Store.create_freshStore, rfl⟩
  have quiet : Store.freshStore.IsQuietFor ((opening Store.freshStore).trace closeRace)
      (Store.plainSearch "first").key := by
    have isTrace : (opening Store.freshStore).trace closeRace =
        [.submit (Store.plainSearch "first"), .submit (Store.plainSearch "first"), .start 1,
          .advance 1, .advance 1, .advance 1, .advance 1, .advance 1] := rfl
    rw [isTrace]
    iterate 8 refine .cons rfl (by simp) ?_
    intro before event after entry split
    simp at split
  have clients : ((opening Store.freshStore).afterAll closeRace).clients =
      [⟨.get, Store.plainSearch "first", .answered (.created 1) (.ok ⟨.ofHits 3, 1⟩)⟩,
        ⟨.get, Store.plainSearch "first", .answered (.found 1) (.ok ⟨.ofHits 3, 1⟩)⟩] := rfl
  have racer : IsRacer (opening Store.freshStore) ((opening Store.freshStore).afterAll closeRace)
      (Store.plainSearch "first").key 1
      ⟨.get, Store.plainSearch "first", .answered (.found 1) (.ok ⟨.ofHits 3, 1⟩)⟩ (.found 1) :=
    ⟨by rw [clients]; rfl, by simp [opening], rfl, rfl, rfl⟩
  obtain ⟨-, -, -, shares, -⟩ := searches_share_entries reachable
  obtain ⟨entry, shared⟩ := shares closeRace _ rfl quiet ⟨_, _, _, racer⟩
  exact ⟨clients, entry, shared.alone, shared.told _ _ _ _ racer rfl⟩

end Site

end SweptCache
