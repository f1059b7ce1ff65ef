import SweptCache.Proofs.EventEffects

/-!
# What holds in every history

A store that is well-formed stays so through every event, so every reachable
store is. What an event preserves in each entry, a history preserves in all of
them. Entries are never lost: a number that once led to an entry leads to what
has become of it, and only a number that has not been given away yet can be
registered anew.
-/

namespace SweptCache.Store

variable {store : Store}

/-- An event makes the entry with the next number, if it makes one, and registers no other. -/
theorem made_cases (store : Store) (event : StoreEvent) :
    (store.made event = [] ∧ store.registers event = none) ∨
    (∃ search, store.made event = [.make store.nextId search store.clock] ∧
      (store.registers event = none ∨
        event = .submit search ∧ store.usesCache search = true ∧
          store.registers event = some ⟨search.key, store.nextId⟩)) := by
  cases event with
  | submit search =>
    simp only [made, registers]
    rcases store.submit_cases search with ⟨shut, turnedAway⟩ | ⟨found, isOpen, reusable, answered⟩ |
      ⟨needed, missing, ⟨refusal, refused⟩ | created⟩
    · exact .inl (by simp [turnedAway])
    · exact .inl (by simp [answered])
    · exact .inl (by simp [refused])
    · refine .inr ⟨search, by simp [created], ?_⟩
      cases uses : store.usesCache search with
      | false => exact .inl (by simp [created])
      | true => exact .inr (by simp [created])
  | addEntry search => exact .inr ⟨search, rfl, .inl rfl⟩
  | start | advance | cancel | trip | touch | score | remove | removeIndex | clear | shutDown
  | sweep | overview | relist | memory | pass => exact .inl ⟨rfl, rfl⟩

/-- The registrations after an event are the one it adds and those it leaves. -/
theorem WellFormed.mem_registrations_after_iff (wellFormed : store.WellFormed) (event : StoreEvent)
    (registration : Registration) :
    registration ∈ (store.after event).registrations ↔
      store.registers event = some registration ∨
      registration ∈ store.registrations ∧ store.keeps event registration = true ∧
        ∀ added, store.registers event = some added → registration.key ≠ added.key := by
  have kept : ((store.registrations.filter (store.keeps event)).map (·.key)).Nodup :=
    wellFormed.keys.sublist (List.filter_sublist.map _)
  rw [(store.registrations_after event).mem_iff]
  cases registers : store.registers event with
  | none => simp [List.mem_filter]
  | some added =>
    simp only [mem_registerIn_iff kept, List.mem_filter, Option.some.injEq]
    constructor
    · rintro (isAdded | ⟨⟨member, kept⟩, different⟩)
      · exact .inl isAdded.symm
      · exact .inr ⟨member, kept, fun other same => same ▸ different⟩
    · rintro (isAdded | ⟨member, kept, different⟩)
      · exact .inl isAdded.symm
      · exact .inr ⟨⟨member, kept⟩, different added rfl⟩

/-- Every event leaves a well-formed store well-formed. -/
theorem WellFormed.after (wellFormed : store.WellFormed) (event : StoreEvent) :
    (store.after event).WellFormed where
  ids := by
    have kept : (store.entries.map fun entry =>
        entry.afterAll store.clock (store.effects event entry)).map (·.id) =
          store.entries.map (·.id) := by
      simp [List.map_map, Function.comp_def]
    rw [entries_after, List.map_append, kept, wellFormed.ids]
    rcases store.made_cases event with ⟨made, _⟩ | ⟨search, made, _⟩
    · simp [made]
    · rw [made, List.length_append, List.length_map, List.length_singleton,
        List.range'_1_concat, Nat.add_comm 1]
      rfl
  coherent := by
    intro entry member
    rw [entries_after, List.mem_append, List.mem_map] at member
    rcases member with ⟨earlier, earlierMember, rfl⟩ | isMade
    · exact (wellFormed.coherent earlier earlierMember).afterAll _
    · rcases store.made_cases event with ⟨made, _⟩ | ⟨search, made, _⟩
      · simp [made] at isMade
      · rw [made, List.mem_singleton] at isMade
        rw [isMade]
        exact Entry.coherent_make ..
  keys := by
    have kept : ((store.registrations.filter (store.keeps event)).map (·.key)).Nodup :=
      wellFormed.keys.sublist (List.filter_sublist.map _)
    rw [((store.registrations_after event).map _).nodup_iff]
    split
    · exact kept
    · exact nodup_keys_registerIn _ _ kept
  leads := by
    intro registration member
    rw [entries_after]
    rcases (wellFormed.mem_registrations_after_iff event registration).mp member with
      added | ⟨earlier, _, _⟩
    · rcases store.made_cases event with ⟨_, none⟩ | ⟨search, made, none | ⟨_, _, registers⟩⟩
      · simp [none] at added
      · simp [none] at added
      · rw [registers, Option.some.injEq] at added
        subst added
        exact ⟨_, List.mem_append_right _ (by rw [made]; exact List.mem_singleton_self _), rfl, rfl⟩
    · obtain ⟨entry, entryMember, id, key⟩ := wellFormed.leads registration earlier
      refine ⟨_, List.mem_append_left _ (List.mem_map_of_mem entryMember), ?_, ?_⟩
      · rw [Entry.id_afterAll, id]
      · rw [Entry.key_afterAll, key]

@[simp] theorem afterAll_nil (store : Store) : store.afterAll [] = store := rfl

@[simp] theorem afterAll_cons (store : Store) (event : StoreEvent) (rest : List StoreEvent) :
    store.afterAll (event :: rest) = (store.after event).afterAll rest := rfl

@[simp] theorem afterAll_append (store : Store) (earlier later : List StoreEvent) :
    store.afterAll (earlier ++ later) = (store.afterAll earlier).afterAll later := by
  simp [afterAll]

/-- Any history leaves a well-formed store well-formed. -/
theorem WellFormed.afterAll (wellFormed : store.WellFormed) (history : List StoreEvent) :
    (store.afterAll history).WellFormed := by
  induction history generalizing store with
  | nil => exact wellFormed
  | cons event rest ih => exact ih (wellFormed.after event)

/-- A cache is created empty, and with the settings that were asked for. -/
theorem eq_empty_of_create {settings : Settings} {policy : Policy} {memory : MemoryReadings}
    (created : create settings policy memory = .ok store) :
    store = empty settings policy memory := by
  unfold create at created
  split at created
  next => cases created
  next valid validated =>
    have same : valid = settings := by
      unfold Settings.validate at validated
      split at validated
      next => cases validated
      next =>
        split at validated
        next => cases validated
        next => exact (Except.ok.inj validated).symm
    rw [← same]
    exact (Except.ok.inj created).symm

/-- A cache is created well-formed. -/
theorem wellFormed_of_create {settings : Settings} {policy : Policy} {memory : MemoryReadings}
    (created : create settings policy memory = .ok store) : store.WellFormed := by
  rw [eq_empty_of_create created]
  exact ⟨rfl, by simp [empty], by simp [empty], by simp [empty]⟩

/-- Every reachable store is well-formed. -/
theorem Reachable.wellFormed (reachable : store.Reachable) : store.WellFormed := by
  obtain ⟨settings, policy, memory, initial, history, created, rfl⟩ := reachable
  exact (wellFormed_of_create created).afterAll history

/-- An event brings the entry with a number its effects. -/
theorem WellFormed.find?_after (wellFormed : store.WellFormed) {id : EntryId} {entry : Entry}
    (found : store.find? id = some entry) (event : StoreEvent) :
    (store.after event).find? id =
      some (entry.afterAll store.clock (store.effects event entry)) := by
  obtain ⟨member, same⟩ := wellFormed.find?_eq_some_iff.mp found
  refine (wellFormed.after event).find?_eq_some_iff.mpr ⟨?_, by rw [Entry.id_afterAll, same]⟩
  rw [entries_after]
  exact List.mem_append_left _ (List.mem_map_of_mem member)

/-- An entry that there is after an event was there before, or was just made. -/
theorem WellFormed.find?_after_cases (wellFormed : store.WellFormed) {event : StoreEvent}
    {id : EntryId} {later : Entry} (found : (store.after event).find? id = some later) :
    (∃ entry, store.find? id = some entry ∧
      later = entry.afterAll store.clock (store.effects event entry)) ∨
    (id = store.nextId ∧ ∃ search, store.made event = [later] ∧
      later = .make id search store.clock) := by
  obtain ⟨member, same⟩ := (wellFormed.after event).find?_eq_some_iff.mp found
  rw [entries_after, List.mem_append, List.mem_map] at member
  rcases member with ⟨entry, entryMember, rfl⟩ | isMade
  · refine .inl ⟨entry, ?_, rfl⟩
    rw [Entry.id_afterAll] at same
    exact wellFormed.find?_eq_some_iff.mpr ⟨entryMember, same⟩
  · rcases store.made_cases event with ⟨made, _⟩ | ⟨search, made, _⟩
    · simp [made] at isMade
    · rw [made, List.mem_singleton] at isMade
      subst isMade
      have isNext : id = store.nextId := same.symm
      exact .inr ⟨isNext, search, made, by rw [isNext]⟩

/-- A number that leads to an entry has been given away. -/
theorem WellFormed.lt_nextId_of_find? (wellFormed : store.WellFormed) {id : EntryId}
    {entry : Entry} (found : store.find? id = some entry) : id < store.nextId := by
  obtain ⟨member, same⟩ := wellFormed.find?_eq_some_iff.mp found
  rw [← same]
  exact wellFormed.id_lt_nextId member

/-- An entry lives on through any history, and what no event takes from it stays. -/
theorem WellFormed.find?_afterAll (wellFormed : store.WellFormed) (holds : Entry → Prop)
    (step : ∀ now entry event, holds entry → holds (entry.after now event)) {id : EntryId}
    {entry : Entry} (found : store.find? id = some entry) (initially : holds entry)
    (history : List StoreEvent) :
    ∃ later, (store.afterAll history).find? id = some later ∧ holds later := by
  induction history generalizing store entry with
  | nil => exact ⟨entry, found, initially⟩
  | cons event rest ih =>
    exact ih (wellFormed.after event) (wellFormed.find?_after found event)
      (Entry.afterAll_preserves holds (fun entry event => step _ entry event) _ initially)

/-- An entry is found again after any history, and lives on for its search. -/
theorem WellFormed.exists_later (wellFormed : store.WellFormed) {id : EntryId} {entry : Entry}
    (found : store.find? id = some entry) (history : List StoreEvent) :
    ∃ later, (store.afterAll history).find? id = some later ∧ later.search = entry.search :=
  wellFormed.find?_afterAll (fun later => later.search = entry.search)
    (fun now later event same => (Entry.search_after now later event).trans same) found rfl history

/-- An entry that is found after a history lives on for its search. -/
theorem WellFormed.search_afterAll (wellFormed : store.WellFormed) {id : EntryId}
    {entry later : Entry} (found : store.find? id = some entry) (history : List StoreEvent)
    (foundLater : (store.afterAll history).find? id = some later) :
    later.search = entry.search := by
  obtain ⟨same, sameFound, isSearch⟩ := wellFormed.exists_later found history
  rw [foundLater, Option.some.injEq] at sameFound
  rw [sameFound, isSearch]

/-- What entries are made with and no event takes from them, all entries have in
every history. -/
theorem forall_entries_afterAll {holds : Entry → Prop}
    (made : ∀ id search now, holds (.make id search now))
    (step : ∀ now entry event, holds entry → holds (entry.after now event))
    (initially : ∀ entry ∈ store.entries, holds entry) (history : List StoreEvent) :
    ∀ entry ∈ (store.afterAll history).entries, holds entry := by
  induction history generalizing store with
  | nil => exact initially
  | cons event rest ih =>
    refine ih fun entry member => ?_
    rw [entries_after, List.mem_append, List.mem_map] at member
    rcases member with ⟨before, beforeMember, rfl⟩ | isMade
    · exact Entry.afterAll_preserves holds (fun entry event => step _ entry event) _
        (initially before beforeMember)
    · rcases store.made_cases event with ⟨none, _⟩ | ⟨search, isOne, _⟩
      · simp [none] at isMade
      · rw [isOne, List.mem_singleton] at isMade
        exact isMade ▸ made ..

/-- An entry that was there before an event stays registered if its registration
is left in the cache and not replaced. -/
theorem WellFormed.mem_registeredIds_after_iff (wellFormed : store.WellFormed) {id : EntryId}
    {entry : Entry} (found : store.find? id = some entry) (event : StoreEvent) :
    id ∈ (store.after event).registeredIds ↔
      (⟨entry.key, id⟩ : Registration) ∈ store.registrations ∧
        store.keeps event ⟨entry.key, id⟩ = true ∧
        ∀ added, store.registers event = some added → entry.key ≠ added.key := by
  have notNew : ∀ added, store.registers event = some added → added.entry ≠ id := by
    intro added registers same
    have before := wellFormed.lt_nextId_of_find? found
    rcases store.made_cases event with ⟨_, none⟩ | ⟨search, _, none | ⟨_, _, registersNext⟩⟩
    · simp [none] at registers
    · simp [none] at registers
    · rw [registersNext, Option.some.injEq] at registers
      subst registers
      exact Nat.ne_of_lt before same.symm
  constructor
  · intro registered
    obtain ⟨⟨key, number⟩, member, same⟩ := List.mem_map.mp registered
    simp only at same
    subst same
    rcases (wellFormed.mem_registrations_after_iff event _).mp member with
      added | ⟨before, kept, stays⟩
    · exact absurd rfl (notNew _ added)
    · obtain ⟨leads, leadsFound, sameKey⟩ := wellFormed.find?_registration before
      rw [found, Option.some.injEq] at leadsFound
      rw [leadsFound, sameKey]
      exact ⟨before, kept, stays⟩
  · intro kept
    refine List.mem_map.mpr ⟨⟨entry.key, id⟩, ?_, rfl⟩
    exact (wellFormed.mem_registrations_after_iff event _).mpr (.inr kept)

/-- A registered entry is registered for its key. -/
theorem WellFormed.mem_registrations_of_find? (wellFormed : store.WellFormed) {id : EntryId}
    {entry : Entry} (found : store.find? id = some entry) (registered : id ∈ store.registeredIds) :
    (⟨entry.key, id⟩ : Registration) ∈ store.registrations := by
  obtain ⟨⟨key, number⟩, member, same⟩ := List.mem_map.mp registered
  simp only at same
  subst same
  obtain ⟨leads, leadsFound, sameKey⟩ := wellFormed.find?_registration member
  rw [found, Option.some.injEq] at leadsFound
  rw [leadsFound, sameKey]
  exact member

/-- An entry that is not registered never will be again. -/
theorem WellFormed.notMem_registeredIds_afterAll (wellFormed : store.WellFormed) {id : EntryId}
    {entry : Entry} (found : store.find? id = some entry) (unregistered : id ∉ store.registeredIds)
    (history : List StoreEvent) : id ∉ (store.afterAll history).registeredIds := by
  induction history generalizing store entry with
  | nil => exact unregistered
  | cons event rest ih =>
    refine ih (wellFormed.after event) (wellFormed.find?_after found event) ?_
    rw [wellFormed.mem_registeredIds_after_iff found]
    rintro ⟨before, _⟩
    exact unregistered (List.mem_map.mpr ⟨_, before, rfl⟩)

/-- Whatever is registered has been made. -/
theorem WellFormed.find?_of_registered (wellFormed : store.WellFormed) {id : EntryId}
    (registered : id ∈ store.registeredIds) : ∃ entry, store.find? id = some entry := by
  obtain ⟨registration, member, rfl⟩ := List.mem_map.mp registered
  obtain ⟨entry, found, _⟩ := wellFormed.find?_registration member
  exact ⟨entry, found⟩

/-- What events have no part in, histories have no part in. -/
theorem afterAll_frame (store : Store) (history : List StoreEvent) :
    (store.afterAll history).settings = store.settings ∧
      (store.afterAll history).policy = store.policy := by
  induction history generalizing store with
  | nil => exact ⟨rfl, rfl⟩
  | cons event rest ih =>
    obtain ⟨settings, policy⟩ := store.after_frame event
    rw [← settings, ← policy]
    exact ih (store.after event)

/-- An outcome that clients can be given is final. -/
theorem WellFormed.outcome?_afterAll (wellFormed : store.WellFormed)
    {id : EntryId} {outcome : Outcome} (told : store.outcome? id = some outcome)
    (history : List StoreEvent) : (store.afterAll history).outcome? id = some outcome := by
  obtain ⟨entry, found, isOutcome⟩ := Option.bind_eq_some_iff.mp told
  cases slot : entry.slot with
  | pending => simp [Entry.outcome?, slot, Slot.outcome?] at isOutcome
  | running => simp [Entry.outcome?, slot, Slot.outcome?] at isOutcome
  | settled verdict =>
    obtain ⟨member, _⟩ := wellFormed.find?_eq_some_iff.mp found
    obtain ⟨later, foundLater, _, slotLater⟩ := wellFormed.find?_afterAll
      (fun entry => entry.Coherent ∧ entry.slot = .settled verdict)
      (fun now entry event earlier =>
        ⟨earlier.1.after event, earlier.1.slot_after_of_settled earlier.2 event⟩)
      found ⟨wellFormed.coherent entry member, slot⟩ history
    rw [outcome?, foundLater, Option.bind_some, ← isOutcome, Entry.outcome?, Entry.outcome?,
      slotLater, slot]

/-- A search of a small index. -/
def plainSearch (pattern : String) : Search where
  key := ⟨"small", pattern, false⟩
  cacheable := true
  hits := 3
  script := []

/-- A new cache that may keep a hundred searches and run two, with ample memory free. -/
def freshStore : Store := empty (.standard 2) .standard (.fixed 200000000)

theorem create_freshStore :
    create (.standard 2) .standard (.fixed 200000000) = .ok freshStore := rfl

end SweptCache.Store
