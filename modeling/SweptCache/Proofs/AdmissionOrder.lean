import Mathlib.Data.List.Sort
import SweptCache.Proofs.Grants
import SweptCache.Proofs.Listings

/-!
# The order of admission

Entries are numbered in the order in which searches are admitted. What is
registered was admitted with the cache, under the number it still has, so a
listing of the cache in the order of numbers shows the registered entries in
the order of their admission, and each of them once. Where caching is off,
nothing is registered at all.
-/

namespace SweptCache

/-- The number of the entry that a submission was given, if that is new. -/
def Submitted.createdId? : Submitted → Option EntryId
  | .found _ => none
  | .created id => some id

namespace Store

/-- The numbers of the entries that were given away as new, in the order in which they were. -/
def createdIds (granted : List (Search × Submitted)) : List EntryId :=
  granted.filterMap fun grant => grant.2.createdId?

theorem createdIds_append (first second : List (Search × Submitted)) :
    createdIds (first ++ second) = createdIds first ++ createdIds second :=
  List.filterMap_append

theorem mem_createdIds_iff {granted : List (Search × Submitted)} {id : EntryId} :
    id ∈ createdIds granted ↔ ∃ search, (search, .created id) ∈ granted := by
  simp only [createdIds, List.mem_filterMap]
  constructor
  · rintro ⟨⟨search, submitted⟩, member, isCreated⟩
    cases submitted with
    | found other => cases isCreated
    | created other =>
      injection isCreated with same
      exact ⟨search, same ▸ member⟩
  · rintro ⟨search, member⟩
    exact ⟨_, member, rfl⟩

variable {store : Store} {granted : List (Search × Submitted)}

/-- An event uses up as many numbers as it makes entries. -/
theorem nextId_after (store : Store) (event : StoreEvent) :
    (store.after event).nextId = store.nextId + (store.made event).length := by
  rw [nextId, nextId, entries_after, List.length_append, List.length_map]
  exact Nat.add_right_comm ..

/-- An entry that is given away as new has the next number, and uses it up. -/
theorem WellFormed.created_eq_nextId (wellFormed : store.WellFormed) {event : StoreEvent}
    {search : Search} {id : EntryId} (isNew : store.grant? event = some (search, .created id)) :
    id = store.nextId ∧ id < (store.after event).nextId := by
  obtain ⟨rfl, answered⟩ := grant?_eq_some_iff.mp isNew
  rcases wellFormed.submit_granted answered with ⟨_, isFound, _⟩ | ⟨isCreated, _, found⟩
  · cases isFound
  · injection isCreated with isNext
    subst isNext
    exact ⟨rfl, (wellFormed.after _).lt_nextId_of_find? found⟩

/-- A cache with the searches that have been admitted to it so far. -/
structure AdmissionRoll (store : Store) (granted : List (Search × Submitted)) : Prop where
  /-- The numbers of new entries grow with every admission. -/
  increasing : (createdIds granted).Pairwise (· < ·)
  /-- They have all been given away. -/
  given : ∀ id ∈ createdIds granted, id < store.nextId
  /-- Every registered entry was admitted for a search that uses the cache. -/
  admitted : ∀ entry ∈ store.registeredEntries,
    store.usesCache entry.search = true ∧ (entry.search, .created entry.id) ∈ granted

/-- What an event grants is entered in the roll. -/
theorem AdmissionRoll.after (roll : store.AdmissionRoll granted) (wellFormed : store.WellFormed)
    (event : StoreEvent) :
    (store.after event).AdmissionRoll (granted ++ (store.grant? event).toList) := by
  have isNext : ∀ id ∈ createdIds (store.grant? event).toList,
      id = store.nextId ∧ id < (store.after event).nextId := by
    intro id member
    obtain ⟨search, isNew⟩ := mem_createdIds_iff.mp member
    exact wellFormed.created_eq_nextId (Option.mem_toList.mp isNew)
  constructor
  case increasing =>
    rw [createdIds_append, List.pairwise_append]
    refine ⟨roll.increasing, ?_, ?_⟩
    · rcases store.grant? event with _ | ⟨search, found | created⟩
      · exact .nil
      · exact .nil
      · exact List.pairwise_singleton ..
    · intro first firstMember second secondMember
      rw [(isNext second secondMember).1]
      exact roll.given first firstMember
  case given =>
    rw [createdIds_append]
    refine List.forall_mem_append.mpr ⟨?_, fun id member => (isNext id member).2⟩
    intro id member
    rw [nextId_after]
    exact Nat.lt_add_right _ (roll.given id member)
  case admitted =>
    intro entry registered
    rw [usesCache_after]
    rcases wellFormed.registered_entry_cases registered with
      ⟨before, registeredBefore, rfl⟩ | ⟨search, uses, isNew, rfl⟩
    · obtain ⟨uses, member⟩ := roll.admitted before registeredBefore
      rw [Entry.search_afterAll, Entry.id_afterAll]
      exact ⟨uses, List.mem_append_left _ member⟩
    · exact ⟨uses, List.mem_append_right _ (Option.mem_toList.mpr isNew)⟩

/-- What a history grants is entered in the roll. -/
theorem AdmissionRoll.afterAll (roll : store.AdmissionRoll granted) (wellFormed : store.WellFormed)
    (history : List StoreEvent) :
    (store.afterAll history).AdmissionRoll (granted ++ store.grants history) := by
  induction history generalizing store granted with
  | nil => rwa [grants, List.append_nil]
  | cons event rest ih =>
    rw [afterAll_cons, grants, ← List.append_assoc]
    exact ih (roll.after wellFormed event) (wellFormed.after event)

/-- Nothing is registered where caching is off. -/
theorem AdmissionRoll.registrations_of_isDisabled (roll : store.AdmissionRoll granted)
    (wellFormed : store.WellFormed) (disabled : store.settings.isDisabled = true) :
    store.registrations = [] := by
  have none : store.registeredEntries = [] := by
    rw [List.eq_nil_iff_forall_not_mem]
    intro entry registered
    have uses := (roll.admitted entry registered).1
    simp [usesCache, disabled] at uses
  rw [← List.length_eq_zero_iff, ← size, wellFormed.size_eq, none, List.length_nil]

/-- A listing goes through the registered entries in the order of their admission. -/
theorem AdmissionRoll.listing_sublist (roll : store.AdmissionRoll granted)
    (wellFormed : store.WellFormed) :
    (store.listing.map (·.id)).Sublist (createdIds granted) := by
  have sorted := wellFormed.pairwise_listing
  refine List.sublist_of_subperm_of_pairwise ?_ sorted roll.increasing
  refine List.subperm_of_subset sorted.nodup fun id member => ?_
  obtain ⟨entry, listed, rfl⟩ := List.mem_map.mp member
  have registered := store.listing_perm.mem_iff.mp listed
  exact mem_createdIds_iff.mpr ⟨_, (roll.admitted entry registered).2⟩

/-- A cache that holds what was admitted to it, and lists it in the order of admission. -/
structure IsOrderly (store : Store) (granted : List (Search × Submitted)) : Prop where
  /-- A registered key is the key of the entry that is registered for it. -/
  leads : ∀ registration ∈ store.registrations,
    ∃ entry, store.find? registration.entry = some entry ∧ entry.key = registration.key
  /-- No two registered entries share a key or a number. -/
  distinct : store.registeredEntries.Pairwise fun first second =>
    first.key ≠ second.key ∧ first.id ≠ second.id
  /-- A registered entry was made by the submission of its search, which may be cached. -/
  submitted : ∀ entry ∈ store.registeredEntries,
    entry.search.cacheable = true ∧ (entry.search, .created entry.id) ∈ granted
  /-- A capacity limit of zero keeps everything out. -/
  disabled : store.settings.maxNumberOfSearches = some 0 ∨
    store.settings.maxSizeMegabytes = some 0 ∨ store.settings.maxSearchAgeSeconds = some 0 →
      store.registrations = []
  /-- Numbers grow with every admission. -/
  increasing : (createdIds granted).Pairwise (· < ·)
  /-- The contents are those of a listing that comes to every registered entry once, in the order
  of numbers and of admission. They are all shown, unless one of them is too large to be. -/
  contents : ∃ listing : List Entry, listing.Perm store.registeredEntries ∧
    (listing.map (·.id)).Pairwise (· < ·) ∧
    (listing.map (·.id)).Sublist (createdIds granted) ∧
    ∀ isDetailed,
      (∃ snapshots, store.contents isDetailed = .ok snapshots ∧
        snapshots.map (·.id) = listing.map (·.id)) ∨
      (store.contents isDetailed = .error .multiplication ∧
        ∃ entry ∈ listing, wordSize ≤ entry.exactSize)

/-- Whatever happens to a cache, it holds what was admitted to it, under the key it was admitted
with, and lists it in the order of admission. -/
theorem holds_what_was_admitted {settings : Settings} {policy : Policy} {memory : MemoryReadings}
    {initial : Store} (created : create settings policy memory = .ok initial)
    (history : List StoreEvent) :
    (initial.afterAll history).IsOrderly (initial.grants history) := by
  have initially : initial.AdmissionRoll [] := by
    rw [eq_empty_of_create created]
    exact ⟨.nil, by simp [createdIds], by simp [registeredEntries, empty]⟩
  have wellFormed := (wellFormed_of_create created).afterAll history
  have roll : (initial.afterAll history).AdmissionRoll (initial.grants history) :=
    initially.afterAll (wellFormed_of_create created) history
  constructor
  case leads => exact fun registration member => wellFormed.find?_registration member
  case distinct =>
    have keys := List.pairwise_map.mp wellFormed.nodup_keys_registeredEntries
    have ids := wellFormed.ids_registeredEntries ▸ wellFormed.nodup_registeredIds
    exact keys.and (List.pairwise_map.mp ids)
  case submitted =>
    intro entry registered
    obtain ⟨uses, member⟩ := roll.admitted entry registered
    simp only [usesCache, Bool.and_eq_true] at uses
    exact ⟨uses.1, member⟩
  case disabled =>
    intro zero
    refine roll.registrations_of_isDisabled wellFormed ?_
    simp only [Settings.isDisabled, Bool.or_eq_true, decide_eq_true_eq]
    tauto
  case increasing => exact roll.increasing
  case contents =>
    refine ⟨_, listing_perm _, wellFormed.pairwise_listing, roll.listing_sublist wellFormed, ?_⟩
    intro isDetailed
    rcases (initial.afterAll history).contents_cases isDetailed with
      ⟨snapshots, shown, ids, _⟩ | ⟨failed, entry, registered, large⟩
    · exact .inl ⟨snapshots, shown, ids⟩
    · exact .inr ⟨failed, entry, (listing_perm _).mem_iff.mpr registered, large⟩

/-- A history in which a search that was asked to stop is submitted once more, and gives way. -/
def givingWay : List StoreEvent :=
  [.submit (plainSearch "first"), .start 1, .cancel 1, .submit (plainSearch "second"),
    .submit { plainSearch "apart" with cacheable := false }, .submit (plainSearch "first")]

theorem holds_what_was_admitted_in_givingWay :
    create (.standard 2) .standard (.fixed 200000000) = .ok freshStore ∧
      (freshStore.afterAll givingWay).registrations =
        [⟨(plainSearch "first").key, 4⟩, ⟨(plainSearch "second").key, 2⟩] ∧
      (freshStore.afterAll givingWay).IsOrderly (freshStore.grants givingWay) :=
  ⟨create_freshStore, by decide, holds_what_was_admitted create_freshStore givingWay⟩

end Store

end SweptCache
