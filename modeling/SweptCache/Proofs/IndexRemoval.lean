import SweptCache.Proofs.Reachability
import SweptCache.Session

/-!
# Removing the searches of an index

To remove the searches of an index and to clear the cache are cases of one
operation, `Store.removeKeys`, by which all searches with some property leave the
cache and those of them that are not done are cancelled. Two such removals in a
row are the removal of what either removes (`Store.removeKeys_removeKeys`). So
the removals of several indexes may come in any order and any number of times.
-/

namespace SweptCache

namespace Entry

@[simp] theorem id_cancelUnlessDone (now : Instant) (entry : Entry) :
    (entry.cancelUnlessDone now).id = entry.id := by
  unfold cancelUnlessDone
  split <;> simp

/-- To cancel an entry a second time at one moment changes nothing. -/
theorem cancelUnlessDone_cancelUnlessDone (now : Instant) (entry : Entry) :
    (entry.cancelUnlessDone now).cancelUnlessDone now = entry.cancelUnlessDone now := by
  cases done : entry.searchDone with
  | true => simp [cancelUnlessDone, done]
  | false =>
    cases slot : entry.slot with
    | pending | running => simp [cancelUnlessDone, done, cancel, slot]
    | settled verdict => simp [cancelUnlessDone, done, cancel, slot]

end Entry

namespace Store

variable {store : Store}

/-- The numbers of the entries whose keys are to leave. -/
def leavingIds (store : Store) (leaves : SearchKey → Bool) : List EntryId :=
  (store.registrations.filter fun registration => leaves registration.key).map (·.entry)

/-- The store without the searches whose keys are to leave, those of them cancelled that were not
done. -/
def removeKeys (store : Store) (leaves : SearchKey → Bool) : Store :=
  { store.updateAll (store.leavingIds leaves) (Entry.cancelUnlessDone store.clock) with
    registrations := store.registrations.filter fun registration => !leaves registration.key }

/-- All that matters of the keys that are to leave is which registered keys are among them. -/
theorem removeKeys_congr {first second : SearchKey → Bool}
    (same : ∀ registration ∈ store.registrations,
      first registration.key = second registration.key) :
    store.removeKeys first = store.removeKeys second := by
  have leaving : store.leavingIds first = store.leavingIds second :=
    congrArg (List.map Registration.entry) (List.filter_congr same)
  have staying : (store.registrations.filter fun registration => !first registration.key) =
      store.registrations.filter fun registration => !second registration.key :=
    List.filter_congr fun registration member => by rw [same registration member]
  rw [removeKeys, removeKeys, leaving, staying]

/-- If no key is to leave, the store stays as it is. -/
theorem removeKeys_of_none (store : Store) : (store.removeKeys fun _ => false) = store := by
  simp [removeKeys, leavingIds, updateAll]

/-- An entry is among those that leave in one of two removals, or in both together. -/
theorem contains_leavingIds_or (store : Store) (first second : SearchKey → Bool) (id : EntryId) :
    (store.leavingIds fun key => first key || second key).contains id =
      ((store.leavingIds first).contains id ||
        ((store.removeKeys first).leavingIds second).contains id) := by
  rw [Bool.eq_iff_iff, Bool.or_eq_true]
  simp only [List.contains_iff_mem, leavingIds, removeKeys, List.mem_map, List.mem_filter,
    Bool.or_eq_true, Bool.not_eq_true']
  constructor
  · rintro ⟨registration, ⟨member, leaves⟩, same⟩
    cases leavesFirst : first registration.key with
    | true => exact .inl ⟨registration, ⟨member, leavesFirst⟩, same⟩
    | false =>
      have leavesSecond : second registration.key = true := by simpa [leavesFirst] using leaves
      exact .inr ⟨registration, ⟨⟨member, leavesFirst⟩, leavesSecond⟩, same⟩
  · rintro (⟨registration, ⟨member, leaves⟩, same⟩ | ⟨registration, ⟨⟨member, _⟩, leaves⟩, same⟩)
    · exact ⟨registration, ⟨member, .inl leaves⟩, same⟩
    · exact ⟨registration, ⟨member, .inr leaves⟩, same⟩

/-- Two removals at one moment remove together what either removes. -/
theorem removeKeys_removeKeys (store : Store) (first second : SearchKey → Bool) :
    (store.removeKeys first).removeKeys second =
      store.removeKeys fun key => first key || second key := by
  have entries : ((store.removeKeys first).removeKeys second).entries =
      (store.removeKeys fun key => first key || second key).entries := by
    have each : ∀ entry : Entry,
        (let once := if (store.leavingIds first).contains entry.id then
            entry.cancelUnlessDone store.clock else entry
          if ((store.removeKeys first).leavingIds second).contains once.id then
            once.cancelUnlessDone store.clock else once) =
          if (store.leavingIds fun key => first key || second key).contains entry.id then
            entry.cancelUnlessDone store.clock else entry := by
      intro entry
      rw [contains_leavingIds_or]
      cases (store.leavingIds first).contains entry.id <;>
        simp [Entry.cancelUnlessDone_cancelUnlessDone]
    show (store.entries.map _).map _ = store.entries.map _
    rw [List.map_map]
    exact List.map_congr_left fun entry _ => each entry
  have registrations : ((store.removeKeys first).removeKeys second).registrations =
      (store.removeKeys fun key => first key || second key).registrations := by
    simp [removeKeys, List.filter_filter, Bool.and_comm]
  exact congrArg₂ (fun entries registrations =>
    ({ store with entries := entries, registrations := registrations } : Store))
    entries registrations

/-- The removal of an index removes the keys of that index. -/
theorem removeIndex_eq (store : Store) (index : String) :
    store.removeIndex index = store.removeKeys fun key => key.index = index := by
  simp [removeIndex, removeKeys, leavingIds, registrationsOf]

/-- To clear the cache and cancel what runs is to remove all keys. -/
theorem clear_eq (store : Store) : store.clear true = store.removeKeys fun _ => true := by
  simp [clear, removeKeys, leavingIds, registeredIds, updateAll]

/-- The removals of several indexes remove the keys of all of them. -/
theorem afterAll_removeIndex (store : Store) (indexes : List String) :
    store.afterAll (indexes.map .removeIndex) =
      store.removeKeys fun key => indexes.contains key.index := by
  induction indexes generalizing store with
  | nil => exact store.removeKeys_of_none.symm
  | cons index rest ih =>
    rw [List.map_cons, afterAll_cons, ih, after, removeIndex_eq, removeKeys_removeKeys]
    exact removeKeys_congr fun registration _ => by simp [eq_comm]

/-- How many searches the removals of several indexes remove, one after the other. -/
def totalRemoved (store : Store) : List String → Nat
  | [] => 0
  | index :: rest =>
    (store.registrationsOf index).length + (store.removeIndex index).totalRemoved rest

/-- The searches of an index and the others are all there are. -/
theorem length_registrationsOf_add_size (store : Store) (index : String) :
    (store.registrationsOf index).length + (store.removeIndex index).size = store.size := by
  have parts := List.length_eq_countP_add_countP
    (fun registration : Registration => decide (registration.key.index = index))
    (l := store.registrations)
  simpa [registrationsOf, removeIndex, size, List.countP_eq_length_filter] using parts.symm

/-- What has been removed and what is left is all there was. -/
theorem totalRemoved_add_size (store : Store) (indexes : List String) :
    store.totalRemoved indexes + (store.afterAll (indexes.map .removeIndex)).size =
      store.size := by
  induction indexes generalizing store with
  | nil => simp [totalRemoved]
  | cons index rest ih =>
    have here := store.length_registrationsOf_add_size index
    have later := ih (store.removeIndex index)
    simp only [totalRemoved, List.map_cons, afterAll_cons, after]
    omega

/-- An entry leaves with an index if it is registered and its search is of that index. -/
theorem WellFormed.mem_registrationsOf_iff (wellFormed : store.WellFormed) {id : EntryId}
    {entry : Entry} (found : store.find? id = some entry) (index : String) :
    id ∈ (store.registrationsOf index).map (·.entry) ↔
      id ∈ store.registeredIds ∧ entry.key.index = index := by
  constructor
  · intro member
    obtain ⟨registration, isOf, rfl⟩ := List.mem_map.mp member
    obtain ⟨registered, isIndex⟩ := List.mem_filter.mp isOf
    obtain ⟨other, otherFound, sameKey⟩ := wellFormed.find?_registration registered
    rw [found, Option.some.injEq] at otherFound
    subst otherFound
    exact ⟨List.mem_map_of_mem registered, by simpa [sameKey] using isIndex⟩
  · rintro ⟨registered, isIndex⟩
    have member := wellFormed.mem_registrations_of_find? found registered
    exact List.mem_map.mpr ⟨_, List.mem_filter.mpr ⟨member, by simpa using isIndex⟩, rfl⟩

/-- The removal of an index cancels the entries that leave and are not done, and leaves every
other entry as it is. -/
theorem WellFormed.find?_removeIndex (wellFormed : store.WellFormed) {id : EntryId}
    {entry : Entry} (found : store.find? id = some entry) (index : String) :
    (store.removeIndex index).find? id =
      some (if id ∈ store.registeredIds ∧ entry.key.index = index ∧ entry.searchDone = false then
        entry.cancel store.clock else entry) := by
  have becomes := wellFormed.find?_after found (.removeIndex index)
  have sameId := (wellFormed.find?_eq_some_iff.mp found).2
  have isLeaving := wellFormed.mem_registrationsOf_iff found index
  rw [show (store.removeIndex index).find? id = _ from becomes, effects, sameId]
  by_cases leaves : id ∈ store.registeredIds ∧ entry.key.index = index
  · cases done : entry.searchDone <;> simp [isLeaving.mpr leaves, leaves, Entry.after]
  · have stays : id ∉ (store.registrationsOf index).map (·.entry) := fun member =>
      leaves (isLeaving.mp member)
    have unmet : ¬(id ∈ store.registeredIds ∧ entry.key.index = index ∧
        entry.searchDone = false) := fun all => leaves ⟨all.1, all.2.1⟩
    simp [stays, if_neg unmet]

/-- The registered entries of other indexes stay registered, and as they are. -/
theorem WellFormed.registeredEntries_removeIndex (wellFormed : store.WellFormed)
    (index : String) :
    (store.removeIndex index).registeredEntries =
      store.registeredEntries.filter fun entry => entry.key.index ≠ index := by
  have stays : (store.removeIndex index).registeredEntries =
      (store.registrations.filter fun registration => registration.key.index ≠ index).filterMap
        fun registration => (store.removeIndex index).find? registration.entry := rfl
  rw [stays, registeredEntries, List.filter_filterMap, List.filterMap_filter]
  refine List.filterMap_congr fun registration member => ?_
  obtain ⟨entry, found, sameKey⟩ := wellFormed.find?_registration member
  have later := wellFormed.find?_removeIndex found index
  by_cases isIndex : entry.key.index = index
  · simp [found, ← sameKey, isIndex, Option.filter]
  · simp [later, found, ← sameKey, isIndex, Option.filter]

/-- What the removal of an index comes to. -/
structure IsIndexRemoval (store : Store) (index : String) (later : Store) : Prop where
  /-- The answer tells how many searches were removed. -/
  answer : ∀ session : Session, session.store = store →
    session.performOnCache (.removeIndex index) =
      (.number (store.registrationsOf index).length, session.withStore later)
  /-- These are the registered searches of the index. -/
  number : (store.registrationsOf index).length =
    store.registeredEntries.countP fun entry => entry.key.index = index
  /-- The registered entries of other indexes stay registered, and as they are. -/
  registered : later.registeredEntries =
    store.registeredEntries.filter fun entry => entry.key.index ≠ index
  /-- What leaves and is not done is asked to stop; what has not been started is cancelled. -/
  asked : ∀ id entry, store.find? id = some entry → id ∈ store.registeredIds →
    entry.key.index = index → entry.searchDone = false →
      entry.status = .pending ∧ later.find? id = some { entry with
        cancelRequested := true, searchDone := true, slot := .settled .cancelled,
        finished := some store.clock } ∨
      entry.status = .running ∧ later.find? id = some { entry with cancelRequested := true }
  /-- Every other entry stays as it is, registered or not. -/
  untouched : ∀ id entry, store.find? id = some entry →
    (id ∈ store.registeredIds → entry.key.index = index → entry.searchDone = true) →
      later.find? id = some entry
  /-- No entry is made or lost. -/
  ids : later.entries.map (·.id) = store.entries.map (·.id)
  /-- The removal has no part in anything else. -/
  frame : later = { store with entries := later.entries, registrations := later.registrations }

/-- The removal of an index comes to that. -/
theorem WellFormed.isIndexRemoval (wellFormed : store.WellFormed) (index : String) :
    store.IsIndexRemoval index (store.removeIndex index) where
  answer := by
    rintro session rfl
    rfl
  number := by
    have keys : store.registeredEntries.map (·.key.index) =
        store.registrations.map (·.key.index) := by
      have same := congrArg (List.map SearchKey.index) wellFormed.keys_registeredEntries
      simpa [List.map_map, Function.comp_def] using same
    have counts := congrArg (List.countP fun name => decide (name = index)) keys
    rw [List.countP_map, List.countP_map] at counts
    rw [registrationsOf, ← List.countP_eq_length_filter]
    exact counts.symm
  registered := wellFormed.registeredEntries_removeIndex index
  asked := by
    intro id entry found registered isIndex unfinished
    have later := wellFormed.find?_removeIndex found index
    rw [if_pos ⟨registered, isIndex, unfinished⟩] at later
    cases wellFormed.coherent entry (List.mem_of_find?_eq_some found) with
    | pending pending =>
      refine .inl ⟨pending.status_eq, later.trans ?_⟩
      simp only [Entry.cancel, pending.slot]
    | running stage running =>
      refine .inr ⟨running.status_eq, later.trans ?_⟩
      simp only [Entry.cancel, running.slot]
    | settled verdict settled => simp [settled.searchDone] at unfinished
  untouched := by
    intro id entry found exempt
    have later := wellFormed.find?_removeIndex found index
    rwa [if_neg] at later
    rintro ⟨registered, isIndex, unfinished⟩
    simp [exempt registered isIndex] at unfinished
  ids := by
    simp only [removeIndex, updateAll, List.map_map]
    refine List.map_congr_left fun entry _ => ?_
    simp only [Function.comp]
    split <;> simp
  frame := rfl

/-- The removal of an index removes exactly the searches of that index, tells their number, asks
those of them to stop that are not done, and leaves everything else as it is. At one moment the
removals of several indexes come to the same in any order and with any repetitions, also in the
number of searches that they remove together; and if they include all indexes, they come to what
clearing the cache with cancellation comes to. -/
theorem index_removal_is_exact (reachable : store.Reachable) :
    (∀ index, store.IsIndexRemoval index (store.removeIndex index)) ∧
    (∀ indexes others : List String, (∀ index, index ∈ indexes ↔ index ∈ others) →
      store.afterAll (indexes.map .removeIndex) = store.afterAll (others.map .removeIndex) ∧
        store.totalRemoved indexes = store.totalRemoved others) ∧
    (∀ indexes : List String, (∀ entry ∈ store.registeredEntries, entry.key.index ∈ indexes) →
      store.afterAll (indexes.map .removeIndex) = store.clear true ∧
        store.totalRemoved indexes = store.size) := by
  have wellFormed := reachable.wellFormed
  refine ⟨wellFormed.isIndexRemoval, ?_, ?_⟩
  · intro indexes others same
    have sameStore : store.afterAll (indexes.map .removeIndex) =
        store.afterAll (others.map .removeIndex) := by
      rw [afterAll_removeIndex, afterAll_removeIndex]
      refine removeKeys_congr fun registration _ => ?_
      rw [Bool.eq_iff_iff, List.contains_iff_mem, List.contains_iff_mem, same]
    have removed := store.totalRemoved_add_size indexes
    have removedOthers := store.totalRemoved_add_size others
    rw [sameStore] at removed
    exact ⟨sameStore, by omega⟩
  · intro indexes all
    have isClear : store.afterAll (indexes.map .removeIndex) = store.clear true := by
      rw [afterAll_removeIndex, clear_eq]
      refine removeKeys_congr fun registration member => ?_
      obtain ⟨entry, found, sameKey⟩ := wellFormed.find?_registration member
      have registered : entry ∈ store.registeredEntries :=
        List.mem_filterMap.mpr ⟨registration, member, found⟩
      rw [← sameKey, List.contains_iff_mem]
      exact all entry registered
    have removed := store.totalRemoved_add_size indexes
    rw [isClear] at removed
    exact ⟨isClear, by simpa [clear, size] using removed⟩

/-- A search of an index. -/
def searchOf (index : String) : Search where
  key := ⟨index, "term", false⟩
  cacheable := true
  hits := 3
  script := []

/-- A cache with a search that has not been started and one of another index that runs. -/
def mixedStore : Store :=
  freshStore.afterAll [.submit (searchOf "small"), .submit (searchOf "large"), .start 2]

theorem index_removal_is_exact_of_mixed :
    mixedStore.IsIndexRemoval "large" (mixedStore.removeIndex "large") ∧
      mixedStore.afterAll (["large", "small", "large"].map .removeIndex) =
        mixedStore.afterAll (["small", "large"].map .removeIndex) ∧
      mixedStore.afterAll (["small", "large"].map .removeIndex) = mixedStore.clear true ∧
      mixedStore.totalRemoved ["small", "large"] = 2 := by
  have reachable : mixedStore.Reachable := ⟨_, _, _, _, _, create_freshStore, rfl⟩
  obtain ⟨removes, inAnyOrder, all⟩ := index_removal_is_exact reachable
  have isEither : ∀ entry ∈ mixedStore.registeredEntries, entry.key.index ∈ ["small", "large"] :=
    fun entry registered =>
      (show mixedStore.registeredEntries.map (·.key.index) = ["small", "large"] from rfl) ▸
        List.mem_map_of_mem registered
  obtain ⟨isClear, total⟩ := all ["small", "large"] isEither
  refine ⟨removes "large", (inAnyOrder _ _ fun index => ?_).1, isClear, total⟩
  simp only [List.mem_cons, List.not_mem_nil, or_false]
  tauto

end Store

end SweptCache
