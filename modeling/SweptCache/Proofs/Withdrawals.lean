import SweptCache.Proofs.Departures

/-!
# Entries that stand for a key

An entry stands for a key while it is registered for it and nobody has asked it
to stop. All that can end this is a withdrawal: a client asks the entry to stop,
or its own search trips the token, or it is taken out of the cache. Until then
every submission of a search with that key is answered by the entry, and whoever
gets such a search is told what the entry has come to.
-/

namespace SweptCache.Store

/-- Whether an event takes searches out of the cache and puts no other in their place. -/
def removes (store : Store) : StoreEvent → Bool
  | .remove _ | .removeIndex _ | .clear _ | .shutDown | .sweep => true
  | .submit search => store.sweepsFor search
  | .start _ | .advance _ | .cancel _ | .trip _ | .touch _ | .score _ _ | .overview | .addEntry _
  | .relist _ | .memory _ | .pass _ => false

/-- An event asks an entry to stop, or takes it out of the cache. -/
def Withdraws (store : Store) (event : StoreEvent) (id : EntryId) : Prop :=
  event = .cancel id ∨ event = .trip id ∨ store.removes event = true ∧ store.Leaves event id

/-- An entry is withdrawn in the course of a history. -/
def IsWithdrawnIn (store : Store) (history : List StoreEvent) (id : EntryId) : Prop :=
  ∃ before event after, history = before ++ event :: after ∧
    (store.afterAll before).Withdraws event id

/-- An entry is registered for a key and nobody has asked it to stop. -/
def Stands (store : Store) (key : SearchKey) (id : EntryId) : Prop :=
  ∃ entry ∈ store.registeredEntries, entry.id = id ∧ entry.key = key ∧
    entry.cancelRequested = false

variable {store : Store} {search : Search} {key : SearchKey} {id : EntryId}

theorem not_isWithdrawnIn_nil : ¬store.IsWithdrawnIn [] id := by
  rintro ⟨before, event, after, split, _⟩
  simp at split

/-- An entry is withdrawn by the first event of a history or in the rest of it. -/
theorem isWithdrawnIn_cons {event : StoreEvent} {rest : List StoreEvent} :
    store.IsWithdrawnIn (event :: rest) id ↔
      store.Withdraws event id ∨ (store.after event).IsWithdrawnIn rest id := by
  constructor
  · rintro ⟨before, withdrawal, after, split, withdraws⟩
    rcases List.cons_eq_append_iff.mp split with ⟨rfl, same⟩ | ⟨before, rfl, rfl⟩
    · injection same with isWithdrawal
      exact .inl (isWithdrawal ▸ withdraws)
    · exact .inr ⟨before, withdrawal, after, rfl, withdraws⟩
  · rintro (withdraws | ⟨before, withdrawal, after, rfl, withdraws⟩)
    · exact ⟨[], event, rest, rfl, withdraws⟩
    · exact ⟨event :: before, withdrawal, after, rfl, withdraws⟩

/-- An entry that stands for the key of a search answers it. -/
theorem WellFormed.reusable?_of_stands (wellFormed : store.WellFormed)
    (uses : store.usesCache search = true) (stands : store.Stands search.key id) :
    ∃ entry, store.reusable? search = some entry ∧ entry.id = id := by
  obtain ⟨entry, registered, isEntry, sameKey, uncancelled⟩ := stands
  exact ⟨entry, wellFormed.reusable?_eq_some_iff.mpr ⟨uses, registered, sameKey, uncancelled⟩,
    isEntry⟩

/-- An entry that stands for a key does so until it is withdrawn. -/
theorem WellFormed.stands_after (wellFormed : store.WellFormed) (stands : store.Stands key id)
    {event : StoreEvent} (stays : ¬store.Withdraws event id) :
    (store.after event).Stands key id := by
  obtain ⟨entry, registered, rfl, rfl, uncancelled⟩ := stands
  obtain ⟨member, registeredId⟩ := wellFormed.mem_registeredEntries_iff.mp registered
  have found := wellFormed.find?_eq_some_iff.mpr ⟨member, rfl⟩
  have remains : entry.id ∈ (store.after event).registeredIds := by
    by_contra gone
    have notRemoved : store.removes event = false := by
      rw [Bool.eq_false_iff]
      exact fun removes => stays (.inr (.inr ⟨removes, registeredId, gone⟩))
    refine gone ((wellFormed.mem_registeredIds_after_iff found event).mpr
      ⟨wellFormed.mem_registrations_of_find? found registeredId, ?_, ?_⟩)
    · cases event with
      | submit search => simp [keeps, show store.sweepsFor search = false from notRemoved]
      | remove | removeIndex | clear | shutDown | sweep => cases notRemoved
      | _ => rfl
    · intro added registers sameKey
      obtain ⟨search, rfl⟩ := isSubmit_of_registers registers
      obtain ⟨uses, missing, isKey⟩ := reusable?_of_registers registers
      have reusable := wellFormed.reusable?_eq_some_iff.mpr
        ⟨uses, registered, sameKey.trans isKey, uncancelled⟩
      simp [missing] at reusable
  have foundAfter := wellFormed.find?_after found event
  obtain ⟨memberAfter, idAfter⟩ := (wellFormed.after event).find?_eq_some_iff.mp foundAfter
  refine ⟨_, (wellFormed.after event).mem_registeredEntries_iff.mpr ⟨memberAfter, ?_⟩, idAfter,
    Entry.key_afterAll .., ?_⟩
  · rwa [idAfter]
  · rw [Bool.eq_false_iff]
    intro asked
    rcases wellFormed.leaves_of_requested found foundAfter uncancelled asked with
      isCancel | isTrip | leaves
    · exact stays (.inl isCancel)
    · exact stays (.inr (.inl isTrip))
    · exact leaves.2 remains

/-- An entry that is not withdrawn in a history stands for its key in the end. -/
theorem WellFormed.stands_afterAll (wellFormed : store.WellFormed) (stands : store.Stands key id)
    {history : List StoreEvent} (stays : ¬store.IsWithdrawnIn history id) :
    (store.afterAll history).Stands key id := by
  induction history generalizing store with
  | nil => exact stands
  | cons event rest ih =>
    rw [isWithdrawnIn_cons, not_or] at stays
    exact ih (wellFormed.after event) (wellFormed.stands_after stands stays.1) stays.2

/-- No event shuts a cache in which an entry stands for a key after that. -/
theorem isShutDown_after_of_stands {event : StoreEvent}
    (stands : (store.after event).Stands key id) :
    (store.after event).isShutDown = store.isShutDown := by
  by_cases shuts : event = .shutDown
  · obtain ⟨entry, registered, _⟩ := stands
    rw [shuts] at registered
    cases registered
  · exact store.isShutDown_after shuts

/-- A cache is not shut while an entry stands for a key in it. -/
theorem WellFormed.isShutDown_afterAll_of_stands (wellFormed : store.WellFormed)
    (stands : store.Stands key id) {history : List StoreEvent}
    (stays : ¬store.IsWithdrawnIn history id) :
    (store.afterAll history).isShutDown = store.isShutDown := by
  induction history generalizing store with
  | nil => rfl
  | cons event rest ih =>
    rw [isWithdrawnIn_cons, not_or] at stays
    have standsNext := wellFormed.stands_after stands stays.1
    exact (ih (wellFormed.after event) standsNext stays.2).trans
      (isShutDown_after_of_stands standsNext)

/-- An open cache answers a search with the entry that stands for its key. -/
theorem WellFormed.submit_of_stands (wellFormed : store.WellFormed)
    (isOpen : store.isShutDown = false) (uses : store.usesCache search = true)
    (stands : store.Stands search.key id) : (store.submit search).1 = .ok (.found id) := by
  obtain ⟨entry, reusable, rfl⟩ := wellFormed.reusable?_of_stands uses stands
  simp only [submit, isOpen, Bool.false_eq_true, if_false, reusable]

/-- A client that gets a search for which an entry stands is told what the entry has come to. -/
theorem WellFormed.get_of_stands (wellFormed : store.WellFormed)
    (isOpen : store.isShutDown = false) (uses : store.usesCache search = true)
    (stands : store.Stands search.key id) : (store.get search).1 = .ok (store.outcome? id) := by
  obtain ⟨entry, reusable, rfl⟩ := wellFormed.reusable?_of_stands uses stands
  rw [wellFormed.get_of_reusable isOpen reusable, outcome?, wellFormed.find?_reusable reusable,
    Option.bind_some]

/-- The entry that a submission is given stands for the key of the search, if the
search uses the cache. -/
theorem WellFormed.stands_of_granted (wellFormed : store.WellFormed)
    (uses : store.usesCache search = true) {submitted : Submitted}
    (granted : (store.submit search).1 = .ok submitted) :
    (store.after (.submit search)).Stands search.key submitted.id := by
  rcases wellFormed.submit_granted granted with ⟨entry, rfl, reusable⟩ | ⟨rfl, _, found⟩
  · obtain ⟨_, registered, sameKey, uncancelled⟩ := wellFormed.reusable?_eq_some_iff.mp reusable
    refine wellFormed.stands_after ⟨entry, registered, rfl, sameKey, uncancelled⟩ ?_
    rintro (isCancel | isTrip | ⟨removes, _⟩)
    · cases isCancel
    · cases isTrip
    · simp [Store.removes, sweepsFor, needsAdmission, reusable] at removes
  · obtain ⟨member, _⟩ := (wellFormed.after (.submit search)).find?_eq_some_iff.mp found
    have registers : store.registers (.submit search) = some ⟨search.key, store.nextId⟩ := by
      simp only [Store.registers, granted, uses, if_true]
    have registered : (⟨search.key, store.nextId⟩ : Registration) ∈
        (store.after (.submit search)).registrations :=
      (wellFormed.mem_registrations_after_iff _ _).mpr (.inl registers)
    refine ⟨_, (wellFormed.after (.submit search)).mem_registeredEntries_iff.mpr
      ⟨member, ?_⟩, rfl, rfl, rfl⟩
    exact List.mem_map.mpr ⟨_, registered, rfl⟩

end SweptCache.Store
