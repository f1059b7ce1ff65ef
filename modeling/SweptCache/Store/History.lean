import SweptCache.Store.Execution
import SweptCache.Store.Removal

/-!
# Histories of a cache

Everything that happens to a cache happens in `StoreEvent`s, none of which is
interrupted by another: what a client does under the lock of the cache or of an
entry, one step of a worker, a token tripped by the search that was handed it,
or the passing of time. Clients and workers take turns in any order, so a history
is any list of events. The order in which the cache goes through its entries may
change between any two of them.

A submission and the start of the entry that it made are two events, and so
are the steps by which a worker settles an entry.
-/

namespace SweptCache

/-- One thing that happens to a cache. -/
inductive StoreEvent where
  /-- A client submits a search. -/
  | submit (search : Search)
  /-- A client starts an entry, on its own thread or in the background. -/
  | start (id : EntryId)
  /-- The worker of an entry takes a step. -/
  | advance (id : EntryId)
  /-- A client asks to cancel an entry. -/
  | cancel (id : EntryId)
  /-- The search of an entry trips the token that it was handed, or whoever it gave it to does. -/
  | trip (id : EntryId)
  /-- A client asks for an entry. -/
  | touch (id : EntryId)
  /-- A client has an entry scored. -/
  | score (policy : Policy) (id : EntryId)
  /-- A client removes a search. -/
  | remove (key : SearchKey)
  /-- A client removes the searches of an index. -/
  | removeIndex (index : String)
  /-- A client clears the cache. -/
  | clear (cancelsRunning : Bool)
  /-- A client shuts the cache down. -/
  | shutDown
  /-- A client or the load manager sweeps the cache. -/
  | sweep
  /-- A client looks at the whole cache. -/
  | overview
  /-- A client makes an entry that is not in the cache. -/
  | addEntry (search : Search)
  /-- The cache goes through its registrations in another order from now on. -/
  | relist (registrations : List Registration)
  /-- Memory is used or freed. -/
  | memory (readings : MemoryReadings)
  /-- Time passes. -/
  | pass (duration : Duration)

namespace Store

/-- The store after one event. -/
def after (store : Store) : StoreEvent → Store
  | .submit search => (store.submit search).2
  | .start id => store.start id
  | .advance id => store.advance id
  | .cancel id => store.cancel id
  | .trip id => store.trip id
  | .touch id => store.touch id
  | .score policy id => store.score policy id
  | .remove key => store.remove key
  | .removeIndex index => store.removeIndex index
  | .clear cancelsRunning => store.clear cancelsRunning
  | .shutDown => store.shutDown
  | .sweep => store.sweep.2
  | .overview => store.overview.2
  | .addEntry search => store.addEntry search
  | .relist registrations => store.relist registrations
  | .memory readings => { store with memory := readings }
  | .pass duration => store.pass duration

/-- The store after a history. -/
def afterAll (store : Store) (history : List StoreEvent) : Store := history.foldl after store

/-- A store that some history of a newly created cache leads to. -/
def Reachable (store : Store) : Prop :=
  ∃ (settings : Settings) (policy : Policy) (memory : MemoryReadings) (initial : Store)
    (history : List StoreEvent),
    create settings policy memory = .ok initial ∧ store = initial.afterAll history

/-- What some history leads to, a longer history goes on from. -/
theorem Reachable.after {store : Store} (reachable : store.Reachable) (event : StoreEvent) :
    (store.after event).Reachable := by
  obtain ⟨settings, policy, memory, initial, history, created, rfl⟩ := reachable
  refine ⟨settings, policy, memory, initial, history ++ [event], created, ?_⟩
  simp [afterAll]

end Store

end SweptCache
