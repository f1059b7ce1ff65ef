import SweptCache.Store.Submission

/-!
# Executing searches

A search runs either on the thread of the client that started it, which then
goes on only when the entry has settled, or in the background, where it stops
at every pause until it is resumed. The worker takes the same steps both ways,
and every step of it takes some time.

`Store.get` and `Store.getAsync` are the two ways of submitting a search that
also start it.
-/

namespace SweptCache.Store

/-- The time that one step of a worker takes. -/
def stepTime : Duration := ⟨1⟩

/-- The store after the time of one worker step and the step itself. -/
def work (store : Store) (id : EntryId) : Store := (store.pass stepTime).advance id

/-- The store after so many steps of a worker. -/
def workFor (store : Store) (id : EntryId) : Nat → Store
  | 0 => store
  | steps + 1 => (store.work id).workFor id steps

/-- Whether the worker of an entry has come to a pause. -/
def isPaused (store : Store) (id : EntryId) : Bool := (store.find? id).any Entry.isPaused

/-- The store after so many steps of a worker, or fewer if it comes to a pause. -/
def workToPauseFor (store : Store) (id : EntryId) : Nat → Store
  | 0 => store
  | steps + 1 =>
    if store.isPaused id then store else (store.work id).workToPauseFor id steps

/-- A number of steps in which the worker of an entry is certain to have settled it. -/
def stepsLeft (store : Store) (id : EntryId) : Nat :=
  ((store.find? id).map Entry.stepsLeft).getD 0

/-- The store once the worker of an entry has settled it, pauses or not. -/
def workToEnd (store : Store) (id : EntryId) : Store := store.workFor id (store.stepsLeft id)

/-- The store once the worker of an entry has settled it or come to a pause. -/
def workToPause (store : Store) (id : EntryId) : Store :=
  store.workToPauseFor id (store.stepsLeft id)

/-- A step of an entry's worker, as it shows in the entry. -/
theorem find?_work (store : Store) (id : EntryId) :
    (store.work id).find? id =
      (store.find? id).map (Entry.advance (store.clock.after stepTime)) := by
  rw [work, advance, find?_update _ _ _ _ (Entry.id_advance _)]
  show (store.find? id).map _ = _
  cases found : store.find? id with
  | none => rfl
  | some entry =>
    have same : entry.id = id := by simpa using List.find?_some found
    simp [same, pass]

/-- A worker that has nothing left to do has left the entry. -/
theorem stepsLeft_eq_zero_iff (store : Store) (id : EntryId) :
    store.stepsLeft id = 0 ↔ ∀ entry, store.find? id = some entry → entry.worker = none := by
  unfold stepsLeft
  cases store.find? id <;> simp [Entry.stepsLeft_eq_zero_iff]

/-- Every step of a worker leaves fewer steps to go. -/
theorem stepsLeft_work (store : Store) (id : EntryId) :
    (store.work id).stepsLeft id ≤ store.stepsLeft id - 1 := by
  unfold stepsLeft
  rw [find?_work]
  cases store.find? id <;> simp [Entry.stepsLeft_advance]

/-- A worker that takes as many steps as it has left has none left after them. -/
theorem stepsLeft_workFor (steps : Nat) (store : Store) (id : EntryId)
    (enough : store.stepsLeft id ≤ steps) : (store.workFor id steps).stepsLeft id = 0 := by
  induction steps generalizing store with
  | zero => exact Nat.le_zero.mp enough
  | succ steps ih =>
    have fewer := store.stepsLeft_work id
    exact ih (store.work id) (by omega)

/-- A worker that is not stopped by a pause comes to its end. -/
theorem stepsLeft_workToEnd (store : Store) (id : EntryId) :
    (store.workToEnd id).stepsLeft id = 0 :=
  stepsLeft_workFor _ store id (Nat.le_refl _)

/-- A worker that stops at pauses has come to one or to its end. -/
theorem isPaused_or_stepsLeft_workToPauseFor (steps : Nat) (store : Store) (id : EntryId)
    (enough : store.stepsLeft id ≤ steps) :
    (store.workToPauseFor id steps).isPaused id = true ∨
      (store.workToPauseFor id steps).stepsLeft id = 0 := by
  induction steps generalizing store with
  | zero => exact .inr (Nat.le_zero.mp enough)
  | succ steps ih =>
    unfold workToPauseFor
    split
    next paused => exact .inl paused
    next =>
      have fewer := store.stepsLeft_work id
      exact ih (store.work id) (by omega)

/-- Whether an entry has not been started. -/
def isPending (store : Store) (id : EntryId) : Bool :=
  (store.find? id).any fun entry => entry.status = .pending

/-- The store with an entry started and executed by the client that started it,
or in the background. Only a pending entry is started. -/
def execute (store : Store) (id : EntryId) (isBlocking : Bool) : Store :=
  if store.isPending id then
    if isBlocking then (store.start id).workToEnd id else (store.start id).workToPause id
  else store

/-- The store with a paused worker gone on to its next pause, or to its end. -/
def resume (store : Store) (id : EntryId) : Store := (store.work id).workToPause id

/-- What the clients of an entry are given, once there is something to give. -/
def outcome? (store : Store) (id : EntryId) : Option Outcome :=
  (store.find? id).bind Entry.outcome?

/-- The entry for a search, started in the background if it is new. -/
def getAsync (store : Store) (search : Search) : Except Refusal EntryId × Store :=
  match store.submit search with
  | (.error refusal, refused) => (.error refusal, refused)
  | (.ok (.found id), found) => (.ok id, found)
  | (.ok (.created id), created) => (.ok id, created.execute id false)

/-- The outcome of a search, which the client itself executes if it is new. There
is none while the search is still going on elsewhere. -/
def get (store : Store) (search : Search) : Except Refusal (Option Outcome) × Store :=
  match store.submit search with
  | (.error refusal, refused) => (.error refusal, refused)
  | (.ok (.found id), found) => (.ok (found.outcome? id), found)
  | (.ok (.created id), created) =>
    let executed := created.execute id true
    (.ok (executed.outcome? id), executed)

/-- How often searches of each name have been executed, for the names of which any was. -/
def executionCounts (store : Store) : List (String × Nat) :=
  let executed := store.entries.filter fun entry => 0 < entry.executions
  (executed.map fun entry => entry.key.text).eraseDups.map fun name =>
    let named := executed.filter fun entry => entry.key.text = name
    (name, named.foldl (fun count entry => count + entry.executions) 0)

end SweptCache.Store
