import SweptCache.Proofs.ClientRuns
import SweptCache.Proofs.SingleAssignment
import SweptCache.Proofs.Submissions

/-!
# Calls that nothing interrupts

A client that takes its steps while nothing happens to the cache but the work
on its own entry leaves the cache as the whole call does, and is told the same.
So `Store.get` and `Store.getAsync` are the calls whose steps a `Site` lets
others interrupt. In the same way a caller that starts an entry and is alone with
it comes to what `Store.execute` comes to.
-/

namespace SweptCache

/-- What a client that asked for an outcome has been told. -/
def Progress.told : Progress → Except Refusal (Option Outcome)
  | .submitting | .starting _ | .holding _ => .ok none
  | .refused refusal => .error refusal
  | .answered _ outcome => .ok (some outcome)

/-- Which entry a client that asked for one has been given. -/
def Progress.given : Progress → Except Refusal (Option EntryId)
  | .refused refusal => .error refusal
  | progress => .ok (progress.submitted?.map Submitted.id)

namespace Store

variable {store : Store} {id : EntryId}

/-- So many steps of a worker, and the time they take. -/
def workSteps (id : EntryId) : Nat → List StoreEvent
  | 0 => []
  | steps + 1 => .pass stepTime :: .advance id :: workSteps id steps

/-- Work that does not stop at pauses is a history. -/
theorem workFor_eq_afterAll (store : Store) (id : EntryId) (steps : Nat) :
    store.workFor id steps = store.afterAll (workSteps id steps) := by
  induction steps generalizing store with
  | zero => rfl
  | succ steps ih =>
    rw [workFor, ih]
    rfl

/-- Work that stops at pauses is a history. -/
theorem exists_workToPauseFor_eq (store : Store) (id : EntryId) (most : Nat) :
    ∃ steps, store.workToPauseFor id most = store.afterAll (workSteps id steps) := by
  induction most generalizing store with
  | zero => exact ⟨0, rfl⟩
  | succ most ih =>
    rw [workToPauseFor]
    split
    · exact ⟨0, rfl⟩
    · obtain ⟨steps, worked⟩ := ih (store.work id)
      exact ⟨steps + 1, worked⟩

/-- The execution of a pending entry is its start and the work on it, which goes on to the end if
the client that starts the entry executes it itself. -/
theorem exists_execute_eq_of_isPending (isPending : store.isPending id = true)
    (isBlocking : Bool) :
    ∃ steps, store.execute id isBlocking =
        (store.after (.start id)).afterAll (workSteps id steps) ∧
      (isBlocking = true → steps = (store.after (.start id)).stepsLeft id) := by
  rw [execute, if_pos isPending]
  cases isBlocking with
  | true => exact ⟨_, workFor_eq_afterAll .., fun _ => rfl⟩
  | false =>
    obtain ⟨steps, worked⟩ := exists_workToPauseFor_eq (store.start id) id
      ((store.start id).stepsLeft id)
    exact ⟨steps, worked, by simp⟩

/-- A new entry is pending. -/
theorem WellFormed.isPending_of_created (wellFormed : store.WellFormed) {search : Search}
    (granted : (store.submit search).1 = .ok (.created id)) :
    (store.after (.submit search)).isPending id = true := by
  rcases wellFormed.submit_granted granted with ⟨_, isFound, _⟩ | ⟨isCreated, _, found⟩
  · cases isFound
  · injection isCreated with isNext
    rw [isPending, isNext, found]
    rfl

/-- The execution of a new entry is its start and the work on it. -/
theorem WellFormed.exists_execute_eq (wellFormed : store.WellFormed) {search : Search}
    (granted : (store.submit search).1 = .ok (.created id)) (isBlocking : Bool) :
    ∃ steps, (store.after (.submit search)).execute id isBlocking =
      (store.after (.submit search)).afterAll (.start id :: workSteps id steps) := by
  obtain ⟨steps, executed, _⟩ :=
    exists_execute_eq_of_isPending (wellFormed.isPending_of_created granted) isBlocking
  exact ⟨steps, executed⟩

end Store

namespace Site

variable {site : Site}

/-- The client that came last takes a step. -/
theorem after_step_last (store : Store) (clients : List Client) (client : Client) :
    (⟨store, clients ++ [client]⟩ : Site).after (.step clients.length) =
      ⟨store.afterAll client.events, clients ++ [client.step store]⟩ := by
  simp [after, storeEvents, clientsAfter, List.modify_eq_take_cons_drop]

/-- Clients do not take part in the work on an entry. -/
theorem afterAll_workSteps (store : Store) (clients : List Client) (id : EntryId) (steps : Nat) :
    (⟨store, clients⟩ : Site).afterAll ((Store.workSteps id steps).map .happen) =
      ⟨store.afterAll (Store.workSteps id steps), clients⟩ := by
  induction steps generalizing store with
  | zero => rfl
  | succ steps ih => exact ih _

/-- The steps of a call in which nothing comes between but the work on its entry. -/
def loneCall (site : Site) (kind : CallKind) (search : Search) (id : EntryId) (steps : Nat) :
    List SiteEvent :=
  .arrive kind search :: .step site.clients.length :: .step site.clients.length ::
    ((Store.workSteps id steps).map .happen ++ [.step site.clients.length])

/-- A client that nothing interrupts looks its search up, starts the entry if that is
new, and has a look at what the work on it came to. -/
theorem afterAll_loneCall (site : Site) (kind : CallKind) (search : Search) (id : EntryId)
    (steps : Nat) :
    site.afterAll (site.loneCall kind search id steps) =
      let looked := (Client.arriving kind search).step site.store
      let begun := looked.step (site.store.after (.submit search))
      let worked := ((site.store.after (.submit search)).afterAll looked.events).afterAll
        (Store.workSteps id steps)
      ⟨worked.afterAll begun.events, site.clients ++ [begun.step worked]⟩ := by
  have arrives : site.after (.arrive kind search) =
      ⟨site.store, site.clients ++ [.arriving kind search]⟩ := rfl
  simp only [loneCall, afterAll_cons, afterAll_append, afterAll_nil, arrives, after_step_last,
    afterAll_workSteps]
  rfl

variable {store : Store} {search : Search} {id : EntryId}

/-- A call that is refused comes to that. -/
theorem afterAll_loneCall_of_refused {refusal : Refusal}
    (submitted : site.store.submit search = (.error refusal, store)) (kind : CallKind) :
    site.afterAll (site.loneCall kind search id 0) =
      ⟨store, site.clients ++ [⟨kind, search, .refused refusal⟩]⟩ := by
  have becomes : site.store.after (.submit search) = store := congrArg Prod.snd submitted
  rw [afterAll_loneCall]
  simp [Client.step, Client.next, Client.arriving, Client.events, Store.workSteps, submitted,
    becomes]

/-- A call that is given an entry that was there has a look at it. -/
theorem afterAll_loneCall_of_found
    (submitted : site.store.submit search = (.ok (.found id), store)) (kind : CallKind) :
    site.afterAll (site.loneCall kind search id 0) =
      ⟨store, site.clients ++ [Client.step store ⟨kind, search, .holding (.found id)⟩]⟩ := by
  have becomes : site.store.after (.submit search) = store := congrArg Prod.snd submitted
  rw [afterAll_loneCall]
  cases waits : kind.waits <;> cases told : store.outcome? (Submitted.found id).id <;>
    simp [Client.step, Client.next, Client.arriving, Client.events, Store.workSteps, submitted,
      becomes, waits, told]

/-- A call that is given a new entry has a look at what comes of its execution. -/
theorem afterAll_loneCall_of_created (wellFormed : site.store.WellFormed)
    (submitted : site.store.submit search = (.ok (.created id), store)) (kind : CallKind)
    (isBlocking : Bool) :
    ∃ steps, site.afterAll (site.loneCall kind search id steps) =
      ⟨store.execute id isBlocking, site.clients ++
        [Client.step (store.execute id isBlocking) ⟨kind, search, .holding (.created id)⟩]⟩ := by
  have becomes : site.store.after (.submit search) = store := congrArg Prod.snd submitted
  obtain ⟨steps, worked⟩ :=
    wellFormed.exists_execute_eq (congrArg Prod.fst submitted) isBlocking
  refine ⟨steps, ?_⟩
  rw [becomes, Store.afterAll_cons] at worked
  rw [afterAll_loneCall, worked]
  simp [Client.step, Client.next, Client.arriving, Client.events, submitted, becomes]

/-- A client that waits is told the outcome that its entry has come to. -/
theorem told_of_holding (store : Store) (search : Search) (submitted : Submitted) :
    (Client.step store ⟨.get, search, .holding submitted⟩).progress.told =
      .ok (store.outcome? submitted.id) := by
  cases told : store.outcome? submitted.id <;>
    simp [Client.step, Client.next, CallKind.waits, Progress.told, told]

/-- A client that nothing interrupts is told what `Store.get` tells it. -/
theorem get_alone (wellFormed : site.store.WellFormed) (search : Search) :
    ∃ id steps client, site.afterAll (site.loneCall .get search id steps) =
        ⟨(site.store.get search).2, site.clients ++ [client]⟩ ∧
      client.search = search ∧ client.progress.told = (site.store.get search).1 := by
  cases submitted : site.store.submit search with
  | mk answer store =>
    cases answer with
    | error refusal =>
      simp only [Store.get, submitted]
      exact ⟨0, 0, _, afterAll_loneCall_of_refused submitted .get, rfl, rfl⟩
    | ok granted =>
      cases granted with
      | found id =>
        simp only [Store.get, submitted]
        exact ⟨0, 0, _, afterAll_loneCall_of_found submitted .get, rfl, told_of_holding ..⟩
      | created id =>
        obtain ⟨steps, called⟩ :=
          afterAll_loneCall_of_created wellFormed submitted .get true
        simp only [Store.get, submitted]
        exact ⟨id, steps, _, called, rfl, told_of_holding ..⟩

/-- A client that nothing interrupts is given the entry that `Store.getAsync` gives it. -/
theorem getAsync_alone (wellFormed : site.store.WellFormed) (search : Search) :
    ∃ id steps client, site.afterAll (site.loneCall .getAsync search id steps) =
        ⟨(site.store.getAsync search).2, site.clients ++ [client]⟩ ∧
      client.search = search ∧
      client.progress.given = (site.store.getAsync search).1.map some := by
  cases submitted : site.store.submit search with
  | mk answer store =>
    cases answer with
    | error refusal =>
      simp only [Store.getAsync, submitted]
      exact ⟨0, 0, _, afterAll_loneCall_of_refused submitted .getAsync, rfl, rfl⟩
    | ok granted =>
      cases granted with
      | found id =>
        simp only [Store.getAsync, submitted]
        exact ⟨0, 0, _, afterAll_loneCall_of_found submitted .getAsync, rfl, rfl⟩
      | created id =>
        obtain ⟨steps, called⟩ :=
          afterAll_loneCall_of_created wellFormed submitted .getAsync false
        simp only [Store.getAsync, submitted]
        exact ⟨id, steps, _, called, rfl, rfl⟩

end Site

/-- Once an entry has been started its clients can be given an outcome when its worker has left. -/
theorem Entry.Coherent.isSome_outcome?_iff {entry : Entry} (coherent : entry.Coherent)
    (begun : entry.slot ≠ .pending) : entry.outcome?.isSome = true ↔ entry.worker = none := by
  cases coherent with
  | pending pending => exact absurd pending.slot begun
  | running stage running =>
    simp [Entry.outcome?, running.slot, Slot.outcome?, running.worker]
  | settled verdict settled =>
    simp [Entry.outcome?, settled.slot, Slot.outcome?, settled.worker]

namespace Store

variable {store : Store} {id : EntryId} {entry : Entry}

/-- Once an entry has been started it has an outcome when no work is left. -/
theorem WellFormed.isSome_outcome?_iff (wellFormed : store.WellFormed)
    (found : store.find? id = some entry) (begun : entry.slot ≠ .pending) :
    (store.outcome? id).isSome = true ↔ store.stepsLeft id = 0 := by
  obtain ⟨member, _⟩ := wellFormed.find?_eq_some_iff.mp found
  rw [Store.outcome?, found, Option.bind_some,
    (wellFormed.coherent entry member).isSome_outcome?_iff begun, stepsLeft_eq_zero_iff]
  constructor
  · intro idle other same
    rw [found, Option.some.injEq] at same
    exact same ▸ idle
  · intro idle
    exact idle entry found

/-- Where no work is left a step of the worker changes nothing. -/
theorem WellFormed.advance_eq_self (wellFormed : store.WellFormed)
    (idle : store.stepsLeft id = 0) : store.advance id = store := by
  have same : store.entries.map (fun entry =>
      if entry.id = id then entry.advance store.clock else entry) = store.entries := by
    refine (List.map_congr_left ?_).trans (List.map_id _)
    intro entry member
    split
    next isId =>
      have found := wellFormed.find?_eq_some_iff.mpr ⟨member, isId⟩
      exact Entry.Coherent.advance_of_no_worker
        ((stepsLeft_eq_zero_iff store id).mp idle entry found)
    next => rfl
  rw [advance, update, same]

end Store

namespace Exchange

variable {exchange : Exchange} {store : Store} {id : EntryId} {entry : Entry}

/-- The caller that came last takes a step. -/
theorem after_step_last (store : Store) (callers : List Caller) (caller : Caller) :
    (⟨store, callers ++ [caller]⟩ : Exchange).after (.step callers.length) =
      ⟨store.afterAll caller.events, callers ++ [caller.step store]⟩ := by
  simp [after, storeEvents, callersAfter, List.modify_eq_take_cons_drop]

/-- So many steps of a caller with the time that each of them takes, and one more step. -/
def loneExecution (caller : Nat) : Nat → List ExchangeEvent
  | 0 => [.step caller]
  | steps + 1 => .happen (.pass Store.stepTime) :: .step caller :: loneExecution caller steps

/-- A caller that has returned has no part in the time that passes. -/
theorem afterAll_loneExecution_of_returned (wellFormed : store.WellFormed)
    (idle : store.stepsLeft id = 0) (callers : List Caller) (call : EntryCall) (steps : Nat) :
    (⟨store, callers ++ [⟨id, call, .returned none⟩]⟩ : Exchange).afterAll
        (loneExecution callers.length steps) =
      ⟨store.workFor id steps, callers ++ [⟨id, call, .returned none⟩]⟩ := by
  induction steps generalizing store with
  | zero => exact after_step_last store callers _
  | succ steps ih =>
    have passed : (store.pass Store.stepTime).WellFormed := wellFormed.after (.pass Store.stepTime)
    have sameWork : store.work id = store.pass Store.stepTime := passed.advance_eq_self idle
    rw [Store.workFor, sameWork]
    exact (congrArg (fun later : Exchange => later.afterAll (loneExecution callers.length steps))
      (after_step_last (store.pass Store.stepTime) callers _)).trans (ih passed idle)

/-- A caller that executes an entry does all the work on it, and returns. -/
theorem afterAll_loneExecution (wellFormed : store.WellFormed)
    (found : store.find? id = some entry) (begun : entry.slot ≠ .pending)
    (callers : List Caller) (call : EntryCall) {steps : Nat} (enough : store.stepsLeft id ≤ steps) :
    (⟨store, callers ++ [⟨id, call, .executing⟩]⟩ : Exchange).afterAll
        (loneExecution callers.length steps) =
      ⟨store.workFor id steps, callers ++ [⟨id, call, .returned none⟩]⟩ := by
  induction steps generalizing store entry with
  | zero =>
    have idle := Nat.le_zero.mp enough
    have told := (wellFormed.isSome_outcome?_iff found begun).mpr idle
    refine (after_step_last store callers _).trans ?_
    simp only [Caller.step, Caller.next, told, if_true]
    rw [Store.workFor, show store.afterAll (Caller.events ⟨id, call, .executing⟩) = store from
      wellFormed.advance_eq_self idle]
  | succ steps ih =>
    have passed : (store.pass Store.stepTime).WellFormed := wellFormed.after (.pass Store.stepTime)
    have worked : (store.work id).WellFormed := passed.after (.advance id)
    have fewer := store.stepsLeft_work id
    have enoughThen : (store.work id).stepsLeft id ≤ steps := by omega
    have step := after_step_last (store.pass Store.stepTime) callers ⟨id, call, .executing⟩
    refine (congrArg (fun later : Exchange => later.afterAll (loneExecution callers.length steps))
      step).trans ?_
    rw [Store.workFor]
    cases told : ((store.pass Store.stepTime).outcome? id).isSome with
    | true =>
      have idle := (wellFormed.isSome_outcome?_iff found begun).mp told
      simp only [Caller.step, Caller.next, told, if_true]
      exact afterAll_loneExecution_of_returned worked (by omega) callers call steps
    | false =>
      simp only [Caller.step, Caller.next, told, Bool.false_eq_true, if_false]
      have foundLater := passed.find?_after found (.advance id)
      exact ih worked foundLater
        (Entry.afterAll_preserves (fun later => later.slot ≠ .pending)
          (fun later event => Entry.slot_after_ne_pending _ later event) _ begun) enoughThen

/-- A caller that starts a pending entry on its own thread and that nothing interrupts comes to
what `Store.execute` comes to. -/
theorem start_alone (wellFormed : exchange.store.WellFormed)
    (isPending : exchange.store.isPending id = true) :
    ∃ steps, exchange.afterAll (.arrive id (.start true) :: .step exchange.callers.length ::
        loneExecution exchange.callers.length steps) =
      ⟨exchange.store.execute id true,
        exchange.callers ++ [⟨id, .start true, .returned none⟩]⟩ := by
  obtain ⟨store, callers⟩ := exchange
  simp only at wellFormed isPending ⊢
  obtain ⟨entry, found⟩ : ∃ entry, store.find? id = some entry := by
    cases found : store.find? id with
    | none => simp [Store.isPending, found] at isPending
    | some entry => exact ⟨entry, rfl⟩
  have started : (store.start id).WellFormed := wellFormed.after (.start id)
  obtain ⟨later, isLater, begun⟩ := Site.slot_start_ne_pending wellFormed found
  refine ⟨(store.start id).stepsLeft id, ?_⟩
  rw [Store.execute, if_pos isPending, if_pos rfl, Store.workToEnd]
  refine (congrArg (fun later : Exchange => later.afterAll (loneExecution callers.length _))
    (after_step_last store callers ⟨id, .start true, .calling⟩)).trans ?_
  have executes : Caller.step store ⟨id, .start true, .calling⟩ =
      ⟨id, .start true, .executing⟩ := by
    simp [Caller.step, Caller.next, Caller.opened, isPending]
  rw [executes]
  exact afterAll_loneExecution started isLater begun callers (.start true) (Nat.le_refl _)

end Exchange

end SweptCache
