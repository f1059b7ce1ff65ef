import SweptCache.Store.History

/-!
# Calls on entries

Clients that hold an entry call on it directly: they start it, ask to cancel it,
or ask for its outcome. An `Exchange` is a cache whose entries any number of
callers hold. A call comes to its entry in steps, and between any two steps of a
caller the others take theirs, workers go on and other things happen to the
cache.

A caller that waits looks at the entry first. Finding no outcome it sleeps, and
it looks again whenever it is woken, whether or not there is reason to. Once the
moment has come until which it wanted to wait, it may have a last look and give
up. A caller that starts an entry on its own thread takes the steps of the
worker, and its call returns when the entry has settled.
-/

namespace SweptCache

/-- What a client does with an entry that it holds. -/
inductive EntryCall where
  /-- Starts the entry, on the client's own thread or in the background. -/
  | start (isBlocking : Bool)
  /-- Asks to cancel the entry. -/
  | cancel
  /-- Asks for the outcome and does not wait for it. -/
  | outcome
  /-- Waits for the outcome, with its thread blocked. -/
  | get
  /-- Waits for the outcome until a moment, or for ever if the clock has no such moment. -/
  | getUntil (deadline : Option Instant)
  /-- Waits for the outcome, with its thread free for others. -/
  | wait
  deriving DecidableEq, Repr

namespace EntryCall

/-- Whether a call gives up waiting at some time. -/
def givesUp (now : Instant) : EntryCall → Bool
  | .getUntil deadline => deadline.any fun deadline => deadline ≤ now
  | .start _ | .cancel | .outcome | .get | .wait => false

/-- Whether a call asks for the outcome. -/
def isReading : EntryCall → Bool
  | .start _ | .cancel => false
  | .outcome | .get | .getUntil _ | .wait => true

end EntryCall

/-- How far a call on an entry has come. -/
inductive CallState where
  /-- The call has yet to reach the entry. -/
  | calling
  /-- The caller has started the entry and executes its search. -/
  | executing
  /-- The caller has found no outcome and sleeps. -/
  | sleeping
  /-- The call has returned, with an outcome if it asked for one and there was one. -/
  | returned (outcome : Option Outcome)

/-- A client with its call on an entry. -/
structure Caller where
  entry : EntryId
  call : EntryCall
  state : CallState

namespace Caller

/-- A caller that is about to call on an entry. -/
def arriving (entry : EntryId) (call : EntryCall) : Caller := ⟨entry, call, .calling⟩

/-- What a caller comes to that looks for the outcome and would wait for it. -/
def look (store : Store) (caller : Caller) : CallState :=
  match store.outcome? caller.entry with
  | none => .sleeping
  | some outcome => .returned (some outcome)

/-- What a call does to the cache when it reaches its entry. -/
def opening (caller : Caller) : List StoreEvent :=
  match caller.call with
  | .start _ => [.start caller.entry]
  | .cancel => [.cancel caller.entry]
  | .outcome | .get | .getUntil _ | .wait => []

/-- What a call comes to when it reaches its entry. -/
def opened (store : Store) (caller : Caller) : CallState :=
  match caller.call with
  | .start isBlocking =>
    if isBlocking && store.isPending caller.entry then .executing else .returned none
  | .cancel => .returned none
  | .outcome => .returned (store.outcome? caller.entry)
  | .get | .getUntil _ | .wait => caller.look store

/-- What the next step of a caller does to the cache. -/
def events (caller : Caller) : List StoreEvent :=
  match caller.state with
  | .calling => caller.opening
  | .executing => [.advance caller.entry]
  | .sleeping | .returned _ => []

/-- How far a call has come with the next step of its caller, who takes it at a store. -/
def next (store : Store) (caller : Caller) : CallState :=
  match caller.state with
  | .calling => caller.opened store
  | .executing => if (store.outcome? caller.entry).isSome then .returned none else .executing
  | .sleeping => caller.look store
  | .returned outcome => .returned outcome

/-- How far a call has come when its caller is told that its time is up. Only a caller that
sleeps past its deadline takes notice, and it has a last look. -/
def expired (store : Store) (caller : Caller) : CallState :=
  match caller.state with
  | .sleeping =>
    if caller.call.givesUp store.clock then .returned (store.outcome? caller.entry) else .sleeping
  | .calling => .calling
  | .executing => .executing
  | .returned outcome => .returned outcome

/-- A caller after its next step. -/
def step (store : Store) (caller : Caller) : Caller := { caller with state := caller.next store }

/-- A caller that was told that its time is up. -/
def expire (store : Store) (caller : Caller) : Caller :=
  { caller with state := caller.expired store }

end Caller

/-- A cache with callers on its entries. -/
structure Exchange where
  store : Store
  callers : List Caller

/-- One thing that happens at an exchange. -/
inductive ExchangeEvent where
  /-- A client comes with a call on an entry. -/
  | arrive (entry : EntryId) (call : EntryCall)
  /-- A caller takes its next step, for which it wakes if it sleeps. -/
  | step (caller : Nat)
  /-- A caller is told that its time is up. -/
  | expire (caller : Nat)
  /-- Something else happens to the cache. -/
  | happen (event : StoreEvent)

namespace Exchange

/-- An exchange to which no caller has come yet. -/
def opening (store : Store) : Exchange := ⟨store, []⟩

/-- What an event at an exchange does to the cache. -/
def storeEvents (exchange : Exchange) : ExchangeEvent → List StoreEvent
  | .arrive _ _ | .expire _ => []
  | .step index => (exchange.callers[index]?.map Caller.events).getD []
  | .happen event => [event]

/-- The callers of an exchange after an event. -/
def callersAfter (exchange : Exchange) : ExchangeEvent → List Caller
  | .arrive entry call => exchange.callers ++ [.arriving entry call]
  | .step index => exchange.callers.modify index (Caller.step exchange.store)
  | .expire index => exchange.callers.modify index (Caller.expire exchange.store)
  | .happen _ => exchange.callers

/-- The exchange after an event. -/
def after (exchange : Exchange) (event : ExchangeEvent) : Exchange where
  store := exchange.store.afterAll (exchange.storeEvents event)
  callers := exchange.callersAfter event

/-- The exchange after several events. -/
def afterAll (exchange : Exchange) (events : List ExchangeEvent) : Exchange :=
  events.foldl after exchange

/-- What several events at an exchange do to the cache. -/
def trace (exchange : Exchange) : List ExchangeEvent → List StoreEvent
  | [] => []
  | event :: rest => exchange.storeEvents event ++ (exchange.after event).trace rest

/-- An exchange that some events lead to from the opening of a newly created cache. -/
def Reachable (exchange : Exchange) : Prop :=
  ∃ (settings : Settings) (policy : Policy) (memory : MemoryReadings) (initial : Store)
    (events : List ExchangeEvent),
    Store.create settings policy memory = .ok initial ∧
      exchange = (opening initial).afterAll events

end Exchange

end SweptCache
