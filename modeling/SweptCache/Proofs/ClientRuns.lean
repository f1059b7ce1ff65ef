import Mathlib.Data.List.Induction
import SweptCache.Proofs.Grants
import SweptCache.Store.Clients

/-!
# What clients come to

The events at a site are a history of its cache, so all that is known of
histories is known of sites. Its clients hold exactly the entries that the
history granted, and an outcome that a client was given remains the outcome of
its entry.
-/

namespace SweptCache

namespace Client

/-- The next step of a client either looks its search up or leaves it with what it was granted. -/
theorem grant?_step (store : Store) (client : Client) :
    (client.grant? = none ∧ store.grants client.events = (client.step store).grant?.toList) ∨
    ((client.step store).grant? = client.grant? ∧ store.grants client.events = []) := by
  obtain ⟨kind, search, progress⟩ := client
  cases progress with
  | submitting =>
    refine .inl ⟨rfl, ?_⟩
    simp only [events, step, next, grant?, Store.grants, Store.grant?, List.append_nil]
    cases (store.submit search).1 with
    | error refusal => rfl
    | ok submitted => cases submitted <;> rfl
  | starting id => exact .inr ⟨rfl, rfl⟩
  | holding submitted =>
    refine .inr ⟨?_, rfl⟩
    simp only [grant?, step, next]
    split
    · split <;> rfl
    · rfl
  | refused refusal => exact .inr ⟨rfl, rfl⟩
  | answered submitted outcome => exact .inr ⟨rfl, rfl⟩

end Client

/-- How many steps a client takes until it is told the outcome of its entry, if there is one. -/
def Progress.stepsToAnswer : Progress → Nat
  | .submitting => 3
  | .starting _ => 2
  | .holding _ => 1
  | .refused _ | .answered _ _ => 0

/-- A client that has been granted an entry takes two steps at most. -/
theorem Progress.stepsToAnswer_le {progress : Progress} {submitted : Submitted}
    (granted : progress.submitted? = some submitted) : progress.stepsToAnswer ≤ 2 := by
  cases progress with
  | submitting | refused => cases granted
  | starting | holding | answered => simp [stepsToAnswer]

/-- Whether an event is a step of a client. -/
def SiteEvent.isStepOf (index : Nat) : SiteEvent → Bool
  | .step other => other = index
  | _ => false

namespace Site

variable {site : Site}

@[simp] theorem afterAll_nil (site : Site) : site.afterAll [] = site := rfl

@[simp] theorem afterAll_cons (site : Site) (event : SiteEvent) (rest : List SiteEvent) :
    site.afterAll (event :: rest) = (site.after event).afterAll rest := rfl

@[simp] theorem afterAll_append (site : Site) (earlier later : List SiteEvent) :
    site.afterAll (earlier ++ later) = (site.afterAll earlier).afterAll later := by
  simp [afterAll]

/-- The events at a site are a history of its cache. -/
theorem store_afterAll (site : Site) (events : List SiteEvent) :
    (site.afterAll events).store = site.store.afterAll (site.trace events) := by
  induction events generalizing site with
  | nil => rfl
  | cons event rest ih =>
    rw [afterAll_cons, ih, trace, Store.afterAll_append]
    rfl

theorem trace_append (site : Site) (earlier later : List SiteEvent) :
    site.trace (earlier ++ later) = site.trace earlier ++ (site.afterAll earlier).trace later := by
  induction earlier generalizing site with
  | nil => rfl
  | cons event rest ih => simp [trace, ih]

/-- What clients were granted, together. -/
def granted (site : Site) : List (Search × Submitted) := site.clients.filterMap Client.grant?

/-- What an event grants, it grants to a client. -/
theorem granted_after (site : Site) (event : SiteEvent) :
    (site.after event).granted.Perm
      (site.granted ++ site.store.grants (site.storeEvents event)) := by
  cases event with
  | arrive kind search =>
    have arrives : (Client.arriving kind search).grant? = none := rfl
    simp [granted, after, clientsAfter, storeEvents, Store.grants, arrives]
  | happen event =>
    have grantsNothing : site.store.grants (site.storeEvents (.happen event)) = [] := by
      cases event <;> rfl
    rw [grantsNothing, List.append_nil]
    exact .refl _
  | step index =>
    simp only [granted, after, clientsAfter, storeEvents]
    cases isClient : site.clients[index]? with
    | none =>
      rw [List.modify_eq_self (List.getElem?_eq_none_iff.mp isClient)]
      simp [Store.grants]
    | some client =>
      obtain ⟨within, isClient⟩ := List.getElem?_eq_some_iff.mp isClient
      have split : site.clients = site.clients.take index ++
          client :: site.clients.drop (index + 1) := by
        rw [← isClient, List.getElem_cons_drop, List.take_append_drop]
      rw [List.modify_eq_take_cons_drop within, isClient]
      conv_rhs => rw [split]
      simp only [List.filterMap_append, List.filterMap_cons, Option.map_some, Option.getD_some]
      rcases client.grant?_step site.store with ⟨before, grants⟩ | ⟨same, grants⟩
      · rw [before, grants]
        cases (client.step site.store).grant? with
        | none => simp
        | some grant =>
          simp only [Option.toList_some, List.append_assoc]
          exact List.Perm.append_left _ (List.perm_append_singleton grant _).symm
      · rw [same, grants, List.append_nil]

/-- The clients of a site were granted what its history granted. -/
theorem granted_afterAll (site : Site) (events : List SiteEvent) :
    (site.afterAll events).granted.Perm
      (site.granted ++ site.store.grants (site.trace events)) := by
  induction events generalizing site with
  | nil => simp [trace, Store.grants]
  | cons event rest ih =>
    rw [afterAll_cons, trace, Store.grants_append, ← List.append_assoc]
    exact (ih (site.after event)).trans (List.Perm.append_right _ (site.granted_after event))

/-- A client after an event is what it was before, or has taken the step that was
its turn, or has just come. -/
theorem client_after_cases {event : SiteEvent} {index : Nat} {client : Client}
    (isClient : (site.after event).clients[index]? = some client) :
    (∃ before, site.clients[index]? = some before ∧
      (client = before ∨ event = .step index ∧ client = before.step site.store)) ∨
    ∃ kind search, client = .arriving kind search := by
  cases event with
  | arrive kind search =>
    simp only [after, clientsAfter] at isClient
    rw [List.getElem?_append] at isClient
    split at isClient
    next => exact .inl ⟨client, isClient, .inl rfl⟩
    next =>
      obtain ⟨_, isClient⟩ := List.getElem?_eq_some_iff.mp isClient
      exact .inr ⟨kind, search, by simpa using isClient.symm⟩
  | happen event => exact .inl ⟨client, isClient, .inl rfl⟩
  | step turn =>
    simp only [after, clientsAfter, List.getElem?_modify, Option.map_eq_map,
      Option.map_eq_some_iff] at isClient
    obtain ⟨before, isBefore, becomes⟩ := isClient
    refine .inl ⟨before, isBefore, ?_⟩
    split at becomes
    next isTurn => exact .inr ⟨by rw [isTurn], becomes.symm⟩
    next => exact .inl becomes.symm

/-- A client that was granted an entry stays with it, and with its call. -/
theorem grant_stays (events : List SiteEvent) {index : Nat} {client : Client}
    {grant : Search × Submitted} (isClient : site.clients[index]? = some client)
    (isGrant : client.grant? = some grant) :
    ∃ later, (site.afterAll events).clients[index]? = some later ∧ later.kind = client.kind ∧
      later.grant? = some grant := by
  induction events generalizing site client with
  | nil => exact ⟨client, isClient, rfl, isGrant⟩
  | cons event rest ih =>
    cases event with
    | arrive kind search =>
      refine @ih (site.after (.arrive kind search)) client ?_ isGrant
      rw [after, clientsAfter, List.getElem?_append_left, isClient]
      exact (List.getElem?_eq_some_iff.mp isClient).1
    | happen event => exact @ih (site.after (.happen event)) client isClient isGrant
    | step turn =>
      by_cases isTurn : turn = index
      · refine @ih (site.after (.step turn)) (client.step site.store) ?_ ?_
        · simp [after, clientsAfter, isTurn, isClient]
        · rcases client.grant?_step site.store with ⟨none, _⟩ | ⟨same, _⟩
          · simp [none] at isGrant
          · rw [same, isGrant]
      · refine @ih (site.after (.step turn)) client ?_ isGrant
        simp [after, clientsAfter, isTurn, isClient]

/-- What a client was granted in the course of some events, their history granted. -/
theorem grant_mem_of_new (events : List SiteEvent) {index : Nat} {client : Client}
    {grant : Search × Submitted} (isClient : (site.afterAll events).clients[index]? = some client)
    (isGrant : client.grant? = some grant)
    (isNew : ∀ before, site.clients[index]? = some before → before.grant? = none) :
    grant ∈ site.store.grants (site.trace events) := by
  induction events using List.reverseRecOn generalizing client with
  | nil =>
    have none := isNew client isClient
    rw [isGrant] at none
    cases none
  | append_singleton events event ih =>
    rw [trace_append, Store.grants_append, List.mem_append]
    simp only [afterAll_append, afterAll_cons, afterAll_nil] at isClient
    rcases client_after_cases isClient with ⟨before, isBefore, same | ⟨isTurn, stepped⟩⟩ |
      ⟨kind, search, arrives⟩
    · exact .inl (ih isBefore (same ▸ isGrant))
    · subst stepped
      rcases before.grant?_step (site.afterAll events).store with ⟨_, grants⟩ | ⟨same, _⟩
      · right
        have storeEvents : (site.afterAll events).storeEvents event = before.events := by
          simp [isTurn, Site.storeEvents, isBefore]
        rw [← store_afterAll]
        simp only [trace, List.append_nil, storeEvents, grants, isGrant, Option.toList_some,
          List.mem_singleton]
      · exact .inl (ih isBefore (same ▸ isGrant))
    · rw [arrives] at isGrant
      cases isGrant

end Site

namespace Site

variable {site : Site}

/-- Every client that was given an outcome was given that of its entry. -/
def IsHonest (site : Site) : Prop :=
  ∀ (index : Nat) (client : Client) submitted outcome, site.clients[index]? = some client →
    client.progress = .answered submitted outcome →
      site.store.outcome? submitted.id = some outcome

/-- Where there are no clients yet, nobody has been told anything. -/
theorem isHonest_opening (store : Store) : (opening store).IsHonest := by
  simp [IsHonest, opening]

/-- A client is answered with the outcome of its entry. -/
theorem outcome?_of_answered {store : Store} {client : Client} {submitted : Submitted}
    {outcome : Outcome} (answers : (client.step store).progress = .answered submitted outcome) :
    client.progress = .answered submitted outcome ∨
      store.outcome? submitted.id = some outcome := by
  obtain ⟨kind, search, progress⟩ := client
  cases progress with
  | submitting =>
    simp only [Client.step, Client.next] at answers
    split at answers <;> cases answers
  | starting id => cases answers
  | refused refusal => cases answers
  | answered given told => exact .inl answers
  | holding given =>
    simp only [Client.step, Client.next] at answers
    split at answers
    next =>
      split at answers
      next => cases answers
      next told =>
        injection answers with same isOutcome
        exact .inr (by rw [← same, ← isOutcome, told])
    next => cases answers

/-- Clients stay honest, whatever happens. -/
theorem IsHonest.afterAll (honest : site.IsHonest) (wellFormed : site.store.WellFormed)
    (events : List SiteEvent) : (site.afterAll events).IsHonest := by
  induction events generalizing site with
  | nil => exact honest
  | cons event rest ih =>
    refine ih ?_ (wellFormed.afterAll _)
    intro index client submitted outcome isClient answered
    refine wellFormed.outcome?_afterAll ?_ _
    rcases client_after_cases isClient with ⟨before, isBefore, same | ⟨_, stepped⟩⟩ |
      ⟨kind, search, arrives⟩
    · exact honest index before submitted outcome isBefore (same ▸ answered)
    · subst stepped
      rcases outcome?_of_answered answered with already | told
      · exact honest index before submitted outcome isBefore already
      · exact told
    · rw [arrives] at answered
      cases answered

/-- A client that waits and is told the outcome of its entry comes one step closer to its answer. -/
theorem step_of_told {store : Store} {client : Client} (waits : client.kind.waits = true)
    {submitted : Submitted} (granted : client.progress.submitted? = some submitted)
    {outcome : Outcome} (told : store.outcome? submitted.id = some outcome) :
    (client.step store).progress.submitted? = some submitted ∧
      (client.step store).progress.stepsToAnswer = client.progress.stepsToAnswer - 1 := by
  obtain ⟨kind, search, progress⟩ := client
  cases progress with
  | submitting | refused => cases granted
  | starting id => exact ⟨granted, rfl⟩
  | answered given other => exact ⟨granted, rfl⟩
  | holding given =>
    rw [Progress.submitted?, Option.some.injEq] at granted
    subst granted
    simp only at waits
    simp only [Client.step, Client.next, waits, if_true, told]
    exact ⟨rfl, rfl⟩

/-- A client that waits is answered once its entry has an outcome and the client has taken a few
steps more, whatever else happens in between. -/
theorem IsHonest.answered_of_steps (honest : site.IsHonest) (wellFormed : site.store.WellFormed)
    {index : Nat} {client : Client} (isClient : site.clients[index]? = some client)
    (waits : client.kind.waits = true) {submitted : Submitted}
    (granted : client.progress.submitted? = some submitted) {outcome : Outcome}
    (told : site.store.outcome? submitted.id = some outcome) {more : List SiteEvent}
    (enough : client.progress.stepsToAnswer ≤ more.countP (SiteEvent.isStepOf index)) :
    (site.afterAll more).clients[index]? =
      some { client with progress := .answered submitted outcome } := by
  induction more generalizing site client with
  | nil =>
    obtain ⟨kind, search, progress⟩ := client
    cases progress with
    | submitting | refused => cases granted
    | starting | holding => simp [Progress.stepsToAnswer] at enough
    | answered given other =>
      have sameGiven : given = submitted := Option.some.inj granted
      have isOther := honest index _ given other isClient rfl
      rw [sameGiven, told, Option.some.injEq] at isOther
      rw [afterAll_nil, isClient, sameGiven, isOther]
  | cons event rest ih =>
    have honestNext : (site.after event).IsHonest := honest.afterAll wellFormed [event]
    have wellFormedNext : (site.after event).store.WellFormed := wellFormed.afterAll _
    have toldNext : (site.after event).store.outcome? submitted.id = some outcome :=
      wellFormed.outcome?_afterAll told _
    have waitsOn : event.isStepOf index = false →
        (site.after event).clients[index]? = some client →
          (site.afterAll (event :: rest)).clients[index]? =
            some { client with progress := .answered submitted outcome } := by
      intro notStep isLater
      refine ih honestNext wellFormedNext isLater waits granted toldNext ?_
      simpa [List.countP_cons, notStep] using enough
    cases event with
    | arrive kind search =>
      refine waitsOn rfl ?_
      rw [after, clientsAfter, List.getElem?_append_left, isClient]
      exact (List.getElem?_eq_some_iff.mp isClient).1
    | happen event => exact waitsOn rfl isClient
    | step turn =>
      by_cases isTurn : turn = index
      · obtain ⟨grantedNext, nearer⟩ := step_of_told waits granted told
        have stepped : (site.after (.step turn)).clients[index]? =
            some (client.step site.store) := by
          simp [after, clientsAfter, isTurn, isClient]
        have enoughNext : (client.step site.store).progress.stepsToAnswer ≤
            rest.countP (SiteEvent.isStepOf index) := by
          simp only [List.countP_cons, SiteEvent.isStepOf, isTurn, decide_true, if_true] at enough
          omega
        exact (ih honestNext wellFormedNext stepped waits grantedNext toldNext enoughNext :)
      · refine waitsOn (by simpa [SiteEvent.isStepOf] using isTurn) ?_
        simp [after, clientsAfter, isTurn, isClient]

/-- Every client that was given a new entry has started it, or is about to. -/
def StartsWhatIsNew (site : Site) : Prop :=
  ∀ (index : Nat) (client : Client) id, site.clients[index]? = some client →
    client.progress.submitted? = some (.created id) →
      client.progress = .starting id ∨
        ∃ entry, site.store.find? id = some entry ∧ entry.slot ≠ .pending

/-- A client whose next step leaves it with a new entry has just been given the entry,
starts it with this step, or had it before. -/
theorem created_of_step {store : Store} {client : Client} {id : EntryId}
    (isCreated : (client.step store).progress.submitted? = some (.created id)) :
    (client.step store).progress = .starting id ∨ client.progress = .starting id ∨
      client.progress.submitted? = some (.created id) ∧ client.progress ≠ .starting id := by
  obtain ⟨kind, search, progress⟩ := client
  cases progress with
  | submitting =>
    simp only [Client.step, Client.next] at isCreated ⊢
    split at isCreated
    · cases isCreated
    · cases isCreated
    · rw [Progress.submitted?, Option.some.injEq, Submitted.created.injEq] at isCreated
      exact .inl (by rw [isCreated])
  | starting own =>
    rw [Client.step, Client.next, Progress.submitted?, Option.some.injEq,
      Submitted.created.injEq] at isCreated
    exact .inr (.inl (by rw [isCreated]))
  | refused refusal => cases isCreated
  | answered given told => exact .inr (.inr ⟨isCreated, by simp⟩)
  | holding given =>
    refine .inr (.inr ⟨?_, by simp⟩)
    simp only [Client.step, Client.next] at isCreated
    split at isCreated
    · split at isCreated <;> exact isCreated
    · exact isCreated

/-- What the clients of a site were granted accounts for its store ever after. -/
theorem accounts_afterAll (wellFormed : site.store.WellFormed)
    (accounts : site.store.Accounts site.granted) (events : List SiteEvent) :
    (site.afterAll events).store.Accounts (site.afterAll events).granted := by
  rw [store_afterAll]
  exact (wellFormed.accounts_afterAll accounts _).of_perm (site.granted_afterAll events).symm

/-- An entry that is started is not pending. -/
theorem slot_start_ne_pending {store : Store} (wellFormed : store.WellFormed) {id : EntryId}
    {entry : Entry} (found : store.find? id = some entry) :
    ∃ later, (store.afterAll [.start id]).find? id = some later ∧ later.slot ≠ .pending := by
  refine ⟨_, wellFormed.find?_after found (.start id), ?_⟩
  have same := (wellFormed.find?_eq_some_iff.mp found).2
  simp only [Store.effects, same, if_true, Entry.afterAll_cons, Entry.afterAll_nil, Entry.after,
    Entry.start]
  split
  · simp
  next running => simp [running]
  next settled => simp [settled]

/-- Clients go on to start what is new, whatever happens. -/
theorem StartsWhatIsNew.afterAll (starts : site.StartsWhatIsNew)
    (wellFormed : site.store.WellFormed) (accounts : site.store.Accounts site.granted)
    (events : List SiteEvent) :
    (site.afterAll events).StartsWhatIsNew := by
  induction events generalizing site with
  | nil => exact starts
  | cons event rest ih =>
    refine ih ?_ (wellFormed.afterAll _) (accounts_afterAll wellFormed accounts [event])
    intro index client id isClient isCreated
    have persists : ∀ entry, site.store.find? id = some entry → entry.slot ≠ .pending →
        ∃ later, (site.after event).store.find? id = some later ∧ later.slot ≠ .pending :=
      fun entry found begun => wellFormed.find?_afterAll
        (fun entry => entry.slot ≠ .pending) Entry.slot_after_ne_pending found begun _
    rcases client_after_cases isClient with ⟨before, isBefore, same | ⟨isTurn, stepped⟩⟩ |
      ⟨kind, search, arrives⟩
    · subst same
      rcases starts index client id isBefore isCreated with starting | ⟨entry, found, begun⟩
      · exact .inl starting
      · exact .inr (persists entry found begun)
    · subst stepped
      rcases created_of_step isCreated with starting | starts | ⟨already, notStarting⟩
      · exact .inl starting
      · right
        have isGrant : before.grant? = some (before.search, .created id) := by
          rw [Client.grant?, starts]
          rfl
        have member : (before.search, .created id) ∈ site.granted :=
          List.mem_filterMap.mpr ⟨before, List.mem_of_getElem? isBefore, isGrant⟩
        obtain ⟨entry, found, _⟩ := accounts.made _ member
        have storeEvents : site.storeEvents event = [.start id] := by
          simp [isTurn, Site.storeEvents, isBefore, Client.events, starts]
        simp only [Site.after, storeEvents]
        exact slot_start_ne_pending wellFormed found
      · rcases starts index before id isBefore already with starting | ⟨entry, found, begun⟩
        · exact absurd starting notStarting
        · exact .inr (persists entry found begun)
    · rw [arrives] at isCreated
      cases isCreated

end Site

end SweptCache
