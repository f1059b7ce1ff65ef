import Mathlib.Algebra.BigOperators.Group.List.Basic
import SweptCache.Proofs.Listings
import SweptCache.Proofs.SweepBounds

/-!
# The accounts of a sweep

A sweep that has a plan accounts for every entry that was registered before it:
each is evicted, aborted, or still registered, and none of them twice. The plan
names positions, the cache removes keys, and the summary is made up from what is
left, so three things have to agree. They do because the removals of a sweep are
the registered entries at the planned positions, each once
(`WellFormed.sweepRemovals_perm`), and every other registration stays.

What views show right after a sweep agrees with its summary, and a report that
it hands out shows the cache as it was before.
-/

namespace SweptCache

/-- A list is split by a test into two parts whose sums add up to that of the whole. -/
theorem sum_filter_add_sum_filter_not {α : Type} (holds : α → Bool) (amount : α → Nat)
    (items : List α) :
    ((items.filter holds).map amount).sum +
      ((items.filter fun item => !holds item).map amount).sum = (items.map amount).sum := by
  rw [← List.sum_append, ← List.map_append]
  exact ((List.filter_append_perm holds items).map amount).sum_eq

/-- The largest of several amounts is no more than their sum. -/
theorem foldl_max_le_sum (amounts : List Nat) (first : Nat) :
    amounts.foldl max first ≤ first + amounts.sum := by
  induction amounts generalizing first with
  | nil => simp
  | cons amount rest ih =>
    have later := ih (max first amount)
    rw [List.foldl_cons, List.sum_cons]
    omega

namespace Plan

/-- The items of a list at the positions that a plan leaves alone. -/
def leftAlone {α : Type} (plan : Plan) (items : List α) : List α :=
  (items.zipIdx.filter fun item => (plan.actionFor? item.2).isNone).map (·.1)

/-- A test that holds exactly at the positions that a plan leaves alone picks out
the items there. -/
theorem filter_eq_leftAlone {α : Type} {plan : Plan} {holds : α → Bool} {items : List α}
    (same : ∀ item position, items[position]? = some item →
      holds item = (plan.actionFor? position).isNone) :
    items.filter holds = plan.leftAlone items := by
  conv_lhs => rw [← List.zipIdx_map_fst 0 items]
  rw [List.filter_map, leftAlone]
  refine congrArg _ (List.filter_congr fun item member => ?_)
  exact same item.1 item.2 (List.mem_zipIdx_iff_getElem?.mp member)

end Plan

namespace Store

variable {store : Store} {plan : Plan}

section Removals

/-- A sweep removes no entry twice. -/
theorem WellFormed.nodup_sweepRemovals (wellFormed : store.WellFormed)
    (planned : store.plan = .ok plan) : (store.sweepRemovals.map (·.1)).Nodup := by
  have nodup : store.registeredEntries.Nodup := .of_map _ wellFormed.nodup_keys_registeredEntries
  have located : List.Forall₂
      (fun entry position => store.registeredEntries[position]? = some entry)
      (store.sweepRemovals.map (·.1)) (store.planRemovals.map (·.item.2)) := by
    rw [List.forall₂_map_left_iff, List.forall₂_map_right_iff]
    exact (forall₂_sweepRemovals planned).imp fun _ _ isRemoval => isRemoval.1
  -- A position holds one entry and an entry is at one position, so that the planned positions are
  -- distinct carries over to the entries.
  have biUnique : Relator.BiUnique fun (entry : Entry) (position : Nat) =>
      store.registeredEntries[position]? = some entry := by
    constructor
    · intro first position second firstFound secondFound
      rw [firstFound] at secondFound
      exact Option.some.inj secondFound
    · intro entry first second firstFound secondFound
      have within := (List.getElem?_eq_some_iff.mp firstFound).1
      exact (List.getElem?_inj within nodup).mp (firstFound.trans secondFound.symm)
  exact (List.rel_nodup biUnique located).mpr Plan.nodup_positions_removals

/-- The removals of a sweep are the registered entries that leave the cache, each once. -/
theorem WellFormed.sweepRemovals_perm (wellFormed : store.WellFormed)
    (planned : store.plan = .ok plan) :
    (store.sweepRemovals.map (·.1)).Perm
      (store.registeredEntries.filter store.isRemovedBySweep) := by
  have nodup : store.registeredEntries.Nodup := .of_map _ wellFormed.nodup_keys_registeredEntries
  rw [List.perm_ext_iff_of_nodup (wellFormed.nodup_sweepRemovals planned) (nodup.filter _)]
  intro entry
  rw [List.mem_map, List.mem_filter]
  constructor
  · rintro ⟨removed, member, rfl⟩
    exact ⟨(action_of_mem_sweepRemovals member).1,
      List.any_eq_true.mpr ⟨removed, member, decide_eq_true rfl⟩⟩
  · rintro ⟨registered, removed⟩
    obtain ⟨action, member⟩ := wellFormed.removal_of_isRemoved registered removed
    exact ⟨_, member, rfl⟩

/-- The entries that leave the cache in a sweep are those that are not registered after it. -/
theorem WellFormed.isRemovedBySweep_iff_notMem (wellFormed : store.WellFormed) {entry : Entry}
    (registered : entry ∈ store.registeredEntries) :
    store.isRemovedBySweep entry = true ↔ entry.id ∉ store.sweep.2.registeredIds := by
  have swept : store.sweep.2.WellFormed := wellFormed.after .sweep
  rw [← swept.ids_registeredEntries, wellFormed.registeredEntries_sweep, List.map_map]
  constructor
  · intro removed stays
    obtain ⟨other, member, same⟩ := List.mem_map.mp stays
    obtain ⟨otherRegistered, kept⟩ := List.mem_filter.mp member
    have isEntry : other = entry := wellFormed.entry_unique
      (WellFormed.mem_entries_of_registered otherRegistered)
      (WellFormed.mem_entries_of_registered registered) (by simpa using same)
    simp [isEntry, removed] at kept
  · intro gone
    by_contra stays
    refine gone (List.mem_map.mpr ⟨entry, List.mem_filter.mpr ⟨registered, ?_⟩, by simp⟩)
    simpa using stays

/-- A plan leaves a position alone exactly if the entry there stays. -/
theorem WellFormed.isNone_actionFor? (wellFormed : store.WellFormed)
    (planned : store.plan = .ok plan) {entry : Entry} {position : Nat}
    (found : store.registeredEntries[position]? = some entry) :
    (!store.isRemovedBySweep entry) = (plan.actionFor? position).isNone := by
  have item : (store.asCandidate entry, position) ∈ store.candidates.zipIdx := by
    rw [List.mem_zipIdx_iff_getElem?, candidates_eq_map, List.getElem?_map, found]
    rfl
  rw [Bool.eq_iff_iff, Bool.not_eq_true', ← Bool.not_eq_true,
    wellFormed.isRemovedBySweep_iff planned found, Option.isNone_iff_eq_none]
  exact (Plan.actionFor?_eq_none_iff planned item).symm

/-- A sweep leaves the registrations at the positions that its plan leaves alone. -/
theorem WellFormed.registrations_leftAlone (wellFormed : store.WellFormed)
    (planned : store.plan = .ok plan) :
    store.sweep.2.registrations = plan.leftAlone store.registrations := by
  rw [registrations_sweep]
  refine Plan.filter_eq_leftAlone fun registration position found => ?_
  have keyed : (store.registeredEntries.map (·.key))[position]? = some registration.key := by
    rw [wellFormed.keys_registeredEntries, List.getElem?_map, found]
    rfl
  rw [List.getElem?_map, Option.map_eq_some_iff] at keyed
  obtain ⟨entry, entryFound, sameKey⟩ := keyed
  rw [← wellFormed.isNone_actionFor? planned entryFound, isRemovedBySweep, sameKey]

/-- The score of a registered entry is computed and remembered, and nothing else is. -/
theorem WellFormed.scored_eq (wellFormed : store.WellFormed) {entry : Entry}
    (registered : entry ∈ store.registeredEntries) :
    store.scored entry = entry.rememberWorthiness (store.policy (entry.stats store.clock)) := by
  have listed := (wellFormed.mem_registeredEntries_iff.mp registered).2
  rw [scored, if_pos (by simpa using listed)]

/-- A sweep leaves the registered entries at the positions that its plan leaves alone, with their
scores. -/
theorem WellFormed.registeredEntries_leftAlone (wellFormed : store.WellFormed)
    (planned : store.plan = .ok plan) :
    store.sweep.2.registeredEntries = (plan.leftAlone store.registeredEntries).map fun entry =>
      { entry with worthiness := store.policy (entry.stats store.clock) } := by
  rw [wellFormed.registeredEntries_sweep,
    ← Plan.filter_eq_leftAlone fun _ _ found => wellFormed.isNone_actionFor? planned found]
  exact List.map_congr_left fun entry member =>
    wellFormed.scored_eq (List.mem_of_mem_filter member)

end Removals

section Balance

/-- The entries that were registered before and are not afterwards. -/
def removedIn (store later : Store) : List Entry :=
  store.registeredEntries.filter fun entry => entry.id ∉ later.registeredIds

/-- Every entry that was registered is removed or remains. -/
theorem WellFormed.length_actions_add_size (wellFormed : store.WellFormed)
    (planned : store.plan = .ok plan) : plan.actions.length + store.sweep.2.size = store.size := by
  have removed := (wellFormed.sweepRemovals_perm planned).length_eq
  rw [List.length_map, (forall₂_sweepRemovals planned).length_eq,
    ← List.countP_eq_length_filter] at removed
  have actions : plan.actions.length = store.planRemovals.length := by
    rw [Plan.actions_of_make planned, List.length_map]
    rfl
  have whole := List.length_eq_countP_add_countP store.isRemovedBySweep
    (l := store.registeredEntries)
  simp only [Bool.not_eq_true] at whole
  rw [actions, removed, wellFormed.size_sweep, wellFormed.size_eq, whole]
  simp

/-- What a sweep takes out of the cache is not registered after it, and nothing else is so. -/
theorem WellFormed.removedIn_sweep (wellFormed : store.WellFormed) :
    store.removedIn store.sweep.2 = store.registeredEntries.filter store.isRemovedBySweep := by
  refine List.filter_congr fun entry registered => ?_
  rw [Bool.eq_iff_iff, decide_eq_true_eq, wellFormed.isRemovedBySweep_iff_notMem registered]

/-- The bytes of every entry that was registered are removed or remain. -/
theorem WellFormed.removed_add_left (wellFormed : store.WellFormed) :
    ((store.removedIn store.sweep.2).map Entry.exactSize).sum +
      (store.sweep.2.registeredEntries.map Entry.exactSize).sum =
        (store.registeredEntries.map Entry.exactSize).sum := by
  rw [wellFormed.removedIn_sweep, wellFormed.sizes_sweep]
  exact sum_filter_add_sum_filter_not store.isRemovedBySweep Entry.exactSize _

/-- The bytes that a plan removes are those of the entries that its sweep removes. -/
theorem WellFormed.bytes_planRemovals (wellFormed : store.WellFormed)
    (planned : store.plan = .ok plan) :
    Removal.bytes store.planRemovals =
      ((store.removedIn store.sweep.2).map Entry.exactSize).sum := by
  have sizes : store.planRemovals.map (·.item.1.exactSize) =
      store.sweepRemovals.map (·.1.exactSize) := by
    rw [← List.forall₂_eq_eq_eq, List.forall₂_map_left_iff, List.forall₂_map_right_iff]
    refine (forall₂_sweepRemovals planned).flip.imp fun removal removed isRemoval => ?_
    rw [isRemoval.2.1]
    rfl
  have removed := ((wellFormed.sweepRemovals_perm planned).map Entry.exactSize).sum_eq
  rw [List.map_map] at removed
  rw [Removal.bytes, sizes, wellFormed.removedIn_sweep, ← removed]
  rfl

/-- A plan adds up the exact sizes of the registered entries. -/
theorem sizeBytes_of_plan (planned : store.plan = .ok plan) :
    plan.sizeBytes = (store.registeredEntries.map Entry.exactSize).sum := by
  rw [(Plan.sizeBytes_of_make planned).1, candidates_eq_map, List.map_map]
  rfl

end Balance

section Removed

/-- What becomes of an entry that a sweep removes. A finished one is evicted as it is, a pending
one is cancelled on the spot, and a running one is asked to stop. Each has its score from the
policy, and is as it was otherwise. -/
inductive IsRemovedAs (store : Store) (entry later : Entry) : SweepAction → Prop where
  | evicted (reason : EvictionReason) (done : entry.isDone = true)
      (becomes : later = { entry with worthiness := store.policy (entry.stats store.clock) }) :
      IsRemovedAs store entry later (.evict reason)
  | cancelled (reason : AbortReason) (pending : entry.status = .pending)
      (becomes : later = { entry with
        worthiness := store.policy (entry.stats store.clock)
        cancelRequested := true, searchDone := true, slot := .settled .cancelled,
        finished := some store.clock }) :
      IsRemovedAs store entry later (.abort reason)
  | asked (reason : AbortReason) (running : entry.status = .running)
      (becomes : later = { entry with
        worthiness := store.policy (entry.stats store.clock), cancelRequested := true }) :
      IsRemovedAs store entry later (.abort reason)

/-- A removal leaves an entry as it should. -/
theorem WellFormed.isRemovedAs_of_mem (wellFormed : store.WellFormed) {entry : Entry}
    {action : SweepAction} (member : (entry, action) ∈ store.sweepRemovals) :
    store.IsRemovedAs entry (entry.afterAll store.clock (store.sweepEffects entry)) action := by
  have registered := (action_of_mem_sweepRemovals member).1
  have coherent := wellFormed.coherent entry (WellFormed.mem_entries_of_registered registered)
  rw [afterAll_sweepEffects_eq, wellFormed.scored_eq registered,
    wellFormed.isAbortedBySweep_of_mem member]
  cases action with
  | evict reason => exact .evicted reason (isDone_of_evicted member) rfl
  | abort reason =>
    have unfinished := wellFormed.isDone_of_aborted member
    have scored := coherent.rememberWorthiness (store.policy (entry.stats store.clock))
    rcases scored.cancel_of_unfinished unfinished store.clock with
      ⟨pending, becomes⟩ | ⟨running, becomes⟩
    · exact .cancelled reason pending becomes
    · exact .asked reason running becomes

/-- Every decision of a plan is carried out on the registered entry at its position, which is then
no longer registered. -/
theorem WellFormed.carried_out (wellFormed : store.WellFormed) (planned : store.plan = .ok plan)
    {decision : Nat × SweepAction} (member : decision ∈ plan.actions) :
    ∃ entry later, store.registeredEntries[decision.1]? = some entry ∧
      entry.id ∉ store.sweep.2.registeredIds ∧
      store.sweep.2.find? entry.id = some later ∧ store.IsRemovedAs entry later decision.2 := by
  rw [Plan.actions_of_make planned] at member
  obtain ⟨removal, removalMember, rfl⟩ := List.mem_map.mp member
  obtain ⟨removed, removedMember, found, _, action⟩ :=
    exists_of_forall₂ (forall₂_sweepRemovals planned).flip removalMember
  have registered := (action_of_mem_sweepRemovals removedMember).1
  have isFound := wellFormed.find?_eq_some_iff.mpr
    ⟨WellFormed.mem_entries_of_registered registered, rfl⟩
  have isRemoved : store.isRemovedBySweep removed.1 = true :=
    List.any_eq_true.mpr ⟨removed, removedMember, decide_eq_true rfl⟩
  refine ⟨removed.1, _, found, (wellFormed.isRemovedBySweep_iff_notMem registered).mp isRemoved,
    ?_, action ▸ wellFormed.isRemovedAs_of_mem removedMember⟩
  rw [find?_map store.entries_sweep (fun _ => Entry.id_afterAll ..), isFound, Option.map_some]

/-- A sweep leaves an entry alone that is not registered. -/
theorem WellFormed.find?_sweep_of_absent (wellFormed : store.WellFormed) {id : EntryId}
    {entry : Entry} (absent : id ∉ store.registeredIds) (found : store.find? id = some entry) :
    store.sweep.2.find? id = some entry := by
  obtain ⟨member, rfl⟩ := wellFormed.find?_eq_some_iff.mp found
  have notAborted : store.isAbortedBySweep entry = false := by
    rw [Bool.eq_false_iff]
    intro aborted
    obtain ⟨registered, _⟩ := wellFormed.isRemoved_of_isAborted member aborted
    exact absent (wellFormed.mem_registeredEntries_iff.mp registered).2
  rw [find?_map store.entries_sweep (fun _ => Entry.id_afterAll ..), found, Option.map_some,
    sweepEffects, notAborted, if_neg (by simpa using absent)]
  rfl

end Removed

section Reports

/-- A report that tells of a cache as it is. -/
structure IsReportOn (store : Store) (report : Report) : Prop where
  numberOfSearches : report.numberOfSearches = store.size
  numberRunning : report.numberRunning =
    store.registeredEntries.countP fun entry => !entry.isDone
  sizeBytes : report.sizeBytes = (store.registeredEntries.map Entry.exactSize).sum
  freeMemory : report.freeMemory = store.memory.next
  largestEntryBytes : report.largestEntryBytes ≤ report.sizeBytes

/-- A report is handed out when it is due. -/
theorem reports_reportIfDue {reported : Store} {sizeBytes : Nat} {freeBytes : UInt64}
    (handedOut : store.reportIfDue sizeBytes freeBytes = (.ok (), reported)) :
    if isDue store.clock reportInterval store.lastReport then
      ∃ snapshots listing,
        Snapshot.captureAll store.clock true store.registeredEntries = .ok snapshots ∧
        reported.reports =
          store.reports ++ [⟨.ofSnapshots snapshots sizeBytes freeBytes, listing⟩]
    else reported.reports = store.reports := by
  unfold reportIfDue at handedOut
  split at handedOut
  next due =>
    rw [if_pos due]
    split at handedOut
    next => cases handedOut
    next snapshots captured =>
      injection handedOut with _ isReported
      subst isReported
      exact ⟨snapshots, _, captured, rfl⟩
  next notDue =>
    rw [if_neg notDue]
    injection handedOut with _ isReported
    rw [isReported]

/-- A report made up from snapshots tells of the entries that they were taken of. -/
theorem WellFormed.isReportOn_ofSnapshots (wellFormed : store.WellFormed)
    (planned : store.plan = .ok plan) {snapshots : List Snapshot}
    (captured : Snapshot.captureAll store.clock true
      (store.registeredEntries.map store.scored) = .ok snapshots) :
    store.IsReportOn (.ofSnapshots snapshots plan.sizeBytes store.memory.next) := by
  have statuses := Snapshot.map_captureAll (·.status) captured
  have sizes := Snapshot.map_captureAll (·.sizeBytes) captured
  rw [List.map_map] at statuses sizes
  have sameSizes : snapshots.map (·.sizeBytes) =
      store.registeredEntries.map Entry.exactSize := by
    rw [sizes]
    exact List.map_congr_left fun entry _ => store.exactSize_scored entry
  constructor
  case numberOfSearches =>
    have sameLength := congrArg List.length sameSizes
    rw [List.length_map, List.length_map] at sameLength
    rw [Report.ofSnapshots, sameLength, wellFormed.size_eq]
  case numberRunning =>
    have counted := congrArg (List.countP fun status => !status.isTerminal) statuses
    rw [List.countP_map, List.countP_map] at counted
    refine counted.trans (List.countP_congr fun entry _ => ?_)
    exact iff_of_eq (congrArg (fun done => (!done) = true) (store.isDone_scored entry))
  case sizeBytes => exact sizeBytes_of_plan planned
  case freeMemory => rfl
  case largestEntryBytes =>
    have below := foldl_max_le_sum (snapshots.map (·.sizeBytes)) 0
    rw [sameSizes, Nat.zero_add, ← sizeBytes_of_plan planned, ← sameSizes] at below
    exact below

/-- A sweep hands out a report on the cache as it finds it, if one is due. -/
theorem WellFormed.reports_sweep (wellFormed : store.WellFormed)
    (planned : store.plan = .ok plan) :
    if isDue store.clock reportInterval store.lastReport then
      ∃ delivered, store.sweep.2.reports = store.reports ++ [delivered] ∧
        store.IsReportOn delivered.report
    else store.sweep.2.reports = store.reports := by
  obtain ⟨reported, handedOut, _, swept⟩ := sweep_of_plan planned
  have reports : store.sweep.2.reports = reported.reports := by rw [swept]; rfl
  have given := reports_reportIfDue handedOut
  -- Remembering scores has not touched the clock, the reports or the time of the last one.
  change if isDue store.clock reportInterval store.lastReport then _ else _ at given
  split at given
  next due =>
    rw [if_pos due, reports]
    obtain ⟨snapshots, listing, captured, isReported⟩ := given
    refine ⟨_, isReported, wellFormed.isReportOn_ofSnapshots planned ?_⟩
    rw [← registeredEntries_scoreAll]
    exact captured
  next notDue =>
    rw [if_neg notDue, reports]
    exact given

end Reports

/-- A sweep that accounts for every entry that was registered before it. -/
structure SweepBalances (store : Store) (plan : Plan) (summary : SweepSummary) (swept : Store) :
    Prop where
  /-- Every entry was evicted or aborted, or remains. -/
  total : summary.evicted + summary.aborted + summary.remaining = store.size
  evicted : summary.evicted = plan.actions.countP fun decision => !isAbort decision.2
  aborted : summary.aborted = plan.actions.countP fun decision => isAbort decision.2
  remaining : summary.remaining = swept.size
  running : summary.running = swept.registeredEntries.countP fun entry => !entry.isDone
  /-- No entry is removed twice. -/
  once : (plan.actions.map (·.1)).Nodup
  /-- Every entry of the plan is removed in the way that was decided. -/
  removed : ∀ decision ∈ plan.actions, ∃ entry later,
    store.registeredEntries[decision.1]? = some entry ∧ entry.id ∉ swept.registeredIds ∧
    swept.find? entry.id = some later ∧ store.IsRemovedAs entry later decision.2
  /-- Every other entry stays. It has its score from the policy, and is as it was otherwise. -/
  registrations : swept.registrations = plan.leftAlone store.registrations
  unchanged : swept.registeredEntries = (plan.leftAlone store.registeredEntries).map fun entry =>
    { entry with worthiness := store.policy (entry.stats store.clock) }
  /-- An entry that was not registered is left alone. -/
  unregistered : ∀ id entry, id ∉ store.registeredIds → store.find? id = some entry →
    swept.find? id = some entry
  /-- The bytes of all entries were removed, or remain. -/
  sizeBytes : plan.sizeBytes = (store.registeredEntries.map Entry.exactSize).sum
  balance : summary.sizeBytes + ((store.removedIn swept).map Entry.exactSize).sum = plan.sizeBytes
  /-- A report is on the cache as it was. -/
  report :
    if isDue store.clock reportInterval store.lastReport then
      ∃ delivered, swept.reports = store.reports ++ [delivered] ∧
        store.IsReportOn delivered.report
    else swept.reports = store.reports
  /-- Views of the cache as it is agree with what the sweep tells of it. -/
  overview : ∃ overview, swept.overview.1 = .ok overview ∧
    overview.numberOfSearches = summary.remaining ∧ overview.sizeBytes = summary.sizeBytes
  contents : ∀ isDetailed, ∃ snapshots, swept.contents isDetailed = .ok snapshots ∧
    snapshots.length = summary.remaining ∧ (snapshots.map (·.sizeBytes)).sum = summary.sizeBytes

/-- Every sweep that succeeds accounts for every entry that was registered before it. -/
theorem sweep_balances (reachable : store.Reachable) {summary : SweepSummary} {swept : Store}
    (succeeded : store.sweep = (.ok summary, swept)) :
    ∃ plan, store.plan = .ok plan ∧ store.SweepBalances plan summary swept := by
  have wellFormed := reachable.wellFormed
  obtain ⟨plan, planned, rfl, rfl⟩ := wellFormed.exists_plan_of_sweep succeeded
  refine ⟨plan, planned, ?_⟩
  constructor
  case total =>
    have actions := List.length_eq_countP_add_countP (fun decision => isAbort decision.2)
      (l := plan.actions)
    have whole := wellFormed.length_actions_add_size planned
    simp only [Bool.not_eq_true, Bool.decide_eq_false] at actions
    simp only [sweepSummary]
    omega
  case evicted | aborted | remaining | running => rfl
  case once =>
    rw [Plan.actions_of_make planned, List.map_map]
    exact Plan.nodup_positions_removals
  case removed => exact fun decision member => wellFormed.carried_out planned member
  case registrations => exact wellFormed.registrations_leftAlone planned
  case unchanged => exact wellFormed.registeredEntries_leftAlone planned
  case unregistered => exact fun _ _ absent found => wellFormed.find?_sweep_of_absent absent found
  case sizeBytes => exact sizeBytes_of_plan planned
  case balance =>
    rw [sizeBytes_of_plan planned, ← wellFormed.removed_add_left]
    exact Nat.add_comm ..
  case report => exact wellFormed.reports_sweep planned
  case overview => exact ⟨_, wellFormed.overview_sweep planned, rfl, rfl⟩
  case contents =>
    have swept : store.sweep.2.WellFormed := wellFormed.after .sweep
    exact contents_of_fits swept (wellFormed.sum_sizes_sweep_lt planned)

theorem sweep_balances_in_crowded :
    crowded.size = 3 ∧ ∃ plan summary, crowded.plan = .ok plan ∧
      crowded.sweep = (.ok summary, crowded.sweep.2) ∧
      crowded.SweepBalances plan summary crowded.sweep.2 := by
  have reachable : crowded.Reachable :=
    ⟨narrowSettings, .standard, .fixed 200000000, _, _, rfl, rfl⟩
  obtain ⟨summary, succeeded⟩ := reachable.wellFormed.sweep_succeeds (by decide)
  obtain ⟨plan, planned, balances⟩ := sweep_balances reachable succeeded
  exact ⟨by decide, plan, summary, planned, succeeded, balances⟩

end Store

end SweptCache
