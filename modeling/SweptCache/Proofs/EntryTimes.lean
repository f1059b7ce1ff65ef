import SweptCache.Proofs.EntryRecords
import SweptCache.Proofs.Reachability

/-!
# The times that an entry tells

The figures of an entry hold five lengths of time, which are differences of the
clock and four recorded moments. A difference the wrong way round would be zero
and not be noticed, so what has to be known is how the moments are ordered
(`Entry.IsTimed`): an entry is started, settles and is asked for after it was
made and before now, and it settles after it was started. All this holds if the
clock never goes back (`Life.IsTimely`).

Whoever asks for an entry reads the clock before taking the lock, so an access
may be recorded after what happened later. Nothing is said of how the last access
is ordered with start and end, and nothing of it is needed.
-/

namespace SweptCache

namespace Life

/-- A life through which the clock goes on from a reading until now. What happens under the lock
happens at the reading then. An access may be older than that, but not older than its entry. -/
def IsTimely (created clock now : Instant) : Life → Prop
  | [] => clock ≤ now
  | (moment, event) :: rest =>
    (if event = .touch then created else clock) ≤ moment ∧
      IsTimely created (clock.latest moment) now rest

/-- Whether a life is timely can be decided. -/
instance decidableIsTimely (created clock now : Instant) :
    (life : Life) → Decidable (life.IsTimely created clock now)
  | [] => inferInstanceAs (Decidable (clock ≤ now))
  | (moment, event) :: rest =>
    have := decidableIsTimely created (clock.latest moment) now rest
    inferInstanceAs (Decidable ((if event = .touch then created else clock) ≤ moment ∧
      IsTimely created (clock.latest moment) now rest))

/-- When an entry was last asked for in a life, given when it was before. -/
def lastAccess (before : Instant) : Life → Instant
  | [] => before
  | (moment, event) :: rest => lastAccess (if event = .touch then moment else before) rest

variable {created clock now : Instant} {life : Life}

/-- The clock does not go back in a timely life. -/
theorem IsTimely.le (timely : life.IsTimely created clock now) : clock ≤ now := by
  induction life generalizing clock with
  | nil => exact timely
  | cons moment rest ih =>
    have goesOn := ih timely.2
    rw [Instant.le_iff, Instant.nanoseconds_latest] at goesOn
    rw [Instant.le_iff]
    omega

/-- A timely life could have begun earlier. -/
theorem IsTimely.of_le {earlier : Instant} (timely : life.IsTimely created clock now)
    (before : earlier ≤ clock) : life.IsTimely created earlier now := by
  induction life generalizing clock earlier with
  | nil =>
    rw [IsTimely, Instant.le_iff] at *
    omega
  | cons moment rest ih =>
    obtain ⟨happens, goesOn⟩ := timely
    refine ⟨?_, ih goesOn ?_⟩
    · split
      next isTouch => simpa [isTouch] using happens
      next notTouch =>
        simp only [notTouch, if_false, Instant.le_iff] at happens before ⊢
        omega
    · simp only [Instant.le_iff, Instant.nanoseconds_latest] at before ⊢
      omega

/-- A timely life that goes on in time is timely. -/
theorem IsTimely.append {rest : Life} {later : Instant} (timely : life.IsTimely created clock now)
    (goesOn : rest.IsTimely created now later) : (life ++ rest).IsTimely created clock later := by
  induction life generalizing clock with
  | nil => exact goesOn.of_le timely
  | cons moment rest ih => exact ⟨timely.1, ih timely.2⟩

/-- Several things may happen at one reading. -/
theorem isTimely_map (made : created ≤ now) (events : List EntryEvent) :
    Life.IsTimely created now now (events.map fun event => (now, event)) := by
  induction events with
  | nil => exact Nat.le_refl _
  | cons event rest ih =>
    refine ⟨?_, ?_⟩
    · split
      · exact made
      · exact Nat.le_refl _
    · have same : now.latest now = now := by simp [Instant.latest]
      rw [same]
      exact ih

end Life

/-- Figures whose lengths of time fit together. -/
structure Stats.HasFittingTimes (stats : Stats) : Prop where
  unused_le_sinceLastAccess : stats.unused ≤ stats.sinceLastAccess
  sinceLastAccess_le_sinceCreation : stats.sinceLastAccess ≤ stats.sinceCreation
  /-- The search ran and went unused at different times. -/
  waited_add_unused_le : stats.waited.nanoseconds + stats.unused.nanoseconds ≤
    stats.sinceCreation.nanoseconds

namespace Entry

variable {entry : Entry}

/-- Only an access changes when an entry was last asked for. -/
theorem lastAccess_after (now : Instant) (entry : Entry) (event : EntryEvent) :
    (entry.after now event).lastAccess = if event = .touch then now else entry.lastAccess := by
  cases event with
  | start => simp only [after, start]; split <;> rfl
  | cancel => simp only [after, cancel]; split <;> rfl
  | trip => simp only [after, trip]; split <;> rfl
  | touch | remember => rfl
  | advance =>
    obtain ⟨_, _, _, _, _, _, advanced, _⟩ := entry.advance_cases now
    rw [after, advanced]
    rfl

/-- An entry was last asked for when its life says so. -/
theorem lastAccess_afterEach (entry : Entry) (life : Life) :
    (entry.afterEach life).lastAccess = life.lastAccess entry.lastAccess := by
  induction life generalizing entry with
  | nil => rfl
  | cons moment rest ih => rw [afterEach_cons, ih, lastAccess_after, Life.lastAccess]

/-- An entry whose moments are in order when the clock shows such a reading. -/
structure IsTimed (entry : Entry) (clock : Instant) : Prop where
  created_le_lastAccess : entry.created ≤ entry.lastAccess
  lastAccess_le : entry.lastAccess ≤ clock
  started : ∀ started, entry.started = some started → entry.created ≤ started ∧ started ≤ clock
  finished : ∀ finished, entry.finished = some finished →
    entry.created ≤ finished ∧ finished ≤ clock
  started_le_finished : ∀ started finished, entry.started = some started →
    entry.finished = some finished → started ≤ finished

/-- An entry is made in order. -/
theorem isTimed_make (id : EntryId) (search : Search) (now : Instant) :
    (make id search now).IsTimed now where
  created_le_lastAccess := Nat.le_refl _
  lastAccess_le := Nat.le_refl _
  started := by intro _ none; cases none
  finished := by intro _ none; cases none
  started_le_finished := by intro _ _ none; cases none

variable {clock now : Instant}

/-- The moments of an entry stay in order when the clock goes on. -/
theorem IsTimed.of_le (timed : entry.IsTimed clock) (goesOn : clock ≤ now) :
    entry.IsTimed now where
  created_le_lastAccess := timed.created_le_lastAccess
  lastAccess_le := Nat.le_trans timed.lastAccess_le goesOn
  started moment isStart :=
    ⟨(timed.started moment isStart).1, Nat.le_trans (timed.started moment isStart).2 goesOn⟩
  finished moment isEnd :=
    ⟨(timed.finished moment isEnd).1, Nat.le_trans (timed.finished moment isEnd).2 goesOn⟩
  started_le_finished := timed.started_le_finished

/-- An access leaves the moments of an entry in order, if it is not older than the entry. -/
theorem IsTimed.touch (timed : entry.IsTimed clock) (made : entry.created ≤ now) :
    (entry.touch now).IsTimed (clock.latest now) :=
  { timed.of_le (Nat.le_max_left ..) with
    created_le_lastAccess := made
    lastAccess_le := Nat.le_max_right .. }

/-- Whatever else happens when it happens leaves the moments of an entry in order. -/
theorem IsTimed.after_of_ne (timed : entry.IsTimed clock) (coherent : entry.Coherent)
    (goesOn : clock ≤ now) {event : EntryEvent} (other : event ≠ .touch) :
    (entry.after now event).IsTimed now := by
  have timedNow := timed.of_le goesOn
  have madeBefore : entry.created ≤ now :=
    Nat.le_trans timedNow.created_le_lastAccess timedNow.lastAccess_le
  have sameAccess : (entry.after now event).lastAccess = entry.lastAccess := by
    rw [lastAccess_after, if_neg other]
  refine ⟨?_, ?_, ?_, ?_, ?_⟩
  · rw [created_after, sameAccess]
    exact timedNow.created_le_lastAccess
  · rw [sameAccess]
    exact timedNow.lastAccess_le
  · intro moment isStart
    rw [created_after]
    rcases (coherent.started_after_iff now event moment).mp isStart with before | ⟨rfl, _⟩
    · exact timedNow.started moment before
    · exact ⟨madeBefore, Nat.le_refl _⟩
  · intro moment isEnd
    rw [created_after]
    rcases (coherent.finished_after_iff now event moment).mp isEnd with before | ⟨rfl, _⟩
    · exact timedNow.finished moment before
    · exact ⟨madeBefore, Nat.le_refl _⟩
  · intro first second isStart isEnd
    rcases (coherent.started_after_iff now event first).mp isStart with before | ⟨_, _, runs⟩
    · rcases (coherent.finished_after_iff now event second).mp isEnd with endedBefore | ⟨rfl, _⟩
      · exact timedNow.started_le_finished first second before endedBefore
      · exact (timedNow.started first before).2
    · -- What has just been started runs, and has no end.
      have ended : (entry.after now event).finished.isSome = (entry.after now event).isDone :=
        (coherent.after event).isSome_finished
      rw [isEnd, isDone_of_running runs] at ended
      cases ended

/-- What happens in time leaves the moments of an entry in order. -/
theorem IsTimed.after (timed : entry.IsTimed clock) (coherent : entry.Coherent)
    {event : EntryEvent} (happens : (if event = .touch then entry.created else clock) ≤ now) :
    (entry.after now event).IsTimed (clock.latest now) := by
  by_cases isTouch : event = .touch
  · subst isTouch
    exact timed.touch happens
  · rw [if_neg isTouch] at happens
    exact (timed.after_of_ne coherent happens isTouch).of_le (Nat.le_max_right ..)

/-- A timely life leaves the moments of an entry in order. -/
theorem IsTimed.afterEach (timed : entry.IsTimed clock) (coherent : entry.Coherent) {life : Life}
    (timely : life.IsTimely entry.created clock now) : (entry.afterEach life).IsTimed now := by
  induction life generalizing entry clock with
  | nil => exact timed.of_le timely
  | cons moment rest ih =>
    obtain ⟨happens, goesOn⟩ := timely
    refine ih (timed.after coherent happens) (coherent.after moment.2) ?_
    rw [created_after]
    exact goesOn

/-- An entry has gone unused no longer than it has not been asked for. -/
theorem unused_le_sinceLastAccess (now : Instant) (entry : Entry) :
    (entry.stats now).unused ≤ (entry.stats now).sinceLastAccess := by
  simp only [stats, unused, Duration.le_iff, Instant.nanoseconds_since]
  split
  · simp only [Instant.nanoseconds_since, Instant.nanoseconds_latest]
    omega
  · exact Nat.zero_le _

/-- A search has run and has gone unused for no longer than there has been an entry for it. -/
theorem IsTimed.waited_add_unused_le (timed : entry.IsTimed now) :
    (entry.stats now).waited.nanoseconds + (entry.stats now).unused.nanoseconds ≤
      (entry.stats now).sinceCreation.nanoseconds := by
  simp only [stats, waited, unused]
  cases started : entry.started with
  | none =>
    cases finished : entry.finished with
    | none => simp [Duration.zero]
    | some finish =>
      have ended := timed.finished finish finished
      simp only [Duration.zero, Instant.le_iff, Instant.nanoseconds_since,
        Instant.nanoseconds_latest] at ended ⊢
      omega
  | some start =>
    have begun := timed.started start started
    cases finished : entry.finished with
    | none =>
      simp only [Duration.zero, Instant.le_iff, Instant.nanoseconds_since] at begun ⊢
      omega
    | some finish =>
      have ended := timed.finished finish finished
      have ordered := timed.started_le_finished start finish started finished
      simp only [Instant.le_iff, Instant.nanoseconds_since, Instant.nanoseconds_latest]
        at begun ended ordered ⊢
      omega

/-- The figures of an entry whose moments are in order have lengths of time that fit together. -/
theorem IsTimed.hasFittingTimes (timed : entry.IsTimed now) :
    (entry.stats now).HasFittingTimes where
  unused_le_sinceLastAccess := entry.unused_le_sinceLastAccess now
  sinceLastAccess_le_sinceCreation := Nat.sub_le_sub_left timed.created_le_lastAccess _
  waited_add_unused_le := timed.waited_add_unused_le

/-- An entry that has not been started has not been waited for. -/
theorem waited_of_unstarted (unstarted : entry.started = none) (now : Instant) :
    entry.waited now = .zero := by
  simp only [waited, unstarted]

/-- A settled entry keeps its start and its end through any life. -/
theorem IsSettled.moments_afterEach {verdict : Verdict} (settled : entry.IsSettled verdict)
    (life : Life) : (entry.afterEach life).started = entry.started ∧
      (entry.afterEach life).finished = entry.finished := by
  induction life generalizing entry with
  | nil => exact ⟨rfl, rfl⟩
  | cons moment rest ih =>
    obtain ⟨now, event⟩ := moment
    have stays : (entry.after now event).IsSettled verdict :=
      (IsFrozenAs.after ⟨settled, rfl, rfl⟩ event).settled
    have later := ih stays
    obtain ⟨_, _, _, becomes, _⟩ := settled.after_eq now event
    rw [becomes] at later
    rw [afterEach_cons, becomes]
    exact later

/-- The time for which a search ran is fixed once it is terminal. -/
theorem Coherent.waited_afterEach_of_isDone (coherent : entry.Coherent)
    (done : entry.isDone = true) (life : Life) (later now : Instant) :
    (entry.afterEach life).waited later = entry.waited now := by
  obtain ⟨verdict, settled⟩ := coherent.isSettled_of_isDone done
  obtain ⟨finish, finished⟩ := Option.isSome_iff_exists.mp settled.finished
  obtain ⟨sameStart, sameEnd⟩ := settled.moments_afterEach life
  simp only [waited, sameStart, sameEnd, finished]
  cases entry.started <;> rfl

/-- A running entry has been running since its start. -/
theorem Coherent.waited_of_running (coherent : entry.Coherent) (runs : entry.status = .running)
    {start : Instant} (started : entry.started = some start) (now : Instant) :
    entry.waited now = now.since start := by
  have noEnd := coherent.finished_of_unfinished (isDone_of_running runs)
  simp only [waited, started, noEnd]

/-- The time for which a search has run grows with the clock as long as it runs. -/
theorem IsTimed.waited_afterEach_of_running (timed : entry.IsTimed now) (coherent : entry.Coherent)
    (runs : entry.status = .running) {life : Life} {later : Instant} (goesOn : now ≤ later)
    (runsOn : (entry.afterEach life).status = .running) :
    ((entry.afterEach life).waited later).nanoseconds =
      (entry.waited now).nanoseconds + (later.since now).nanoseconds := by
  obtain ⟨start, started⟩ :=
    Option.isSome_iff_exists.mp (coherent.isSome_started_of_running runs)
  have startedThen : (entry.afterEach life).started = some start :=
    (coherent.started_afterEach_iff life start).mpr (.inl started)
  have begun := (timed.started start started).2
  rw [coherent.waited_of_running runs started,
    (coherent.afterEach life).waited_of_running runsOn startedThen]
  simp only [Instant.le_iff, Instant.nanoseconds_since] at begun goesOn ⊢
  omega

/-- An entry that is not finished for good has not gone unused. -/
theorem Coherent.unused_of_unfinished (coherent : entry.Coherent)
    (unfinished : entry.isDone = false) (now : Instant) : entry.unused now = .zero := by
  simp only [unused, coherent.finished_of_unfinished unfinished]

/-- An entry that is asked for now has not gone unused. -/
theorem unused_touch (now : Instant) (entry : Entry) : (entry.touch now).unused now = .zero := by
  simp only [unused, touch]
  split
  · simp only [Instant.since, Instant.latest, Duration.zero, Duration.mk.injEq]
    omega
  · rfl

/-- An entry that a timely life has led to. -/
def HasTimelyLife (entry : Entry) (now : Instant) : Prop :=
  ∃ id search created life, entry = (make id search created).afterEach life ∧
    life.IsTimely created created now

/-- What happens to an entry at one moment is a piece of its life. -/
theorem afterEach_map (now : Instant) (entry : Entry) (events : List EntryEvent) :
    entry.afterEach (events.map fun event => (now, event)) = entry.afterAll now events := by
  rw [afterEach, List.foldl_map]
  rfl

/-- A timely life may go on with several things at the reading of the clock. -/
theorem HasTimelyLife.afterAll (timely : entry.HasTimelyLife now) (events : List EntryEvent) :
    (entry.afterAll now events).HasTimelyLife now := by
  obtain ⟨id, search, created, life, rfl, lifeTimely⟩ := timely
  refine ⟨id, search, created, life ++ events.map fun event => (now, event), ?_, ?_⟩
  · rw [afterEach_append, afterEach_map]
  · exact lifeTimely.append (Life.isTimely_map lifeTimely.le events)

/-- Time may pass in which nothing happens to an entry. -/
theorem HasTimelyLife.of_le (timely : entry.HasTimelyLife clock) (goesOn : clock ≤ now) :
    entry.HasTimelyLife now := by
  obtain ⟨id, search, created, life, isLife, lifeTimely⟩ := timely
  have longer : (life ++ []).IsTimely created created now := lifeTimely.append goesOn
  rw [List.append_nil] at longer
  exact ⟨id, search, created, life, isLife, longer⟩

end Entry

namespace Store

variable {store : Store}

/-- The clock of a store does not go back. -/
theorem clock_le_clock_after (store : Store) (event : StoreEvent) :
    store.clock ≤ (store.after event).clock := by
  cases event with
  | pass duration => exact Nat.le_add_right ..
  | submit search =>
    refine Nat.le_of_eq (congrArg Instant.nanoseconds ?_)
    simp only [after]
    rcases store.submit_cases search with ⟨_, turnedAway⟩ | ⟨found, _, _, answered⟩ |
      ⟨_, _, ⟨refusal, refused⟩ | created⟩
    · rw [turnedAway]
    · rw [answered]
      rfl
    · rw [refused]
      exact store.admission_frame.1.symm
    · rw [created, addSearch]
      split <;> exact store.admission_frame.1.symm
  | sweep => exact Nat.le_of_eq (congrArg Instant.nanoseconds store.sweep_frame.1.symm)
  | clear cancelsRunning => cases cancelsRunning <;> exact Nat.le_refl _
  | overview =>
    simp only [after, overview]
    split <;> exact Nat.le_refl _
  | relist registrations =>
    simp only [after, relist]
    split <;> exact Nat.le_refl _
  | start | advance | cancel | trip | touch | score | remove | removeIndex | shutDown | addEntry
  | memory => exact Nat.le_refl _

/-- Every event goes on with the timely lives of the entries. -/
theorem hasTimelyLife_after (event : StoreEvent)
    (timely : ∀ entry ∈ store.entries, entry.HasTimelyLife store.clock) :
    ∀ entry ∈ (store.after event).entries, entry.HasTimelyLife (store.after event).clock := by
  intro entry member
  rw [entries_after, List.mem_append, List.mem_map] at member
  refine Entry.HasTimelyLife.of_le ?_ (store.clock_le_clock_after event)
  rcases member with ⟨before, beforeMember, rfl⟩ | isMade
  · exact (timely before beforeMember).afterAll _
  · rcases store.made_cases event with ⟨made, _⟩ | ⟨search, made, _⟩
    · simp [made] at isMade
    · rw [made, List.mem_singleton] at isMade
      exact ⟨store.nextId, search, store.clock, [], isMade, Nat.le_refl _⟩

/-- Every history goes on with the timely lives of the entries. -/
theorem hasTimelyLife_afterAll (history : List StoreEvent)
    (timely : ∀ entry ∈ store.entries, entry.HasTimelyLife store.clock) :
    ∀ entry ∈ (store.afterAll history).entries,
      entry.HasTimelyLife (store.afterAll history).clock := by
  induction history generalizing store with
  | nil => exact timely
  | cons event rest ih => exact ih (hasTimelyLife_after event timely)

/-- Every entry of a reachable store has had a timely life. -/
theorem Reachable.hasTimelyLife (reachable : store.Reachable) :
    ∀ entry ∈ store.entries, entry.HasTimelyLife store.clock := by
  obtain ⟨settings, policy, memory, initial, history, created, rfl⟩ := reachable
  refine hasTimelyLife_afterAll history ?_
  rw [eq_empty_of_create created]
  intro entry member
  cases member

end Store

namespace Entry

/-- The times that are read of an entry agree with its life if the clock never goes back. They fit
together, because its moments are in order. The time for which the search has run is that since its
start, and stands still from its end on. An entry has gone unused since its end and the last access,
whichever is later, and before its end it has not. The entries of a reachable store have had such
lives. -/
theorem times_agree (id : EntryId) (search : Search) {created now : Instant} {life : Life}
    (timely : life.IsTimely created created now) :
    let made := make id search created
    let entry := made.afterEach life
    let stats := entry.stats now
    (entry.IsTimed now ∧ stats.HasFittingTimes) ∧
    ((∀ start, ¬ made.StartsAt life start) → stats.waited = .zero) ∧
    (stats.status = .running →
      (∃ start, made.StartsAt life start ∧ stats.waited = now.since start) ∧
      ∀ rest later, rest.IsTimely created now later →
        ((entry.afterEach rest).stats later).status = .running →
          ((entry.afterEach rest).stats later).waited.nanoseconds =
            stats.waited.nanoseconds + (later.since now).nanoseconds) ∧
    (stats.isDone = true →
      (∀ start, made.StartsAt life start →
        ∃ finish, made.SettlesAt life finish ∧ stats.waited = finish.since start) ∧
      ∀ rest later, ((entry.afterEach rest).stats later).waited = stats.waited) ∧
    (stats.isDone = false → stats.unused = .zero) ∧
    (stats.isDone = true → ∃ finish, made.SettlesAt life finish ∧
      stats.unused = now.since (finish.latest (life.lastAccess created))) ∧
    ((entry.touch now).stats now).unused = .zero ∧
    ∀ store : Store, store.Reachable →
      ∀ entry ∈ store.entries, entry.HasTimelyLife store.clock := by
  intro made entry stats
  have madeCoherent : made.Coherent := coherent_make id search created
  have coherent : entry.Coherent := madeCoherent.afterEach life
  have timed : entry.IsTimed now :=
    (isTimed_make id search created).afterEach madeCoherent timely
  have startsAt : ∀ start, entry.started = some start ↔ made.StartsAt life start := by
    intro start
    rw [madeCoherent.started_afterEach_iff]
    exact or_iff_right (by simp [made, make])
  have settlesAt : ∀ finish, entry.finished = some finish ↔ made.SettlesAt life finish := by
    intro finish
    rw [madeCoherent.finished_afterEach_iff]
    exact or_iff_right (by simp [made, make])
  have ended : stats.isDone = true → ∃ finish, entry.finished = some finish := by
    intro done
    exact Option.isSome_iff_exists.mp (coherent.isSome_finished.trans done)
  refine ⟨⟨timed, timed.hasFittingTimes⟩, ?_, ?_, ?_, ?_, ?_, ?_, ?_⟩
  · intro never
    refine waited_of_unstarted (Option.eq_none_iff_forall_ne_some.mpr fun start isStart => ?_) now
    exact never start ((startsAt start).mp isStart)
  · intro runs
    obtain ⟨start, started⟩ :=
      Option.isSome_iff_exists.mp (coherent.isSome_started_of_running runs)
    refine ⟨⟨start, (startsAt start).mp started, coherent.waited_of_running runs started now⟩, ?_⟩
    intro rest later goesOn runsOn
    exact timed.waited_afterEach_of_running coherent runs goesOn.le runsOn
  · intro done
    refine ⟨fun start starts => ?_, fun rest later => ?_⟩
    · obtain ⟨finish, finished⟩ := ended done
      have started := (startsAt start).mpr starts
      refine ⟨finish, (settlesAt finish).mp finished, ?_⟩
      simp only [stats, Entry.stats, waited, started, finished]
    · exact coherent.waited_afterEach_of_isDone done rest later now
  · exact fun unfinished => coherent.unused_of_unfinished unfinished now
  · intro done
    obtain ⟨finish, finished⟩ := ended done
    refine ⟨finish, (settlesAt finish).mp finished, ?_⟩
    have accessed : entry.lastAccess = life.lastAccess created := made.lastAccess_afterEach life
    simp only [stats, Entry.stats, unused, finished, accessed]
  · exact unused_touch now entry
  · exact fun store reachable => reachable.hasTimelyLife

/-- The first half of a life, at whose end the search is being executed. -/
def firstHalf : Life := [(⟨20⟩, .start), (⟨25⟩, .advance), (⟨30⟩, .touch)]

/-- The second half, in which an access is recorded that is older than the end of the search, and
one that is newer. -/
def secondHalf : Life :=
  [(⟨35⟩, .advance), (⟨40⟩, .advance), (⟨45⟩, .advance), (⟨50⟩, .advance), (⟨48⟩, .touch),
    (⟨60⟩, .touch)]

theorem times_agree_in_halves :
    firstHalf.IsTimely ⟨10⟩ ⟨10⟩ ⟨30⟩ ∧ (firstHalf ++ secondHalf).IsTimely ⟨10⟩ ⟨10⟩ ⟨75⟩ ∧
      ((((make 1 shortSearch ⟨10⟩).afterEach firstHalf).stats ⟨30⟩).waited = ⟨10⟩ ∧
        (((make 1 shortSearch ⟨10⟩).afterEach firstHalf).stats ⟨34⟩).waited.nanoseconds =
          10 + 4) ∧
      let stats := ((make 1 shortSearch ⟨10⟩).afterEach (firstHalf ++ secondHalf)).stats ⟨75⟩
      stats.HasFittingTimes ∧ stats.waited = ⟨30⟩ ∧ stats.unused = ⟨15⟩ ∧
        ∃ finish, (make 1 shortSearch ⟨10⟩).SettlesAt (firstHalf ++ secondHalf) finish ∧
          stats.unused = Instant.since ⟨75⟩ (finish.latest ⟨60⟩) := by
  have halfTimely : firstHalf.IsTimely ⟨10⟩ ⟨10⟩ ⟨30⟩ := by decide
  have timely : (firstHalf ++ secondHalf).IsTimely ⟨10⟩ ⟨10⟩ ⟨75⟩ := by decide
  obtain ⟨_, _, running, _⟩ := times_agree 1 shortSearch halfTimely
  obtain ⟨⟨_, fitting⟩, _, _, _, _, unused, _⟩ := times_agree 1 shortSearch timely
  have grows := (running rfl).2 [] ⟨34⟩ (by decide) rfl
  exact ⟨halfTimely, timely, ⟨rfl, grows⟩, fitting, rfl, rfl, unused rfl⟩

end Entry

end SweptCache
