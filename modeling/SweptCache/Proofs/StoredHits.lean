import SweptCache.Proofs.Settling

/-!
# The stored hits of an entry

A search reports how many hits it stores, or adds to them. A report raises the
count or leaves it as it is, and so does the result in the end. An addition is
made within the word, so one that overflows takes a whole word off the sum
(`ScriptStep.toNat_storedAfter`), and then the count falls. Nothing else that
happens to an entry makes it fall (`Entry.storedHits_after_lt_iff`).

The tally of a script is what its steps would count without bounds. If it fits in
a word no addition overflows, whatever happens to the entry. If it does not, and
the script is one that runs to its end, then one does.
-/

namespace SweptCache

namespace ScriptStep

/-- Whether a step adds more hits than the word has room for beside those that are stored. -/
def overflows (stored : UInt64) : ScriptStep → Bool
  | .addHits hits => wordSize ≤ stored.toNat + hits.toNat
  | .reportHits _ | .checkpoint | .finish _ | .finishIfCancelled _ | .failIfCancelled _ | .fail _
  | .crash _ | .pause => false

/-- The hits that are counted after a step, in numbers without bounds. -/
def tallyAfter (tally : Nat) : ScriptStep → Nat
  | .reportHits hits => max tally hits.toNat
  | .addHits hits => tally + hits.toNat
  | .checkpoint | .finish _ | .finishIfCancelled _ | .failIfCancelled _ | .fail _ | .crash _
  | .pause => tally

/-- What is stored after a step is what is counted, less a word if the step overflows. -/
theorem toNat_storedAfter (stored : UInt64) (step : ScriptStep) :
    (step.storedAfter stored).toNat + (if step.overflows stored then wordSize else 0) =
      step.tallyAfter stored.toNat := by
  have isWord : wordSize = 2 ^ 64 := rfl
  cases step with
  | reportHits hits => exact UInt64.toNat_max stored hits
  | addHits hits =>
    have storedInWord := stored.toNat_lt
    have hitsInWord := hits.toNat_lt
    simp only [storedAfter, overflows, tallyAfter, UInt64.toNat_add, decide_eq_true_eq, isWord]
    split <;> omega
  | checkpoint | finish | finishIfCancelled | failIfCancelled | fail | crash | pause => rfl

/-- No step lowers the count in numbers without bounds. -/
theorem le_tallyAfter (tally : Nat) (step : ScriptStep) : tally ≤ step.tallyAfter tally := by
  cases step with
  | reportHits hits => exact Nat.le_max_left ..
  | addHits hits => exact Nat.le_add_right ..
  | checkpoint | finish | finishIfCancelled | failIfCancelled | fail | crash | pause =>
    exact Nat.le_refl _

/-- A step stores fewer hits than before exactly if it overflows. -/
theorem storedAfter_lt_iff (stored : UInt64) (step : ScriptStep) :
    step.storedAfter stored < stored ↔ step.overflows stored = true := by
  have counted := step.toNat_storedAfter stored
  have grows := step.le_tallyAfter stored.toNat
  have storedInWord := stored.toNat_lt
  rw [UInt64.lt_iff_toNat_lt]
  cases overflows : step.overflows stored with
  | false =>
    simp only [overflows, Bool.false_eq_true, if_false, Nat.add_zero, iff_false] at counted ⊢
    omega
  | true =>
    cases step with
    | addHits hits =>
      have hitsInWord := hits.toNat_lt
      have isWord : wordSize = 2 ^ 64 := rfl
      simp only [overflows, if_true, tallyAfter, iff_true] at counted ⊢
      omega
    | reportHits | checkpoint | finish | finishIfCancelled | failIfCancelled | fail | crash
    | pause => cases overflows

end ScriptStep

/-- What the steps of a script count, in numbers without bounds. -/
def tallyOf (tally : Nat) (script : List ScriptStep) : Nat :=
  script.foldl ScriptStep.tallyAfter tally

/-- No script lowers the count in numbers without bounds. -/
theorem le_tallyOf (tally : Nat) (script : List ScriptStep) : tally ≤ tallyOf tally script := by
  induction script generalizing tally with
  | nil => exact Nat.le_refl _
  | cons step rest ih => exact (step.le_tallyAfter tally).trans (ih _)

/-- A script that counts no more than a word holds does not overflow with its first step, and what
is left of it counts as much from what is then stored. -/
theorem tallyOf_cons_fits {stored : UInt64} {step : ScriptStep} {rest : List ScriptStep}
    (fits : tallyOf stored.toNat (step :: rest) < wordSize) :
    step.overflows stored = false ∧
      tallyOf (step.storedAfter stored).toNat rest = tallyOf stored.toNat (step :: rest) := by
  have counted := step.toNat_storedAfter stored
  have grows := le_tallyOf (step.tallyAfter stored.toNat) rest
  cases overflows : step.overflows stored with
  | false =>
    rw [overflows, if_neg (by simp), Nat.add_zero] at counted
    exact ⟨rfl, by rw [counted]; rfl⟩
  | true =>
    rw [overflows, if_pos rfl] at counted
    change tallyOf (step.tallyAfter stored.toNat) rest < wordSize at fits
    omega

namespace Search

/-- What the script of a search counts, in numbers without bounds. -/
def tally (search : Search) : Nat := tallyOf 0 search.script

/-- Whether the script runs to its end unless somebody asks the search to stop. -/
def runsThrough (search : Search) : Bool :=
  search.script.all fun step => (step.ending? false).isNone

end Search

namespace Entry

variable {entry : Entry} {now : Instant}

/-- Whether the next step of the worker adds more hits than the word has room for. -/
def overflowsNext (entry : Entry) : Bool :=
  match entry.worker with
  | some (.executing (step :: _)) => step.overflows entry.storedHits
  | _ => false

/-- Judging an ending stores no fewer hits than before. -/
theorem le_finalHits (stored : UInt64) (ending : Ending) : stored ≤ ending.finalHits stored := by
  cases ending with
  | result output =>
    rw [UInt64.le_iff_toNat_le, Ending.finalHits, UInt64.toNat_max]
    exact Nat.le_max_left ..
  | error | crash => exact UInt64.le_refl stored

/-- Only the worker stores hits. -/
theorem storedHits_after_of_ne (now : Instant) (entry : Entry) {event : EntryEvent}
    (other : event ≠ .advance) : (entry.after now event).storedHits = entry.storedHits := by
  cases event with
  | start => simp only [after, start]; split <;> rfl
  | cancel => simp only [after, cancel]; split <;> rfl
  | trip => simp only [after, trip]; split <;> rfl
  | touch | remember => rfl
  | advance => exact absurd rfl other

/-- An entry has fewer hits after an event exactly if the event is a step of its worker that
overflows. -/
theorem storedHits_after_lt_iff (now : Instant) (entry : Entry) (event : EntryEvent) :
    (entry.after now event).storedHits < entry.storedHits ↔
      event = .advance ∧ entry.overflowsNext = true := by
  by_cases isStep : event = .advance
  · subst isStep
    cases working : entry.worker with
    | none => simp [after, advance, overflowsNext, working]
    | some stage =>
      cases stage with
      | executing remaining =>
        cases remaining with
        | nil => simp [after, advance, overflowsNext, working]
        | cons step rest =>
          simpa [after, advance, overflowsNext, working, perform_eq] using
            step.storedAfter_lt_iff entry.storedHits
      | judging ending =>
        simpa [after, advance, overflowsNext, working, judge_eq] using
          le_finalHits entry.storedHits ending
      | launched | returned | settling => simp [after, advance, overflowsNext, working]
  · simp [storedHits_after_of_ne now entry isStep, isStep]

/-- The worker overflows with its next step if that adds more hits than the word has room for. -/
theorem overflowsNext_iff :
    entry.overflowsNext = true ↔ ∃ hits rest,
      entry.worker = some (.executing (.addHits hits :: rest)) ∧
        wordSize ≤ entry.storedHits.toNat + hits.toNat := by
  cases working : entry.worker with
  | none => simp [overflowsNext, working]
  | some stage =>
    cases stage with
    | executing remaining =>
      cases remaining with
      | nil => simp [overflowsNext, working]
      | cons step rest => cases step <;> simp [overflowsNext, working, ScriptStep.overflows]
    | launched | returned | judging | settling => simp [overflowsNext, working]

/-- An addition that overflows leaves the sum less a word. -/
theorem toNat_storedHits_of_overflow (now : Instant) {hits : UInt64} {rest : List ScriptStep}
    (working : entry.worker = some (.executing (.addHits hits :: rest)))
    (overflows : wordSize ≤ entry.storedHits.toNat + hits.toNat) :
    (entry.after now .advance).storedHits.toNat + wordSize =
      entry.storedHits.toNat + hits.toNat := by
  have counted := (ScriptStep.addHits hits).toNat_storedAfter entry.storedHits
  simp only [ScriptStep.overflows, overflows, decide_true, if_true] at counted
  simp only [after, advance, working, perform_eq]
  exact counted

/-- No addition of the worker overflows in the course of a life. -/
def AddsWithinWord (entry : Entry) (life : Life) : Prop :=
  ∀ earlier now later, life = earlier ++ (now, .advance) :: later →
    (entry.afterEach earlier).overflowsNext = false

/-- The hits of an entry do not fall as long as no addition overflows. -/
theorem AddsWithinWord.storedHits_le {life : Life} (within : entry.AddsWithinWord life) :
    entry.storedHits ≤ (entry.afterEach life).storedHits := by
  induction life generalizing entry with
  | nil => exact UInt64.le_refl _
  | cons moment rest ih =>
    obtain ⟨now, event⟩ := moment
    have later : (entry.after now event).AddsWithinWord rest := fun earlier now' later isRest =>
      within ((now, event) :: earlier) now' later (by rw [isRest]; rfl)
    have notFallen : ¬ (entry.after now event).storedHits < entry.storedHits := by
      rw [storedHits_after_lt_iff]
      rintro ⟨rfl, overflows⟩
      have fits : entry.overflowsNext = false := within [] now rest rfl
      rw [fits] at overflows
      cases overflows
    exact UInt64.le_trans (UInt64.not_lt.mp notFallen) (ih later)

/-- The steps of the script that may still be performed. -/
def scriptAhead (entry : Entry) : List ScriptStep :=
  match entry.slot, entry.worker with
  | .pending, _ | .running, some .launched => entry.search.script
  | .running, some (.executing remaining) => remaining
  | .running, _ | .settled _, _ => []

/-- An entry whose script counts no more than a word holds from here on. -/
def HasRoomAhead (entry : Entry) : Prop :=
  tallyOf entry.storedHits.toNat entry.scriptAhead < wordSize

/-- An entry with no more of its script to perform has room. -/
theorem hasRoomAhead_of_nil (none : entry.scriptAhead = []) : entry.HasRoomAhead := by
  rw [HasRoomAhead, none]
  exact entry.storedHits.toNat_lt

/-- An entry with room does not overflow with the next step of its worker. -/
theorem HasRoomAhead.overflowsNext_eq (room : entry.HasRoomAhead) (coherent : entry.Coherent) :
    entry.overflowsNext = false := by
  cases coherent with
  | pending pending => simp [overflowsNext, pending.worker]
  | settled verdict settled => simp [overflowsNext, settled.worker]
  | running stage running =>
    cases stage with
    | executing remaining =>
      cases remaining with
      | nil => simp [overflowsNext, running.worker]
      | cons step rest =>
        simp only [HasRoomAhead, scriptAhead, running.slot, running.worker] at room
        simpa only [overflowsNext, running.worker] using (tallyOf_cons_fits room).1
    | launched | returned | judging | settling => simp [overflowsNext, running.worker]

/-- A step of the worker leaves an entry the room that it has. -/
theorem HasRoomAhead.advance (room : entry.HasRoomAhead) {stage : Worker}
    (running : entry.IsRunning stage) : (entry.advance now).HasRoomAhead := by
  cases stage with
  | launched =>
    simp only [HasRoomAhead, scriptAhead, running.slot, running.worker, Entry.advance] at room ⊢
    exact room
  | executing remaining =>
    cases remaining with
    | nil =>
      refine hasRoomAhead_of_nil ?_
      simp only [scriptAhead, running.slot, running.worker, Entry.advance]
    | cons step rest =>
      simp only [HasRoomAhead, scriptAhead, running.slot, running.worker] at room
      simp only [Entry.advance, running.worker, perform_eq]
      cases step.ending? entry.cancelRequested with
      | some ending => exact hasRoomAhead_of_nil (by simp only [scriptAhead, running.slot])
      | none =>
        simp only [HasRoomAhead, scriptAhead, running.slot, (tallyOf_cons_fits room).2]
        exact room
  | returned | judging | settling =>
    refine hasRoomAhead_of_nil ?_
    simp only [scriptAhead, running.slot, running.worker, Entry.advance, judge_eq]

/-- Whatever happens to an entry leaves it the room that it has. -/
theorem HasRoomAhead.after (room : entry.HasRoomAhead) (coherent : entry.Coherent)
    (event : EntryEvent) : (entry.after now event).HasRoomAhead := by
  cases coherent with
  | pending pending =>
    cases event with
    | start =>
      simp only [HasRoomAhead, scriptAhead, pending.slot, Entry.after, Entry.start] at room ⊢
      exact room
    | cancel =>
      refine hasRoomAhead_of_nil ?_
      simp only [Entry.after, Entry.cancel, pending.slot, scriptAhead]
    | advance =>
      rw [Entry.after, Coherent.advance_of_no_worker pending.worker]
      exact room
    | trip =>
      rw [Entry.after, pending.trip_eq]
      exact room
    | touch | remember => exact room
  | settled verdict settled =>
    obtain ⟨_, _, _, becomes, _⟩ := settled.after_eq now event
    refine hasRoomAhead_of_nil ?_
    simp only [becomes, scriptAhead, settled.slot]
  | running stage running =>
    cases event with
    | start =>
      simp only [Entry.after, Entry.start, running.slot]
      exact room
    | cancel =>
      simp only [HasRoomAhead, scriptAhead, running.slot, Entry.after, Entry.cancel] at room ⊢
      exact room
    | trip =>
      simp only [HasRoomAhead, scriptAhead, running.slot, Entry.after, Entry.trip] at room ⊢
      exact room
    | touch | remember => exact room
    | advance => exact room.advance running

/-- An entry keeps the room that it has in the course of any life. -/
theorem HasRoomAhead.afterEach (room : entry.HasRoomAhead) (coherent : entry.Coherent)
    (life : Life) : (entry.afterEach life).HasRoomAhead := by
  induction life generalizing entry with
  | nil => exact room
  | cons moment rest ih => exact ih (room.after coherent moment.2) (coherent.after moment.2)

/-- An entry with room adds within the word in the course of any life. -/
theorem HasRoomAhead.addsWithinWord (room : entry.HasRoomAhead) (coherent : entry.Coherent)
    (life : Life) : entry.AddsWithinWord life := fun earlier _ _ _ =>
  (room.afterEach coherent earlier).overflowsNext_eq (coherent.afterEach earlier)

/-- An entry is made with room if its search counts no more than a word holds. -/
theorem hasRoomAhead_make (id : EntryId) {search : Search} (created : Instant)
    (fits : search.tally < wordSize) : (make id search created).HasRoomAhead := fits

/-- A worker that is left to perform the rest of a script that counts more than a word holds
comes to an addition that overflows, if nothing ends the script before. -/
theorem IsRunning.exists_overflowsNext {remaining : List ScriptStep}
    (running : entry.IsRunning (.executing remaining)) (unasked : entry.cancelRequested = false)
    (through : ∀ step ∈ remaining, step.ending? false = none)
    (full : wordSize ≤ tallyOf entry.storedHits.toNat remaining) :
    ∃ life : Life, (entry.afterEach life).overflowsNext = true := by
  induction remaining generalizing entry with
  | nil => exact absurd entry.storedHits.toNat_lt (Nat.not_lt.mpr full)
  | cons step rest ih =>
    have counted := step.toNat_storedAfter entry.storedHits
    cases overflows : step.overflows entry.storedHits with
    | true => exact ⟨[], by simpa [overflowsNext, running.worker] using overflows⟩
    | false =>
      rw [overflows, if_neg (by simp), Nat.add_zero] at counted
      have goesOn : step.ending? entry.cancelRequested = none := by
        rw [unasked]
        exact through step (.head _)
      have performed : entry.advance .start = { entry with
          storedHits := step.storedAfter entry.storedHits, worker := some (.executing rest) } := by
        simp only [advance, running.worker, perform_eq, goesOn]
      have runs : (entry.advance .start).IsRunning (.executing rest) := by
        refine (Coherent.running _ running).advance.isRunning_of_worker ?_
        rw [performed]
      obtain ⟨life, reached⟩ := ih runs (by rw [performed]; exact unasked)
        (fun later member => through later (.tail _ member))
        (by rw [performed, counted]; exact full)
      exact ⟨(.start, .advance) :: life, reached⟩

/-- The hits of an entry fall at some time in some life if its search counts more than a word
holds and runs to its end. -/
theorem exists_fall (id : EntryId) {search : Search} (created : Instant)
    (through : search.runsThrough = true) (full : wordSize ≤ search.tally) :
    ∃ earlier later, ((make id search created).afterEach (earlier ++ later)).storedHits <
      ((make id search created).afterEach earlier).storedHits := by
  let launched : Life := [(created, .start), (created, .advance)]
  have runs : ((make id search created).afterEach launched).IsRunning
      (.executing search.script) :=
    ((coherent_make id search created).afterEach launched).isRunning_of_worker rfl
  obtain ⟨life, overflows⟩ := runs.exists_overflowsNext rfl
    (by simpa [Search.runsThrough] using through) full
  refine ⟨launched ++ life, [(created, .advance)], ?_⟩
  rw [afterEach_append, afterEach_append]
  exact (storedHits_after_lt_iff created _ .advance).mpr ⟨rfl, overflows⟩

/-- The hits of an entry fall when its worker adds more of them than the word has room for, and at
no other time; what is left then is the sum less a word. So they never fall while no addition
overflows, and the estimated size does not either. None does, whatever happens to the entry, if what
its search reports and adds comes to no more than a word holds; and of a search that runs to its
end unless it is asked to stop, only then. -/
theorem hits_fall_when_additions_overflow (id : EntryId) (search : Search) (created : Instant) :
    (∀ life now event,
      let entry := (make id search created).afterEach life
      (entry.after now event).storedHits < entry.storedHits ↔
        event = .advance ∧ ∃ hits rest,
          entry.worker = some (.executing (.addHits hits :: rest)) ∧
          wordSize ≤ entry.storedHits.toNat + hits.toNat ∧
          (entry.after now event).storedHits.toNat + wordSize =
            entry.storedHits.toNat + hits.toNat) ∧
    (∀ earlier later, ((make id search created).afterEach earlier).AddsWithinWord later →
      ((make id search created).afterEach earlier).storedHits ≤
          ((make id search created).afterEach (earlier ++ later)).storedHits ∧
        ((make id search created).afterEach earlier).exactSize ≤
          ((make id search created).afterEach (earlier ++ later)).exactSize) ∧
    (search.tally < wordSize → ∀ earlier later,
      ((make id search created).afterEach earlier).AddsWithinWord later) ∧
    (search.runsThrough = true →
      ((∀ earlier later, ((make id search created).afterEach earlier).storedHits ≤
          ((make id search created).afterEach (earlier ++ later)).storedHits) ↔
        search.tally < wordSize)) := by
  have within : search.tally < wordSize → ∀ earlier later,
      ((make id search created).afterEach earlier).AddsWithinWord later := by
    intro fits earlier later
    have coherent := coherent_make id search created
    have room := (hasRoomAhead_make id created fits).afterEach coherent earlier
    exact room.addsWithinWord (coherent.afterEach earlier) later
  refine ⟨?_, ?_, within, ?_⟩
  · intro life now event
    simp only [storedHits_after_lt_iff, overflowsNext_iff]
    refine and_congr_right fun isStep => ?_
    subst isStep
    refine exists_congr fun hits => exists_congr fun rest => and_congr_right fun working => ?_
    exact (and_iff_left_of_imp (toNat_storedHits_of_overflow now working)).symm
  · intro earlier later within
    rw [afterEach_append]
    have grows := within.storedHits_le
    exact ⟨grows, Nat.mul_le_mul_right _ (UInt64.le_iff_toNat_le.mp grows)⟩
  · intro through
    constructor
    · intro grows
      by_contra full
      obtain ⟨earlier, later, falls⟩ := exists_fall id created through (Nat.not_lt.mp full)
      exact absurd (grows earlier later) (UInt64.not_le.mpr falls)
    · intro fits earlier later
      rw [afterEach_append]
      exact (within fits earlier later).storedHits_le

/-- A search that reports hits, lets others go on, and adds as many as the word has room for. -/
def brimmingSearch : Search where
  key := ⟨"brown", "", false⟩
  cacheable := true
  hits := 0
  script := [.reportHits 18446744073709551605, .pause, .addHits 10]

theorem hits_fall_when_additions_overflow_but_not_in_brimming :
    brimmingSearch.tally < wordSize ∧ brimmingSearch.runsThrough = true ∧
      (∀ earlier later,
        ((make 1 brimmingSearch .start).afterEach earlier).AddsWithinWord later ∧
        ((make 1 brimmingSearch .start).afterEach earlier).exactSize ≤
          ((make 1 brimmingSearch .start).afterEach (earlier ++ later)).exactSize ∧
        ((make 1 brimmingSearch .start).afterEach earlier).storedHits ≤
          ((make 1 brimmingSearch .start).afterEach (earlier ++ later)).storedHits) := by
  have fits : brimmingSearch.tally < wordSize := by decide
  have through : brimmingSearch.runsThrough = true := rfl
  obtain ⟨_, grows, within, onlyThen⟩ := hits_fall_when_additions_overflow 1 brimmingSearch .start
  refine ⟨fits, through, fun earlier later => ⟨within fits earlier later, ?_, ?_⟩⟩
  · exact (grows earlier later (within fits earlier later)).2
  · exact (onlyThen through).mpr fits earlier later

/-- A search that adds ten hits, lets others go on, and adds as many as a word holds. -/
def wrappingSearch : Search where
  key := ⟨"brown", "", false⟩
  cacheable := false
  hits := 0
  script := [.addHits 10, .pause, .addHits 18446744073709551615, .pause]

/-- A life in which the worker has come to the first pause of the search. -/
def untilPause : Life := [(.start, .start), (.start, .advance), (.start, .advance)]

/-- The steps of the worker from the first pause to the second one. -/
def fromPause : Life := [(.start, .advance), (.start, .advance)]

/-- A running search has fewer hits than before, and is taken to be smaller. -/
theorem hits_fall_in_wrapping :
    ((make 1 wrappingSearch .start).afterEach untilPause).status = .running ∧
      ((make 1 wrappingSearch .start).afterEach untilPause).storedHits = 10 ∧
      ((make 1 wrappingSearch .start).afterEach untilPause).exactSize = 240 ∧
      ((make 1 wrappingSearch .start).afterEach (untilPause ++ fromPause)).status = .running ∧
      ((make 1 wrappingSearch .start).afterEach (untilPause ++ fromPause)).storedHits = 9 ∧
      ((make 1 wrappingSearch .start).afterEach (untilPause ++ fromPause)).exactSize = 216 :=
  ⟨rfl, rfl, rfl, rfl, rfl, rfl⟩

end Entry

end SweptCache
