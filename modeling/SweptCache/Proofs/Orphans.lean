import Mathlib.Data.List.Induction
import SweptCache.Proofs.Departures

/-!
# No orphaned searches

A search that was once registered is still registered, or done, or asked to
stop, or it left the cache gently. So no search goes on that the cache has
forgotten, apart from those that it was told to let go. These, in turn, the
cache never asks to stop later on, and neither does it ask any search that it
keeps: if such a search is asked, then by its clients, or by itself with the
token that it was handed.
-/

namespace SweptCache.Store

/-- An entry left the cache gently in the course of a history. -/
def LeftGently (initial : Store) (history : List StoreEvent) (id : EntryId) : Prop :=
  ∃ earlier event later, history = earlier ++ event :: later ∧ event.isGentle = true ∧
    (initial.afterAll earlier).Leaves event id

variable {store : Store}

/-- What left gently in a history did so in any longer one. -/
theorem LeftGently.append {initial : Store} {history : List StoreEvent} {id : EntryId}
    (left : LeftGently initial history id) (event : StoreEvent) :
    LeftGently initial (history ++ [event]) id := by
  obtain ⟨earlier, gentle, later, rfl, isGentle, leaves⟩ := left
  exact ⟨earlier, gentle, later ++ [event], by simp, isGentle, leaves⟩

/-- A search that was once registered is accounted for ever after. -/
theorem WellFormed.accounted_for (wellFormed : store.WellFormed) {id : EntryId}
    (history : List StoreEvent) :
    ∀ earlier later, history = earlier ++ later → id ∈ (store.afterAll earlier).registeredIds →
      ∃ entry, (store.afterAll history).find? id = some entry ∧
        (id ∈ (store.afterAll history).registeredIds ∨ entry.searchDone = true ∨
          entry.cancelRequested = true ∨ LeftGently store history id) := by
  -- The induction is on the end of the history: only its last event can take the entry
  -- out of the cache for which the rest of the history still had it registered.
  induction history using List.reverseRecOn with
  | nil =>
    intro earlier later split registered
    obtain ⟨rfl, rfl⟩ := List.append_eq_nil_iff.mp split.symm
    obtain ⟨entry, found⟩ := wellFormed.find?_of_registered registered
    exact ⟨entry, found, .inl registered⟩
  | append_singleton history event ih =>
    intro earlier later split registered
    have wellFormedBefore := wellFormed.afterAll history
    by_cases stays : id ∈ (store.afterAll (history ++ [event])).registeredIds
    · obtain ⟨entry, found⟩ := (wellFormed.afterAll (history ++ [event])).find?_of_registered stays
      exact ⟨entry, found, .inl stays⟩
    · have before : ∃ shorter, history = earlier ++ shorter := by
        rcases List.eq_nil_or_concat later with rfl | ⟨shorter, last, rfl⟩
        · rw [List.append_nil] at split
          exact absurd (split ▸ registered) stays
        · rw [List.concat_eq_append, ← List.append_assoc] at split
          exact ⟨shorter, (List.append_inj' split rfl).1⟩
      obtain ⟨shorter, isSplit⟩ := before
      obtain ⟨entry, found, account⟩ := ih earlier shorter isSplit registered
      have foundAfter := wellFormedBefore.find?_after found event
      simp only [afterAll_append, afterAll_cons, afterAll_nil] at stays ⊢
      refine ⟨_, foundAfter, .inr ?_⟩
      rcases account with registeredBefore | done | requested | gently
      · cases gentle : event.isGentle with
        | true =>
          exact .inr (.inr ⟨history, event, [], rfl, gentle, registeredBefore, stays⟩)
        | false =>
          rcases wellFormedBefore.stopped_of_leaves found ⟨registeredBefore, stays⟩ gentle with
            done | requested
          · exact .inl done
          · exact .inr (.inl requested)
      · exact .inl (Entry.searchDone_afterAll _ _ _ done)
      · exact .inr (.inl (Entry.cancelRequested_afterAll _ _ _ requested))
      · exact .inr (.inr (gently.append event))

/-- An entry that is not registered is asked to stop by its clients, by its own search or not at
all. -/
theorem WellFormed.requested_from_outside (wellFormed : store.WellFormed) {id : EntryId}
    {before after : Entry} (foundBefore : store.find? id = some before)
    (unregistered : id ∉ store.registeredIds) (history : List StoreEvent)
    (foundAfter : (store.afterAll history).find? id = some after)
    (asked : after.cancelRequested = true) :
    before.cancelRequested = true ∨ .cancel id ∈ history ∨ .trip id ∈ history := by
  induction history generalizing store before with
  | nil =>
    rw [afterAll_nil, foundBefore, Option.some.injEq] at foundAfter
    exact .inl (foundAfter ▸ asked)
  | cons event rest ih =>
    have foundNext := wellFormed.find?_after foundBefore event
    have unregisteredNext :=
      wellFormed.notMem_registeredIds_afterAll foundBefore unregistered [event]
    rcases ih (wellFormed.after event) foundNext unregisteredNext foundAfter with
      asked | byClient | bySearch
    · cases askedBefore : before.cancelRequested with
      | true => exact .inl rfl
      | false =>
        rcases wellFormed.leaves_of_requested foundBefore foundNext askedBefore asked with
          isCancel | isTrip | leaves
        · exact .inr (.inl (isCancel ▸ List.mem_cons_self))
        · exact .inr (.inr (isTrip ▸ List.mem_cons_self))
        · exact absurd leaves.1 unregistered
    · exact .inr (.inl (List.mem_cons_of_mem _ byClient))
    · exact .inr (.inr (List.mem_cons_of_mem _ bySearch))

/-- A search that trips its own token is asked to stop and stays registered, with no client's
doing. -/
example : ∃ entry,
    (freshStore.afterAll [.submit (plainSearch "own"), .start 1, .trip 1]).find? 1 = some entry ∧
      entry.cancelRequested = true ∧
      1 ∈ (freshStore.afterAll [.submit (plainSearch "own"), .start 1, .trip 1]).registeredIds :=
  ⟨_, rfl, rfl, by decide⟩

end SweptCache.Store
