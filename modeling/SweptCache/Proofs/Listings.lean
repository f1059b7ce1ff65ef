import Mathlib.Data.List.Forall2
import Mathlib.Data.List.Pairwise
import SweptCache.Proofs.SweepEffects

/-!
# Snapshots and listings

A snapshot can be taken of an entry whose size fits in a word, and of no other.
Snapshots of several entries are taken of each of them in turn, so they show the
numbers and the sizes of the entries in the same order, or there are none
because one of the entries is too large.

The listing of a cache goes through its registered entries in the order of
their numbers, and comes to each of them once.
-/

namespace SweptCache

namespace Snapshot

variable {now : Instant} {isDetailed : Bool}

/-- A snapshot shows its entry. -/
structure Shows (snapshot : Snapshot) (entry : Entry) : Prop where
  id : snapshot.id = entry.id
  status : snapshot.status = entry.status
  sizeBytes : snapshot.sizeBytes = entry.exactSize

/-- A snapshot that could be taken shows its entry. -/
theorem shows_of_capture {entry : Entry} {snapshot : Snapshot}
    (captured : capture now isDetailed entry = .ok snapshot) : snapshot.Shows entry := by
  simp only [capture, Stats.sizeBytes, sizeOfHits] at captured
  split at captured
  next => cases captured
  next sizeBytes fits =>
    split at fits
    next =>
      injection fits with isSize
      injection captured with isSnapshot
      subst isSnapshot
      exact ⟨rfl, rfl, isSize.symm⟩
    next => cases fits

/-- Snapshots that could be taken show their entries, one after the other. -/
theorem forall₂_captureAll {entries : List Entry} {snapshots : List Snapshot}
    (captured : captureAll now isDetailed entries = .ok snapshots) :
    List.Forall₂ Shows snapshots entries := by
  induction entries generalizing snapshots with
  | nil =>
    injection captured with isNil
    exact isNil ▸ .nil
  | cons entry rest ih =>
    rw [captureAll] at captured
    split at captured
    next => cases captured
    next snapshot isFirst =>
      split at captured
      next => cases captured
      next others areRest =>
        injection captured with isCons
        exact isCons ▸ .cons (shows_of_capture isFirst) (ih areRest)

/-- What a snapshot shows of its entry, snapshots show of all their entries. -/
theorem map_captureAll {α : Type} {shown : Snapshot → α} {held : Entry → α}
    (same : ∀ {snapshot entry}, Shows snapshot entry → shown snapshot = held entry)
    {entries : List Entry} {snapshots : List Snapshot}
    (captured : captureAll now isDetailed entries = .ok snapshots) :
    snapshots.map shown = entries.map held := by
  rw [← List.forall₂_eq_eq_eq, List.forall₂_map_left_iff, List.forall₂_map_right_iff]
  exact (forall₂_captureAll captured).imp fun _ _ shows => same shows

/-- No snapshots are taken when one of the entries is too large. -/
theorem captureAll_eq_error {entries : List Entry}
    (tooLarge : ∃ entry ∈ entries, wordSize ≤ entry.exactSize) :
    captureAll now isDetailed entries = .error .multiplication := by
  induction entries with
  | nil => simp at tooLarge
  | cons entry rest ih =>
    rw [captureAll, capture, Stats.sizeBytes, sizeOfHits]
    by_cases fits : SweptCache.exactSize (entry.stats now).storedHits < wordSize
    · have later : ∃ other ∈ rest, wordSize ≤ other.exactSize := by
        obtain ⟨other, member, large⟩ := tooLarge
        obtain rfl | inRest := List.mem_cons.mp member
        · exact absurd fits (Nat.not_lt.mpr large)
        · exact ⟨other, inRest, large⟩
      simp only [if_pos fits, ih later]
    · simp only [if_neg fits]

end Snapshot

namespace Store

variable {store : Store}

/-- The registered entries in the order of their numbers. -/
def listing (store : Store) : List Entry :=
  store.registeredEntries.mergeSort fun first second => first.id ≤ second.id

theorem contents_eq_captureAll (store : Store) (isDetailed : Bool) :
    store.contents isDetailed = Snapshot.captureAll store.clock isDetailed store.listing := rfl

/-- A listing comes to every registered entry once. -/
theorem listing_perm (store : Store) : store.listing.Perm store.registeredEntries :=
  List.mergeSort_perm _ _

/-- A listing goes from the lower numbers to the higher ones. -/
theorem WellFormed.pairwise_listing (wellFormed : store.WellFormed) :
    (store.listing.map (·.id)).Pairwise (· < ·) := by
  have sorted : (store.listing.map (·.id)).Pairwise (· ≤ ·) := by
    rw [List.pairwise_map]
    refine (List.pairwise_mergeSort ?_ ?_ store.registeredEntries).imp of_decide_eq_true
    · intro first second third before after
      exact decide_eq_true (Nat.le_trans (of_decide_eq_true before) (of_decide_eq_true after))
    · intro first second
      simpa using Nat.le_total first.id second.id
  have distinct : (store.listing.map (·.id)).Nodup := by
    rw [(store.listing_perm.map (·.id)).nodup_iff, wellFormed.ids_registeredEntries]
    exact wellFormed.nodup_registeredIds
  exact (sorted.and distinct).imp fun both => Nat.lt_of_le_of_ne both.1 both.2

/-- A cache whose entries fit in a word one by one lists them all, and no other does. -/
theorem contents_cases (store : Store) (isDetailed : Bool) :
    (∃ snapshots, store.contents isDetailed = .ok snapshots ∧
      snapshots.map (·.id) = store.listing.map (·.id) ∧
      snapshots.map (·.sizeBytes) = store.listing.map Entry.exactSize) ∨
    (store.contents isDetailed = .error .multiplication ∧
      ∃ entry ∈ store.registeredEntries, wordSize ≤ entry.exactSize) := by
  rw [contents_eq_captureAll]
  by_cases fit : ∀ entry ∈ store.listing, entry.exactSize < wordSize
  · obtain ⟨snapshots, captured⟩ := Snapshot.captureAll_eq_ok store.clock isDetailed fit
    exact .inl ⟨snapshots, captured, Snapshot.map_captureAll (·.id) captured,
      Snapshot.map_captureAll (·.sizeBytes) captured⟩
  · simp only [not_forall, Nat.not_lt] at fit
    obtain ⟨entry, member, large⟩ := fit
    exact .inr ⟨Snapshot.captureAll_eq_error ⟨entry, member, large⟩, entry,
      store.listing_perm.mem_iff.mp member, large⟩

/-- A cache whose entries fit in a word together lists them all, with their sizes. -/
theorem contents_of_fits {store : Store} (wellFormed : store.WellFormed)
    (fits : (store.registeredEntries.map Entry.exactSize).sum < wordSize) (isDetailed : Bool) :
    ∃ snapshots, store.contents isDetailed = .ok snapshots ∧ snapshots.length = store.size ∧
      (snapshots.map (·.sizeBytes)).sum = (store.registeredEntries.map Entry.exactSize).sum := by
  rcases store.contents_cases isDetailed with ⟨snapshots, listed, ids, sizes⟩ | ⟨_, tooLarge⟩
  · refine ⟨snapshots, listed, ?_, ?_⟩
    · have sameLength := congrArg List.length ids
      rw [List.length_map, List.length_map] at sameLength
      rw [sameLength, store.listing_perm.length_eq, wellFormed.size_eq]
    · rw [sizes]
      exact (store.listing_perm.map Entry.exactSize).sum_eq
  · obtain ⟨entry, registered, large⟩ := tooLarge
    have below : entry.exactSize ≤ (store.registeredEntries.map Entry.exactSize).sum :=
      List.le_sum_of_mem (List.mem_map_of_mem registered)
    omega

end Store

end SweptCache
