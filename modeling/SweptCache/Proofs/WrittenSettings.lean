import SweptCache.Proofs.ReadSettings

/-!
# Settings as texts

Written settings are an object that gives every option its value, an absent
limit included, so nothing of the standard settings shows through when they are
read again (`ofText_render`). What is read is usable, and what is usable is read
back as it was written.
-/

namespace SweptCache

open SweptCache.Json

namespace Json

/-- Assignments as members: every option with its value. -/
def membersOf (assignments : List Assignment) : List Member :=
  assignments.map fun assignment => ⟨assignment.option.name.toList, assignment.written⟩

/-- Written assignments are the members of an object. -/
theorem areMembers_writeMembers {assignments : List Assignment} (present : assignments ≠ []) :
    AreMembers (membersOf assignments) (writeMembers (assignments.map fun assignment =>
      (assignment.option.name, assignment.valueToJson))) := by
  induction assignments with
  | nil => exact absurd rfl present
  | cons assignment assignments ih =>
    have isName := isNameOf_quote assignment.option.name
    have isValue := isText_written assignment
    cases assignments with
    | nil =>
      simpa [writeMembers, membersOf, Assignment.written] using
        AreMembers.last isName isBlanks_nil isValue isBlanks_nil
    | cons next assignments =>
      have areMembers := AreMembers.more isName isBlanks_nil isValue isBlanks_nil
        (ih (List.cons_ne_nil _ _))
      simpa [writeMembers, membersOf, Assignment.written] using areMembers

end Json

/-- Assignments are what their members set. -/
theorem Assignment.sets_membersOf (assignments : List Assignment) :
    Assignment.Sets (membersOf assignments) assignments := by
  induction assignments with
  | nil => exact .nil
  | cons assignment assignments ih => exact .option ih

/-- Every option is among all of them. -/
theorem SettingsOption.mem_all (option : SettingsOption) : option ∈ all := by
  cases option with
  | capacity option => cases option <;> decide
  | amount option => cases option <;> decide

namespace Settings

/-- The values of all options. -/
def assignments (settings : Settings) : List Assignment :=
  SettingsOption.all.map settings.assignment

/-- Each option has one value. -/
theorem areNew_assignments (settings : Settings) : Assignment.AreNew [] settings.assignments := by
  have once : SettingsOption.all.Nodup := by decide
  refine ⟨?_, by simp⟩
  simpa [assignments, Function.comp_def] using once

/-- Settings are set by the values of all options, whatever is standard. -/
theorem isSetBy_assignments (settings default : Settings) :
    settings.IsSetBy (membersOf settings.assignments) default where
  given member isMember option isNamed := by
    have sets := Assignment.sets_membersOf settings.assignments
    obtain ⟨assignment, isValue, isOption, isGiven⟩ := sets.exists_mem isMember isNamed
    obtain ⟨assigned, _, rfl⟩ := List.mem_map.mp isValue
    rw [option_assignment] at isOption
    exact isOption ▸ isGiven
  kept option notGiven := by
    have isValue : settings.assignment option ∈ settings.assignments :=
      List.mem_map_of_mem option.mem_all
    have isMember := (Assignment.sets_membersOf settings.assignments).mem_members isValue
    rw [option_assignment] at isMember
    exact absurd rfl (notGiven _ isMember)

theorem areSuitable_assignments (settings : Settings) :
    AreSuitable (membersOf settings.assignments) :=
  areSuitable_iff.mpr
    ⟨_, Assignment.sets_membersOf settings.assignments, settings.areNew_assignments⟩

/-- The written form of settings is an object with the values of all options. -/
theorem isObject_render (settings : Settings) :
    IsObject (membersOf settings.assignments) settings.render.toList := by
  have present : settings.assignments ≠ [] := List.cons_ne_nil _ _
  have areMembers := areMembers_writeMembers present
  simpa [render, Json.render, toJson, write, assignments, Function.comp_def] using
    IsObject.members isBlanks_nil areMembers isBlanks_nil

/-- Written settings are read back, unless they are invalid. -/
theorem ofText_render (cores : UInt64) (settings : Settings) :
    ofText cores settings.render = settings.validate.mapError .invalid :=
  ofText_of_areSuitable (.object settings.isObject_render) settings.areSuitable_assignments
    (settings.isSetBy_assignments _)

/-- Settings that have been read are usable. -/
theorem isUsable_of_ofText {cores : UInt64} {text : String} {settings : Settings}
    (isRead : ofText cores text = .ok settings) : settings.IsUsable := by
  rw [ofText] at isRead
  split at isRead
  next => cases isRead
  next =>
    split at isRead
    next => cases isRead
    next isValid =>
      cases isRead
      obtain ⟨isUsable, rfl⟩ := validate_eq_ok_iff.mp isValid
      exact isUsable

/-- Usable settings are read back as they were written, and others are refused for their flaw, on
any machine. So whatever has been read, from an object or from a list, can be written and read
again. A limit that is absent is absent again: nothing that is standard takes its place. -/
theorem render_readsBack :
    (∀ (cores : UInt64) (settings : Settings),
      (settings.validate = .ok settings → ofText cores settings.render = .ok settings) ∧
      ∀ flaw, settings.validate = .error flaw →
        ofText cores settings.render = .error (.invalid flaw)) ∧
    (∀ (settings : Settings), settings.validate = .ok settings ∨
      ∃ flaw, settings.validate = .error flaw) ∧
    (∀ (cores otherCores : UInt64) (text : String) (settings : Settings),
      ofText cores text = .ok settings → ofText otherCores settings.render = .ok settings) ∧
    ∀ (cores : UInt64) (settings readBack : Settings) (option : CapacityOption),
      ofText cores settings.render = .ok readBack →
        (readBack.assignment (.capacity option) = .capacity option none ↔
          settings.assignment (.capacity option) = .capacity option none) := by
  have whenValid : ∀ (cores : UInt64) (settings : Settings), settings.validate = .ok settings →
      ofText cores settings.render = .ok settings := by
    intro cores settings isValid
    rw [ofText_render, isValid]
    rfl
  refine ⟨fun cores settings => ⟨whenValid cores settings, fun flaw isFlawed => ?_⟩,
    fun settings => ?_, fun cores otherCores text settings isRead => ?_,
    fun cores settings readBack option isRead => ?_⟩
  · rw [ofText_render, isFlawed]
    rfl
  · by_cases isUsable : settings.IsUsable
    · exact .inl (validate_eq_ok_iff.mpr ⟨isUsable, rfl⟩)
    · exact .inr (validate_eq_error_iff.mpr isUsable)
  · exact whenValid otherCores settings
      (validate_eq_ok_iff.mpr ⟨isUsable_of_ofText isRead, rfl⟩)
  · rw [ofText_render, mapError_eq_ok_iff, validate_eq_ok_iff] at isRead
    rw [isRead.2]

/-- Settings without any limit are read back without one where the standard has all of them, and
settings that are never swept are refused. -/
theorem render_readsBack_unlimited :
    let unlimited : Settings :=
      { standard 4 with
        maxNumberOfSearches := none
        maxSizeMegabytes := none
        maxSearchAgeSeconds := none
        maxSearchTimeSeconds := 18446744073709551615 }
    let unswept : Settings := { unlimited with sweepIntervalMilliseconds := 0 }
    (unlimited.validate = .ok unlimited ∧ ofText 4 unlimited.render = .ok unlimited ∧
      ofText 8 unlimited.render = .ok unlimited) ∧
    (unswept.validate = .error .noSweepInterval ∧
      ofText 4 unswept.render = .error (.invalid .noSweepInterval)) ∧
    unlimited.assignment (.capacity .maxSearchAgeSeconds) =
      .capacity .maxSearchAgeSeconds none := by
  intro unlimited unswept
  have isValid : unlimited.validate = .ok unlimited := rfl
  have isFlawed : unswept.validate = .error .noSweepInterval := rfl
  have isRead := (render_readsBack.1 4 unlimited).1 isValid
  exact ⟨⟨isValid, isRead, render_readsBack.2.2.1 4 8 _ unlimited isRead⟩,
    ⟨isFlawed, (render_readsBack.1 4 unswept).2 _ isFlawed⟩,
    (render_readsBack.2.2.2 4 unlimited unlimited .maxSearchAgeSeconds isRead).mpr rfl⟩

end Settings

end SweptCache
