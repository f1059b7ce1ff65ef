import Mathlib.Data.List.Nodup
import SweptCache.Proofs.SettingsDocuments

/-!
# Settings from texts

Settings are read from the texts that give suitable members: no option is given
twice, and each one that is given has one of its values (`AreSuitable`). The
settings that are read are the standard ones in which the options that are given
have their values (`IsSetBy`), which leaves nothing to the order of the members
or to members with other names. They are refused as invalid if they cannot be
used, and every other text is refused as a fault of the text.
-/

namespace SweptCache

open SweptCache.Json

/-- A text gives an option the value of an assignment: whole numbers stand for amounts, and `null`
for a capacity without a limit. -/
inductive Assignment.IsGivenBy : Assignment → List Char → Prop
  | unlimited {option : CapacityOption} : IsGivenBy (.capacity option none) ['n', 'u', 'l', 'l']
  | capacity {option : CapacityOption} {amount : UInt64} {value : List Char} : IsWhole value →
      valueOfDigits value = amount.toNat → IsGivenBy (.capacity option (some amount)) value
  | amount {option : AmountOption} {amount : UInt64} {value : List Char} : IsWhole value →
      valueOfDigits value = amount.toNat → IsGivenBy (.amount option amount) value

/-- Members from which options can be set: each option is given once at most, and with one of its
values. -/
structure Json.AreSuitable (members : List Member) : Prop where
  once : ∀ option : SettingsOption, (members.map (·.name)).count option.name.toList ≤ 1
  valued : ∀ member ∈ members, ∀ option : SettingsOption, member.name = option.name.toList →
    ∃ assignment : Assignment, assignment.option = option ∧ assignment.IsGivenBy member.value

/-- The members that are named after options. -/
def Json.known (members : List Member) : List Member :=
  members.filter fun member => (SettingsOption.ofName? member.name).isSome

namespace Settings

/-- Settings that follow others, except for the options that are given by members. -/
structure IsSetBy (settings : Settings) (members : List Member) (default : Settings) : Prop where
  given : ∀ member ∈ members, ∀ option : SettingsOption, member.name = option.name.toList →
    (settings.assignment option).IsGivenBy member.value
  kept : ∀ option : SettingsOption, (∀ member ∈ members, member.name ≠ option.name.toList) →
    settings.assignment option = default.assignment option

/-- Settings with which searches can be run and swept. -/
def IsUsable (settings : Settings) : Prop :=
  settings.maxConcurrentSearches ≠ 0 ∧ settings.sweepIntervalMilliseconds ≠ 0

end Settings

section Assignments

variable {assignment other : Assignment} {assignments : List Assignment} {members : List Member}
  {value : List Char}

/-- An option is given a value by its written form alone. -/
theorem Assignment.isGivenBy_iff : assignment.IsGivenBy value ↔ value = assignment.written := by
  constructor
  · intro isGiven
    cases isGiven with
    | unlimited => rfl
    | capacity isWhole isAmount | amount isWhole isAmount =>
      exact isWhole_and_valueOfDigits_eq_iff.mp ⟨isWhole, isAmount⟩
  · rintro rfl
    cases assignment with
    | capacity option value =>
      cases value with
      | none => exact .unlimited
      | some amount => exact .capacity (isWhole_digits _) (valueOfDigits_digits _)
    | amount option amount => exact .amount (isWhole_digits _) (valueOfDigits_digits _)

/-- Different amounts have different digits. -/
theorem Json.digits_injective {first second : UInt64}
    (same : digits first.toNat = digits second.toNat) : first = second := by
  have sameValue := congrArg valueOfDigits same
  rw [valueOfDigits_digits, valueOfDigits_digits] at sameValue
  exact UInt64.toNat_inj.mp sameValue

/-- Different values of an option are written differently. -/
theorem Assignment.written_injective (sameOption : assignment.option = other.option)
    (same : assignment.written = other.written) : assignment = other := by
  cases assignment with
  | capacity option value =>
    obtain ⟨otherValue, rfl⟩ := option_eq_capacity_iff.mp sameOption.symm
    cases value with
    | none =>
      cases otherValue with
      | none => rfl
      | some amount => exact absurd same.symm (digits_ne_null amount.toNat)
    | some amount =>
      cases otherValue with
      | none => exact absurd same (digits_ne_null amount.toNat)
      | some otherAmount => rw [digits_injective same]
  | amount option amount =>
    obtain ⟨otherAmount, rfl⟩ := option_eq_amount_iff.mp sameOption.symm
    rw [digits_injective same]

/-- What is set is given by a member. -/
theorem Assignment.Sets.mem_members (sets : Sets members assignments)
    (isSet : assignment ∈ assignments) :
    ⟨assignment.option.name.toList, assignment.written⟩ ∈ members := by
  induction sets with
  | nil => cases isSet
  | other _ _ ih => exact .tail _ (ih isSet)
  | option _ ih =>
    cases isSet with
    | head => exact .head _
    | tail _ isSet => exact .tail _ (ih isSet)

/-- What is given to an option is set. -/
theorem Assignment.Sets.exists_mem (sets : Sets members assignments) {member : Member}
    (isGiven : member ∈ members) {option : SettingsOption}
    (isNamed : member.name = option.name.toList) :
    ∃ assignment ∈ assignments, assignment.option = option ∧
      assignment.IsGivenBy member.value := by
  induction sets with
  | nil => cases isGiven
  | other unknown _ ih =>
    cases isGiven with
    | head => exact absurd isNamed (unknown option)
    | tail _ isGiven => exact ih isGiven
  | option _ ih =>
    cases isGiven with
    | head => exact ⟨_, .head _, SettingsOption.name_injective isNamed, isGivenBy_iff.mpr rfl⟩
    | tail _ isGiven =>
      obtain ⟨assignment, isSet, found⟩ := ih isGiven
      exact ⟨assignment, .tail _ isSet, found⟩

/-- Members set an option as often as they give it. -/
theorem Assignment.Sets.count_eq (sets : Sets members assignments) (option : SettingsOption) :
    (members.map (·.name)).count option.name.toList =
      (assignments.map (·.option)).count option := by
  induction sets with
  | nil => rfl
  | other unknown _ ih => rw [List.map_cons, List.count_cons_of_ne (unknown option), ih]
  | @option assignment _ _ _ ih =>
    rw [List.map_cons, List.map_cons, List.count_cons, List.count_cons, ih]
    by_cases same : assignment.option = option
    · simp [same]
    · have otherName : assignment.option.name.toList ≠ option.name.toList :=
        fun sameName => same (SettingsOption.name_injective sameName)
      simp [same, otherName]

/-- Members with values of their options set them. -/
theorem Assignment.exists_sets (valued : ∀ member ∈ members, ∀ option : SettingsOption,
    member.name = option.name.toList →
      ∃ assignment : Assignment, assignment.option = option ∧
        assignment.IsGivenBy member.value) : ∃ assignments, Sets members assignments := by
  induction members with
  | nil => exact ⟨[], .nil⟩
  | cons member members ih =>
    rw [List.forall_mem_cons] at valued
    obtain ⟨assignments, sets⟩ := ih valued.2
    by_cases isKnown : ∃ option : SettingsOption, member.name = option.name.toList
    · obtain ⟨option, isNamed⟩ := isKnown
      obtain ⟨assignment, rfl, isGiven⟩ := valued.1 option isNamed
      obtain ⟨name, value⟩ := member
      rw [isGivenBy_iff] at isGiven
      cases isNamed
      cases isGiven
      exact ⟨_, .option sets⟩
    · exact ⟨_, .other (not_exists.mp isKnown) sets⟩

/-- Members are suitable if they set options, none of them twice. -/
theorem areSuitable_iff : AreSuitable members ↔
    ∃ assignments, Assignment.Sets members assignments ∧ Assignment.AreNew [] assignments := by
  constructor
  · rintro ⟨once, valued⟩
    obtain ⟨assignments, sets⟩ := Assignment.exists_sets valued
    refine ⟨assignments, sets, List.nodup_iff_count_le_one.mpr fun option => ?_, by simp⟩
    rw [← sets.count_eq option]
    exact once option
  · rintro ⟨assignments, sets, once, _⟩
    refine ⟨fun option => ?_, fun member isGiven option isNamed => ?_⟩
    · rw [sets.count_eq option]
      exact List.nodup_iff_count_le_one.mp once option
    · obtain ⟨assignment, _, found⟩ := sets.exists_mem isGiven isNamed
      exact ⟨assignment, found⟩

end Assignments

namespace Settings

variable {settings other default : Settings} {assignment : Assignment}
  {assignments : List Assignment} {option : SettingsOption} {members : List Member}

@[simp] theorem option_assignment (settings : Settings) (option : SettingsOption) :
    (settings.assignment option).option = option := by
  cases option with
  | capacity option => cases option <;> rfl
  | amount option => cases option <;> rfl

/-- Settings are the same if every option has the same value. -/
theorem eq_of_assignment (same : ∀ option, settings.assignment option = other.assignment option) :
    settings = other := by
  cases settings
  cases other
  have maxNumberOfSearches := same (.capacity .maxNumberOfSearches)
  have maxSizeMegabytes := same (.capacity .maxSizeMegabytes)
  have maxSearchAgeSeconds := same (.capacity .maxSearchAgeSeconds)
  have maxSearchTimeSeconds := same (.amount .maxSearchTimeSeconds)
  have maxConcurrentSearches := same (.amount .maxConcurrentSearches)
  have abandonedCountSeconds := same (.amount .abandonedCountSeconds)
  have targetFreeMegabytes := same (.amount .targetFreeMegabytes)
  have minFreeMegabytesForSearch := same (.amount .minFreeMegabytesForSearch)
  have sweepIntervalMilliseconds := same (.amount .sweepIntervalMilliseconds)
  simp_all [assignment]

/-- An assignment sets its own option and no other. -/
theorem assignment_assign (settings : Settings) (assignment : Assignment)
    (option : SettingsOption) :
    (settings.assign assignment).assignment option =
      if assignment.option = option then assignment else settings.assignment option := by
  cases assignment with
  | capacity assigned value =>
    cases assigned <;> rcases option with option | option <;> cases option <;> rfl
  | amount assigned value =>
    cases assigned <;> rcases option with option | option <;> cases option <;> rfl

/-- Options that are not assigned to keep their values. -/
theorem assignment_assignAll_of_not_mem (settings : Settings)
    (unassigned : ∀ assignment ∈ assignments, assignment.option ≠ option) :
    (settings.assignAll assignments).assignment option = settings.assignment option := by
  induction assignments generalizing settings with
  | nil => rfl
  | cons first assignments ih =>
    rw [List.forall_mem_cons] at unassigned
    have kept := ih (settings.assign first) unassigned.2
    rwa [assignment_assign, if_neg unassigned.1] at kept

/-- Options that are assigned to once have the values of their assignments. -/
theorem assignment_assignAll_of_mem (settings : Settings)
    (once : (assignments.map (·.option)).Nodup) (isMade : assignment ∈ assignments) :
    (settings.assignAll assignments).assignment assignment.option = assignment := by
  induction assignments generalizing settings with
  | nil => cases isMade
  | cons first assignments ih =>
    obtain ⟨isNew, once⟩ := List.nodup_cons.mp once
    cases isMade with
    | head =>
      have unassigned : ∀ later ∈ assignments, later.option ≠ assignment.option :=
        fun later isMade same => isNew (List.mem_map.mpr ⟨later, isMade, same⟩)
      have kept := assignment_assignAll_of_not_mem (settings.assign assignment) unassigned
      rwa [assignment_assign, if_pos rfl] at kept
    | tail _ isMade => exact ih (settings.assign first) once isMade

/-- Members leave no choice of the settings that they set. -/
theorem IsSetBy.unique (isSet : settings.IsSetBy members default)
    (isSetToo : other.IsSetBy members default) : settings = other := by
  refine eq_of_assignment fun option => ?_
  by_cases isGiven : ∃ member ∈ members, member.name = option.name.toList
  · obtain ⟨member, isMember, isNamed⟩ := isGiven
    have first := Assignment.isGivenBy_iff.mp (isSet.given member isMember option isNamed)
    have second := Assignment.isGivenBy_iff.mp (isSetToo.given member isMember option isNamed)
    exact Assignment.written_injective (by simp) (first.symm.trans second)
  · have notGiven : ∀ member ∈ members, member.name ≠ option.name.toList :=
      fun member isMember isNamed => isGiven ⟨member, isMember, isNamed⟩
    rw [isSet.kept option notGiven, isSetToo.kept option notGiven]

/-- Settings are set by members when what these set is assigned, each option once. -/
theorem isSetBy_assignAll (sets : Assignment.Sets members assignments)
    (areNew : Assignment.AreNew [] assignments) (default : Settings) :
    (default.assignAll assignments).IsSetBy members default where
  given member isGiven option isNamed := by
    obtain ⟨assignment, isMade, rfl, value⟩ := sets.exists_mem isGiven isNamed
    rwa [assignment_assignAll_of_mem default areNew.1 isMade]
  kept option notGiven :=
    assignment_assignAll_of_not_mem default fun _ isMade isOption =>
      notGiven _ (sets.mem_members isMade) (by rw [isOption])

/-- Suitable members set settings. -/
theorem exists_isSetBy (areSuitable : AreSuitable members) (default : Settings) :
    ∃ settings : Settings, settings.IsSetBy members default := by
  obtain ⟨assignments, sets, areNew⟩ := areSuitable_iff.mp areSuitable
  exact ⟨_, isSetBy_assignAll sets areNew default⟩

theorem validate_eq_ok_iff :
    settings.validate = .ok other ↔ settings.IsUsable ∧ other = settings := by
  rw [validate, IsUsable]
  split
  next noConcurrency => simp [noConcurrency]
  next concurrency =>
    split
    next noInterval => simp [noInterval]
    next interval => simp [concurrency, interval, eq_comm]

theorem validate_eq_error_iff :
    (∃ flaw, settings.validate = .error flaw) ↔ ¬ settings.IsUsable := by
  rw [validate, IsUsable]
  split
  next noConcurrency => simp [noConcurrency]
  next concurrency =>
    split
    next noInterval => simp [noInterval]
    next interval => simp [concurrency, interval]

end Settings

section Known

variable {member : Member} {members others : List Member} {default settings : Settings}

theorem mem_known : member ∈ known members ↔
    member ∈ members ∧ ∃ option : SettingsOption, member.name = option.name.toList := by
  simp only [known, List.mem_filter, Option.isSome_iff_exists, SettingsOption.ofName?_eq_some_iff]

/-- Members that are named after no option are none that give one. -/
theorem count_known (members : List Member) (option : SettingsOption) :
    ((known members).map (·.name)).count option.name.toList =
      (members.map (·.name)).count option.name.toList := by
  induction members with
  | nil => rfl
  | cons member members ih =>
    unfold known at ih ⊢
    rw [List.filter_cons]
    split
    next => rw [List.map_cons, List.map_cons, List.count_cons, List.count_cons, ih]
    next notKnown =>
      have otherName : member.name ≠ option.name.toList := by
        intro isNamed
        rw [SettingsOption.ofName?_eq_some_iff.mpr isNamed] at notKnown
        exact notKnown rfl
      rw [List.map_cons, List.count_cons_of_ne otherName, ih]

/-- Whether members are suitable is left to those that are named after options, in any order. -/
theorem Json.AreSuitable.of_perm (same : (known members).Perm (known others))
    (areSuitable : AreSuitable members) : AreSuitable others where
  once option := by
    rw [← count_known, ← (same.map _).count_eq, count_known]
    exact areSuitable.once option
  valued member isMember option isNamed := by
    have isKnown := same.mem_iff.mpr (mem_known.mpr ⟨isMember, option, isNamed⟩)
    exact areSuitable.valued member (mem_known.mp isKnown).1 option isNamed

/-- What members set is left to those that are named after options, in any order. -/
theorem Settings.IsSetBy.of_perm (same : (known members).Perm (known others))
    (isSet : settings.IsSetBy members default) : settings.IsSetBy others default where
  given member isMember option isNamed := by
    have isKnown := same.mem_iff.mpr (mem_known.mpr ⟨isMember, option, isNamed⟩)
    exact isSet.given member (mem_known.mp isKnown).1 option isNamed
  kept option notGiven := by
    refine isSet.kept option fun member isMember isNamed => ?_
    have isKnown := same.mem_iff.mp (mem_known.mpr ⟨isMember, option, isNamed⟩)
    exact notGiven member (mem_known.mp isKnown).1 isNamed

end Known

namespace Settings

variable {cores : UInt64} {text otherText : String} {members others : List Member}
  {settings : Settings}

theorem mapError_eq_ok_iff {result : Except SettingsFlaw Settings} :
    result.mapError SettingsError.invalid = .ok settings ↔ result = .ok settings := by
  cases result <;> simp [Except.mapError]

theorem mapError_eq_invalid_iff {result : Except SettingsFlaw Settings} {flaw : SettingsFlaw} :
    result.mapError SettingsError.invalid = .error (.invalid flaw) ↔ result = .error flaw := by
  cases result <;> simp [Except.mapError]

/-- A text that gives suitable members is read as the settings that they set, unless these are
invalid. -/
theorem ofText_of_areSuitable (gives : Gives members text.toList)
    (areSuitable : AreSuitable members) (isSet : settings.IsSetBy members (standard cores)) :
    ofText cores text = settings.validate.mapError .invalid := by
  obtain ⟨assignments, sets, areNew⟩ := areSuitable_iff.mp areSuitable
  have isRead := (Assignment.read_eq_ok_iff_sets gives).mpr ⟨sets, areNew⟩
  rw [ofText, isRead, isSet.unique (isSetBy_assignAll sets areNew _)]
  dsimp only
  split
  next isFlawed => rw [isFlawed]; rfl
  next isValid => rw [isValid]; rfl

/-- A text that gives no suitable members is faulty. -/
theorem ofText_of_not_areSuitable (gives : Gives members text.toList)
    (notSuitable : ¬ AreSuitable members) :
    ∃ fault, ofText cores text = .error (.parse fault) := by
  rw [ofText]
  split
  next fault _ => exact ⟨fault, rfl⟩
  next assignments isRead =>
    have areSet := (Assignment.read_eq_ok_iff_sets gives).mp isRead
    exact absurd (areSuitable_iff.mpr ⟨assignments, areSet⟩) notSuitable

/-- A text that gives no members at all is faulty. -/
theorem ofText_of_not_gives (givesNone : ∀ members, ¬ Gives members text.toList) :
    ∃ fault, ofText cores text = .error (.parse fault) := by
  rw [ofText]
  split
  next fault _ => exact ⟨fault, rfl⟩
  next isRead =>
    obtain ⟨members, gives⟩ := Assignment.exists_gives_of_read isRead
    exact absurd gives (givesNone members)

/-- Suitable members with which settings can be used are read as these settings. -/
theorem ofText_eq_ok_iff (gives : Gives members text.toList) :
    ofText cores text = .ok settings ↔
      AreSuitable members ∧ settings.IsSetBy members (standard cores) ∧ settings.IsUsable := by
  by_cases areSuitable : AreSuitable members
  · obtain ⟨found, isFound⟩ := exists_isSetBy areSuitable (standard cores)
    rw [ofText_of_areSuitable gives areSuitable isFound, mapError_eq_ok_iff, validate_eq_ok_iff]
    constructor
    · rintro ⟨isUsable, rfl⟩
      exact ⟨areSuitable, isFound, isUsable⟩
    · rintro ⟨_, isSet, isUsable⟩
      exact ⟨isFound.unique isSet ▸ isUsable, isSet.unique isFound⟩
  · obtain ⟨fault, isFaulty⟩ : ∃ fault, ofText cores text = .error (.parse fault) :=
      ofText_of_not_areSuitable gives areSuitable
    simp [isFaulty, areSuitable]

/-- Suitable members with which settings cannot be used are refused for a flaw of them. -/
theorem ofText_eq_invalid_iff (gives : Gives members text.toList) {flaw : SettingsFlaw} :
    ofText cores text = .error (.invalid flaw) ↔
      AreSuitable members ∧ ∃ settings : Settings, settings.IsSetBy members (standard cores) ∧
        settings.validate = .error flaw := by
  by_cases areSuitable : AreSuitable members
  · obtain ⟨found, isFound⟩ := exists_isSetBy areSuitable (standard cores)
    rw [ofText_of_areSuitable gives areSuitable isFound, mapError_eq_invalid_iff]
    constructor
    · intro isFlawed
      exact ⟨areSuitable, found, isFound, isFlawed⟩
    · rintro ⟨_, settings, isSet, isFlawed⟩
      rwa [isFound.unique isSet]
  · obtain ⟨fault, isFaulty⟩ : ∃ fault, ofText cores text = .error (.parse fault) :=
      ofText_of_not_areSuitable gives areSuitable
    simp [isFaulty, areSuitable]

/-- Only members that are not suitable make a text faulty. -/
theorem ofText_eq_parse_iff (gives : Gives members text.toList) :
    (∃ fault, ofText cores text = .error (.parse fault)) ↔ ¬ AreSuitable members := by
  refine ⟨?_, ofText_of_not_areSuitable gives⟩
  rintro ⟨fault, isFaulty⟩ areSuitable
  obtain ⟨found, isFound⟩ := exists_isSetBy areSuitable (standard cores)
  rw [ofText_of_areSuitable gives areSuitable isFound] at isFaulty
  cases validated : found.validate with
  | error flaw =>
    rw [validated] at isFaulty
    cases isFaulty
  | ok valid =>
    rw [validated] at isFaulty
    cases isFaulty

/-- Texts that give the same members of options, in any order, are read as the same settings or
refused for the same flaw, or else both are faulty. -/
theorem ofText_eq_of_perm (gives : Gives members text.toList)
    (givesToo : Gives others otherText.toList) (same : (known members).Perm (known others)) :
    (∀ settings, ofText cores text = .ok settings ↔ ofText cores otherText = .ok settings) ∧
    (∀ flaw, ofText cores text = .error (.invalid flaw) ↔
      ofText cores otherText = .error (.invalid flaw)) ∧
    ((∃ fault, ofText cores text = .error (.parse fault)) ↔
      ∃ fault, ofText cores otherText = .error (.parse fault)) := by
  have suitable : AreSuitable members ↔ AreSuitable others :=
    ⟨fun areSuitable => areSuitable.of_perm same, fun areSuitable => areSuitable.of_perm same.symm⟩
  have isSet : ∀ settings : Settings, settings.IsSetBy members (standard cores) ↔
      settings.IsSetBy others (standard cores) :=
    fun settings => ⟨fun isSet => isSet.of_perm same, fun isSet => isSet.of_perm same.symm⟩
  refine ⟨fun settings => ?_, fun flaw => ?_, ?_⟩
  · rw [ofText_eq_ok_iff gives, ofText_eq_ok_iff givesToo, suitable, isSet]
  · rw [ofText_eq_invalid_iff gives, ofText_eq_invalid_iff givesToo, suitable]
    simp only [isSet]
  · rw [ofText_eq_parse_iff gives, ofText_eq_parse_iff givesToo, suitable]

/-- Settings are read from exactly the texts that give suitable members with which settings can be
used. They are the standard ones in which the options that are given have their values, whatever
the order of the members and whatever else is given. Suitable members with which settings cannot
be used are refused as invalid, and every other text is faulty, one that is no JSON among them. -/
theorem ofText_reads_suitable_members (cores : UInt64) (text : String) :
    (∀ members, Gives members text.toList →
      (∀ settings, ofText cores text = .ok settings ↔
        AreSuitable members ∧ settings.IsSetBy members (standard cores) ∧ settings.IsUsable) ∧
      ((∃ flaw, ofText cores text = .error (.invalid flaw)) ↔
        AreSuitable members ∧ ∃ settings : Settings, settings.IsSetBy members (standard cores) ∧
          ¬ settings.IsUsable) ∧
      ((∃ fault, ofText cores text = .error (.parse fault)) ↔ ¬ AreSuitable members) ∧
      (AreSuitable members → ∃! settings : Settings, settings.IsSetBy members (standard cores))) ∧
    (∀ members others otherText, Gives members text.toList → Gives others otherText.toList →
      (known members).Perm (known others) →
      (∀ settings, ofText cores text = .ok settings ↔ ofText cores otherText = .ok settings) ∧
      (∀ flaw, ofText cores text = .error (.invalid flaw) ↔
        ofText cores otherText = .error (.invalid flaw)) ∧
      ((∃ fault, ofText cores text = .error (.parse fault)) ↔
        ∃ fault, ofText cores otherText = .error (.parse fault))) ∧
    ((∀ members, ¬ Gives members text.toList) →
      ∃ fault, ofText cores text = .error (.parse fault)) ∧
    (¬ IsText .padded text.toList → ∃ fault, ofText cores text = .error (.parse fault)) := by
  refine ⟨fun members gives =>
    ⟨fun settings => ofText_eq_ok_iff gives, ?_, ofText_eq_parse_iff gives, ?_⟩,
    fun members others otherText => ofText_eq_of_perm, ofText_of_not_gives, ?_⟩
  · simp only [ofText_eq_invalid_iff gives, ← validate_eq_error_iff]
    constructor
    · rintro ⟨flaw, areSuitable, settings, isSet, isFlawed⟩
      exact ⟨areSuitable, settings, isSet, flaw, isFlawed⟩
    · rintro ⟨areSuitable, settings, isSet, flaw, isFlawed⟩
      exact ⟨flaw, areSuitable, settings, isSet, isFlawed⟩
  · intro areSuitable
    obtain ⟨settings, isSet⟩ := exists_isSetBy areSuitable (standard cores)
    exact ⟨settings, isSet, fun other isSetToo => isSetToo.unique isSet⟩
  · intro noText
    exact ofText_of_not_gives fun members gives => noText gives.isText

/-- A text in which a member is named after no option is read, as is the text without it. -/
theorem ofText_interval_behind_other :
    let named : List Member := [⟨"sweepIntervalMs".toList, ['7']⟩]
    let members : List Member := ⟨"x".toList, ['[', ']']⟩ :: named
    (Gives members "\x7b\"x\":[],\"sweepIntervalMs\":7\x7d".toList ∧
      ofText 4 "\x7b\"x\":[],\"sweepIntervalMs\":7\x7d" =
        .ok { standard 4 with sweepIntervalMilliseconds := 7 }) ∧
    (Gives named "\x7b\"sweepIntervalMs\":7\x7d".toList ∧ (known members).Perm (known named) ∧
      ofText 4 "\x7b\"sweepIntervalMs\":7\x7d" =
        .ok { standard 4 with sweepIntervalMilliseconds := 7 }) ∧
    (∀ members, ¬ Gives members "".toList) ∧ ¬ IsText .padded "".toList ∧
      ∃ fault, ofText 4 "" = .error (.parse fault) := by
  intro named members
  have isWhole : IsWhole ['7'] := ⟨⟨by simp, List.forall_mem_singleton.mpr rfl⟩, by decide⟩
  have isNumber : IsText .value ['7'] := .number (.positive isWhole .absent .absent)
  have areNamed : AreMembers named "\"sweepIntervalMs\":7".toList :=
    .last (isNameOf_quote "sweepIntervalMs") isBlanks_nil isNumber isBlanks_nil
  have areMembers : AreMembers members "\"x\":[],\"sweepIntervalMs\":7".toList :=
    .more (isNameOf_quote "x") isBlanks_nil (.emptyList isBlanks_nil) isBlanks_nil areNamed
  have gives : Gives members "\x7b\"x\":[],\"sweepIntervalMs\":7\x7d".toList :=
    .object (.members isBlanks_nil areMembers isBlanks_nil)
  have givesNamed : Gives named "\x7b\"sweepIntervalMs\":7\x7d".toList :=
    .object (.members isBlanks_nil areNamed isBlanks_nil)
  have same : (known members).Perm (known named) := .refl _
  have noText : ¬ IsText .padded "".toList := by
    intro isText
    generalize isEmpty : "".toList = empty at isText
    cases isText with
    | padded _ isValue _ =>
      obtain ⟨first, rest, rfl, _⟩ := isValue.exists_start
      simp at isEmpty
  have sets : Assignment.Sets members [.amount .sweepIntervalMilliseconds 7] := by
    have isDigits : digits 7 = ['7'] :=
      (isWhole_and_valueOfDigits_eq_iff.mp ⟨isWhole, rfl⟩).symm
    have isKnown : Assignment.Sets [⟨"sweepIntervalMs".toList, digits 7⟩]
      [.amount .sweepIntervalMilliseconds 7] :=
        Assignment.sets_singleton_iff.mpr (.inr ⟨_, rfl, rfl⟩)
    rw [isDigits] at isKnown
    exact .other (SettingsOption.ofName?_eq_none_iff.mp (by rfl)) isKnown
  have areNew : Assignment.AreNew [] [.amount .sweepIntervalMilliseconds 7] := by simp
  have isRead := ((ofText_reads_suitable_members 4 _).1 members gives).1
    { standard 4 with sweepIntervalMilliseconds := 7 } |>.mpr
    ⟨areSuitable_iff.mpr ⟨_, sets, areNew⟩, isSetBy_assignAll sets areNew (standard 4),
      by decide, by decide⟩
  have sameReading := (ofText_reads_suitable_members 4 _).2.1 members named _ gives givesNamed same
  have fault := (ofText_reads_suitable_members 4 "").2.2.2 noText
  have noMembers := fun members (gives : Gives members _) => noText gives.isText
  exact ⟨⟨gives, isRead⟩, ⟨givesNamed, same, (sameReading.1 _).mp isRead⟩, noMembers, noText, fault⟩

end Settings

end SweptCache
