import SweptCache.Proofs.SettingsValues

/-!
# Reading assignments

What a text assigns to options depends on its members alone: on the names for
which their quoted names stand and on the texts of their values (`Sets`). An
object tells its members itself (`IsObject`), and the items of a list are taken
as members that are named by their positions (`Gives`). The members of an object
are read as what they set, if they set no option twice, and the items of a list
are read as what they set, if there is an option for each.
-/

namespace SweptCache

open SweptCache.Json

namespace Json

/-- A member of an object: the name for which its quoted name stands, and the
text of its value. -/
structure Member where
  name : List Char
  value : List Char
  deriving DecidableEq, Repr

/-- The members of an object, with their text. -/
inductive AreMembers : List Member → List Char → Prop
  | last {content value name before after : List Char} : IsNameOf (Spells · content) name →
      IsBlanks before → IsText .value value → IsBlanks after →
      AreMembers [⟨content, value⟩] (name ++ (before ++ (value ++ after)))
  | more {content value name before after rest : List Char} {others : List Member} :
      IsNameOf (Spells · content) name → IsBlanks before → IsText .value value →
      IsBlanks after → AreMembers others rest →
      AreMembers (⟨content, value⟩ :: others)
        (name ++ (before ++ (value ++ (after ++ ',' :: rest))))

/-- A text that is one object, with its members. -/
inductive IsObject : List Member → List Char → Prop
  | empty {before inner after : List Char} : IsBlanks before → IsBlanks inner → IsBlanks after →
      IsObject [] (before ++ '\x7b' :: (inner ++ '\x7d' :: after))
  | members {members : List Member} {before inner after : List Char} : IsBlanks before →
      AreMembers members inner → IsBlanks after →
      IsObject members (before ++ '\x7b' :: (inner ++ '\x7d' :: after))

/-- The items of a list, with their text. -/
inductive AreItems : List (List Char) → List Char → Prop
  | last {value before after : List Char} : IsBlanks before → IsText .value value →
      IsBlanks after → AreItems [value] (before ++ (value ++ after))
  | more {value before after rest : List Char} {others : List (List Char)} : IsBlanks before →
      IsText .value value → IsBlanks after → AreItems others rest →
      AreItems (value :: others) (before ++ (value ++ (after ++ ',' :: rest)))

/-- A text that is one list, with its items. -/
inductive IsList : List (List Char) → List Char → Prop
  | empty {before inner after : List Char} : IsBlanks before → IsBlanks inner → IsBlanks after →
      IsList [] (before ++ '[' :: (inner ++ ']' :: after))
  | items {items : List (List Char)} {before inner after : List Char} : IsBlanks before →
      AreItems items inner → IsBlanks after →
      IsList items (before ++ '[' :: (inner ++ ']' :: after))

section Texts

variable {text : List Char}

/-- A name that spells a text is a name. -/
theorem IsNameOf.isName {content : List Char} (isName : IsNameOf (Spells · content) text) :
    IsName text := by
  cases isName with
  | quoted before spells after => exact .quoted before spells.isQuotable after

theorem AreMembers.isText {members : List Member} (areMembers : AreMembers members text) :
    IsText .members text := by
  induction areMembers with
  | last isName before isValue after =>
    exact .lastMember isName.isName (.padded before isValue after)
  | more isName before isValue after _ ih =>
    simpa using IsText.member isName.isName (.padded before isValue after) ih

theorem AreItems.isText {items : List (List Char)} (areItems : AreItems items text) :
    IsText .items text := by
  induction areItems with
  | last before isValue after => exact .lastItem (.padded before isValue after)
  | more before isValue after _ ih =>
    simpa using IsText.item (.padded before isValue after) ih

theorem IsObject.isText {members : List Member} (isObject : IsObject members text) :
    IsText .padded text := by
  cases isObject with
  | empty before inner after => simpa using IsText.padded before (.emptyObject inner) after
  | members before areMembers after =>
    simpa using IsText.padded before (.object areMembers.isText) after

theorem IsList.isText {items : List (List Char)} (isList : IsList items text) :
    IsText .padded text := by
  cases isList with
  | empty before inner after => simpa using IsText.padded before (.emptyList inner) after
  | items before areItems after =>
    simpa using IsText.padded before (.list areItems.isText) after

end Texts

/-- The items of a list as members, named after the options at their positions. -/
def inOrder (options : List SettingsOption) (items : List (List Char)) : List Member :=
  List.zipWith (fun option value => ⟨option.name.toList, value⟩) options items

/-- A text that gives members, as an object does, or as a list does that is no longer than there
are options. -/
inductive Gives : List Member → List Char → Prop
  | object {members : List Member} {text : List Char} : IsObject members text → Gives members text
  | list {items : List (List Char)} {text : List Char} : IsList items text →
      items.length ≤ SettingsOption.all.length → Gives (inOrder SettingsOption.all items) text

/-- A text that gives members is JSON. -/
theorem Gives.isText {members : List Member} {text : List Char} (gives : Gives members text) :
    IsText .padded text := by
  cases gives with
  | object isObject => exact isObject.isText
  | list isList _ => exact isList.isText

end Json

namespace SettingsOption

variable {name : List Char} {option : SettingsOption}

/-- Options are found by their names. -/
theorem ofName?_eq_some_iff : ofName? name = some option ↔ name = option.name.toList := by
  constructor
  · intro found
    simpa [eq_comm] using List.find?_some found
  · rintro rfl
    cases option with
    | capacity option => cases option <;> rfl
    | amount option => cases option <;> rfl

theorem ofName?_eq_none_iff :
    ofName? name = none ↔ ∀ option : SettingsOption, name ≠ option.name.toList := by
  rw [Option.eq_none_iff_forall_ne_some]
  exact forall_congr' fun option => not_congr ofName?_eq_some_iff

/-- No two options have the same name. -/
theorem name_injective {first second : SettingsOption}
    (same : first.name.toList = second.name.toList) : first = second := by
  have found := ofName?_eq_some_iff.mpr same
  rw [ofName?_eq_some_iff.mpr rfl] at found
  exact Option.some.inj found

end SettingsOption

namespace Assignment

/-- The assignments that members make. -/
inductive Sets : List Member → List Assignment → Prop
  | nil : Sets [] []
  | other {member : Member} {members : List Member} {assignments : List Assignment} :
      (∀ option : SettingsOption, member.name ≠ option.name.toList) → Sets members assignments →
      Sets (member :: members) assignments
  | option {assignment : Assignment} {members : List Member} {assignments : List Assignment} :
      Sets members assignments →
      Sets (⟨assignment.option.name.toList, assignment.written⟩ :: members)
        (assignment :: assignments)

/-- Assignments to different options, to which nothing has been assigned so far. -/
def AreNew (made added : List Assignment) : Prop :=
  (added.map (·.option)).Nodup ∧
    ∀ assignment ∈ added, ∀ earlier ∈ made, earlier.option ≠ assignment.option

section AreNew

variable {made first second : List Assignment} {assignment : Assignment}

@[simp] theorem areNew_nil : AreNew made [] := by simp [AreNew]

@[simp] theorem areNew_singleton :
    AreNew made [assignment] ↔ ∀ earlier ∈ made, earlier.option ≠ assignment.option := by
  simp [AreNew]

/-- Each part of new assignments is new where the parts before it have been made. -/
theorem areNew_append :
    AreNew made (first ++ second) ↔ AreNew made first ∧ AreNew (made ++ first) second := by
  simp only [AreNew, List.map_append, List.nodup_append, List.mem_append, List.mem_map]
  constructor
  · rintro ⟨⟨firstOnce, secondOnce, apart⟩, new⟩
    refine ⟨⟨firstOnce, fun assignment member => new assignment (.inl member)⟩, secondOnce, ?_⟩
    rintro assignment member earlier (wasMade | isFirst)
    · exact new assignment (.inr member) earlier wasMade
    · exact apart _ ⟨earlier, isFirst, rfl⟩ _ ⟨assignment, member, rfl⟩
  · rintro ⟨⟨firstOnce, firstNew⟩, secondOnce, secondNew⟩
    refine ⟨⟨firstOnce, secondOnce, ?_⟩, ?_⟩
    · rintro _ ⟨earlier, isFirst, rfl⟩ _ ⟨assignment, member, rfl⟩
      exact secondNew assignment member earlier (.inr isFirst)
    · rintro assignment (isFirst | isSecond) earlier wasMade
      · exact firstNew assignment isFirst earlier wasMade
      · exact secondNew assignment isSecond earlier (.inl wasMade)

end AreNew

section Members

variable {made assignments : List Assignment} {option : SettingsOption}
  {content name before value after text rest remainder : List Char}

theorem sets_singleton_iff {member : Member} :
    Sets [member] assignments ↔
      (∀ option : SettingsOption, member.name ≠ option.name.toList) ∧ assignments = [] ∨
      ∃ assignment, member = ⟨assignment.option.name.toList, assignment.written⟩ ∧
        assignments = [assignment] := by
  constructor
  · intro sets
    cases sets with
    | other unknown others =>
      cases others
      exact .inl ⟨unknown, rfl⟩
    | option others =>
      cases others
      exact .inr ⟨_, rfl, rfl⟩
  · rintro (⟨unknown, rfl⟩ | ⟨assignment, rfl, rfl⟩)
    · exact .other unknown .nil
    · exact .option .nil

/-- A member that is named after no option is skipped. -/
theorem scanMember_other (unknown : ∀ option : SettingsOption, content ≠ option.name.toList)
    (isAfter : IsBlanks after) (isBefore : IsBlanks before) (isValue : IsText .value value)
    (ends : Ends rest) :
    scanMember made content (after ++ ':' :: (before ++ (value ++ rest))) = .ok (made, rest) := by
  rw [scanMember, SettingsOption.ofName?_eq_none_iff.mpr unknown]
  simp only [expectColon_append isAfter, skipValue_append isBefore isValue ends]

/-- A member that is named after an option assigns its value to it, once. -/
theorem scanMember_option_eq_ok_iff (isAfter : IsBlanks after) (isBefore : IsBlanks before)
    (isValue : IsText .value value) (ends : Ends rest) :
    scanMember made option.name.toList (after ++ ':' :: (before ++ (value ++ rest))) =
        .ok (assignments, remainder) ↔
      (∀ assignment ∈ made, assignment.option ≠ option) ∧ ∃ assignment,
        assignment.option = option ∧ value = assignment.written ∧
        assignments = made ++ [assignment] ∧ remainder = rest := by
  rw [scanMember, SettingsOption.ofName?_eq_some_iff.mpr rfl]
  simp only [expectColon_append isAfter]
  split
  next repeated =>
    refine iff_of_false nofun ?_
    rintro ⟨fresh, _⟩
    obtain ⟨assignment, member, same⟩ := List.any_eq_true.mp repeated
    exact fresh assignment member (by simpa using same)
  next notRepeated =>
    have fresh : ∀ assignment ∈ made, assignment.option ≠ option := by simpa using notRepeated
    have isScanned : ∀ assignment remainder,
        scan option (before ++ (value ++ rest)) = .ok (assignment, remainder) ↔
          assignment.option = option ∧ value = assignment.written ∧ remainder = rest :=
      fun _ _ => scan_eq_ok_iff isBefore isValue ends
    split
    next failed =>
      refine iff_of_false nofun ?_
      rintro ⟨_, assignment, isOption, isWritten, _⟩
      rw [(isScanned assignment rest).mpr ⟨isOption, isWritten, rfl⟩] at failed
      cases failed
    next found =>
      obtain ⟨isOption, isWritten, rfl⟩ := (isScanned _ _).mp found
      constructor
      · rintro ⟨⟩
        exact ⟨fresh, _, isOption, isWritten, rfl, rfl⟩
      · rintro ⟨_, assignment, isOption, isWritten, rfl, rfl⟩
        rw [(isScanned assignment remainder).mpr ⟨isOption, isWritten, rfl⟩] at found
        cases found
        rfl

/-- A member is read as what it sets, unless that has been set before. -/
theorem scanNamedMember_eq_ok_iff (isName : IsNameOf (Spells · content) name)
    (isBefore : IsBlanks before) (isValue : IsText .value value) (ends : Ends rest) :
    scanNamedMember made (name ++ (before ++ (value ++ rest))) = .ok (assignments, remainder) ↔
      remainder = rest ∧ ∃ added, Sets [⟨content, value⟩] added ∧ AreNew made added ∧
        assignments = made ++ added := by
  cases isName with
  | quoted isLeading spells isAfter =>
    simp only [List.append_assoc, List.cons_append, List.nil_append]
    rw [scanNamedMember, dropBlanks_append_cons isLeading rfl]
    simp only [if_true, scanQuoted_append spells, sets_singleton_iff]
    by_cases known : ∃ option : SettingsOption, content = option.name.toList
    · obtain ⟨option, rfl⟩ := known
      rw [scanMember_option_eq_ok_iff isAfter isBefore isValue ends]
      constructor
      · rintro ⟨fresh, assignment, rfl, rfl, rfl, rfl⟩
        exact ⟨rfl, _, .inr ⟨assignment, rfl, rfl⟩, areNew_singleton.mpr fresh, rfl⟩
      · rintro ⟨rfl, added, ⟨unknown, _⟩ | ⟨assignment, isMember, rfl⟩, fresh, rfl⟩
        · exact absurd rfl (unknown option)
        · obtain ⟨sameName, isWritten⟩ := Member.mk.inj isMember
          have isOption := SettingsOption.name_injective sameName
          refine ⟨?_, assignment, isOption.symm, isWritten, rfl, rfl⟩
          rw [isOption]
          exact areNew_singleton.mp fresh
    · have unknown := not_exists.mp known
      rw [scanMember_other unknown isAfter isBefore isValue ends]
      constructor
      · rintro ⟨⟩
        exact ⟨rfl, [], .inl ⟨unknown, rfl⟩, areNew_nil, by simp⟩
      · rintro ⟨rfl, added, ⟨_, rfl⟩ | ⟨assignment, isMember, _⟩, _, rfl⟩
        · simp
        · exact absurd (Member.mk.inj isMember).1 (unknown _)

/-- What several members set is what the first one sets and what the others set. -/
theorem sets_cons_iff {member : Member} {members : List Member} :
    Sets (member :: members) assignments ↔
      ∃ first others, Sets [member] first ∧ Sets members others ∧
        assignments = first ++ others := by
  constructor
  · intro sets
    cases sets with
    | other unknown others => exact ⟨[], _, .other unknown .nil, others, rfl⟩
    | option others => exact ⟨[_], _, .option .nil, others, rfl⟩
  · rintro ⟨first, others, isFirst, areOthers, rfl⟩
    obtain ⟨unknown, rfl⟩ | ⟨assignment, rfl, rfl⟩ := sets_singleton_iff.mp isFirst
    · exact .other unknown areOthers
    · exact .option areOthers

/-- Members are read one after the other up to the brace behind the last one. -/
theorem scanMembers_eq_ok_iff :
    scanMembers made text = .ok (assignments, rest) ↔
      ∃ now behind, scanNamedMember made text = .ok (now, behind) ∧
        (dropBlanks behind = '\x7d' :: rest ∧ assignments = now ∨
          ∃ further, dropBlanks behind = ',' :: further ∧
            scanMembers now further = .ok (assignments, rest)) := by
  rw [scanMembers]
  split
  next failed => simp [failed]
  next now behind found =>
    simp only [found, Except.ok.injEq, Prod.mk.injEq, exists_and_left, exists_eq_left', and_assoc]
    split
    next dropped => simp [dropped]
    next separator further dropped =>
      simp only [dropped, List.cons.injEq, and_assoc, exists_and_left, exists_eq_left']
      split
      next closes => simp [closes, eq_comm, and_comm]
      next =>
        split
        next isComma => simp [isComma]
        next notClosing notComma => simp [notClosing, notComma]

/-- Members are read as what they set, unless they set an option more than once. -/
theorem scanMembers_append_eq_ok_iff {members : List Member} {inner : List Char}
    (areMembers : AreMembers members inner) :
    scanMembers made (inner ++ '\x7d' :: rest) = .ok (assignments, remainder) ↔
      remainder = rest ∧ ∃ added, Sets members added ∧ AreNew made added ∧
        assignments = made ++ added := by
  induction areMembers generalizing made with
  | @last content value name before after isName isBefore isValue isAfter =>
    have ends : Ends (after ++ '\x7d' :: rest) :=
      (ends_of_separator '\x7d' (by simp) rest).append isAfter
    have dropped : dropBlanks (after ++ '\x7d' :: rest) = '\x7d' :: rest :=
      dropBlanks_append_cons isAfter rfl _
    simp only [List.append_assoc]
    rw [scanMembers_eq_ok_iff]
    simp only [scanNamedMember_eq_ok_iff isName isBefore isValue ends]
    constructor
    · rintro ⟨now, behind, ⟨rfl, added, sets, areNew, rfl⟩, ⟨closes, rfl⟩ | ⟨further, goesOn, _⟩⟩
      · cases dropped.symm.trans closes
        exact ⟨rfl, added, sets, areNew, rfl⟩
      · cases dropped.symm.trans goesOn
    · rintro ⟨rfl, added, sets, areNew, rfl⟩
      exact ⟨_, _, ⟨rfl, added, sets, areNew, rfl⟩, .inl ⟨dropped, rfl⟩⟩
  | @more content value name before after inner others isName isBefore isValue isAfter _ ih =>
    have ends : Ends (after ++ ',' :: (inner ++ '\x7d' :: rest)) :=
      (ends_of_separator ',' (by simp) _).append isAfter
    have dropped : dropBlanks (after ++ ',' :: (inner ++ '\x7d' :: rest)) =
        ',' :: (inner ++ '\x7d' :: rest) :=
      dropBlanks_append_cons isAfter rfl _
    simp only [List.append_assoc, List.cons_append]
    rw [scanMembers_eq_ok_iff]
    simp only [scanNamedMember_eq_ok_iff isName isBefore isValue ends]
    constructor
    · rintro ⟨now, behind, ⟨rfl, first, sets, areNew, rfl⟩, ⟨closes, _⟩ | ⟨_, goesOn, scanned⟩⟩
      · cases dropped.symm.trans closes
      · cases dropped.symm.trans goesOn
        obtain ⟨rfl, added, setsOthers, areNewToo, rfl⟩ := ih.mp scanned
        exact ⟨rfl, first ++ added, sets_cons_iff.mpr ⟨first, added, sets, setsOthers, rfl⟩,
          areNew_append.mpr ⟨areNew, areNewToo⟩, List.append_assoc _ _ _⟩
    · rintro ⟨rfl, _, setsAll, areNew, rfl⟩
      obtain ⟨first, added, sets, setsOthers, rfl⟩ := sets_cons_iff.mp setsAll
      obtain ⟨isNew, areNewToo⟩ := areNew_append.mp areNew
      refine ⟨_, _, ⟨rfl, first, sets, isNew, rfl⟩, .inr ⟨_, dropped, ih.mpr ?_⟩⟩
      exact ⟨rfl, added, setsOthers, areNewToo, (List.append_assoc _ _ _).symm⟩

end Members

section Items

variable {made assignments : List Assignment} {option : SettingsOption}
  {options : List SettingsOption} {value inner text rest remainder : List Char}
  {items : List (List Char)}

/-- The items of a list set the options one after the other. -/
theorem sets_inOrder_cons_iff :
    Sets (inOrder (option :: options) (value :: items)) assignments ↔
      ∃ assignment others, assignment.option = option ∧ value = assignment.written ∧
        Sets (inOrder options items) others ∧ assignments = assignment :: others := by
  simp only [inOrder, List.zipWith_cons_cons]
  rw [sets_cons_iff]
  simp only [sets_singleton_iff]
  constructor
  · rintro ⟨first, others, ⟨unknown, _⟩ | ⟨assignment, isMember, rfl⟩, sets, rfl⟩
    · exact absurd rfl (unknown option)
    · obtain ⟨sameName, isWritten⟩ := Member.mk.inj isMember
      have isOption := (SettingsOption.name_injective sameName).symm
      exact ⟨assignment, others, isOption, isWritten, sets, rfl⟩
  · rintro ⟨assignment, others, rfl, rfl, sets, rfl⟩
    exact ⟨[assignment], others, .inr ⟨assignment, rfl, rfl⟩, sets, rfl⟩

/-- Items are read one after the other up to the bracket behind the last one. -/
theorem scanItems_cons_eq_ok_iff :
    scanItems made (option :: options) text = .ok (assignments, rest) ↔
      ∃ assignment behind, scan option text = .ok (assignment, behind) ∧
        (dropBlanks behind = ']' :: rest ∧ assignments = made ++ [assignment] ∨
          ∃ further, dropBlanks behind = ',' :: further ∧
            scanItems (made ++ [assignment]) options further = .ok (assignments, rest)) := by
  rw [scanItems]
  split
  next failed => simp [failed]
  next assignment behind found =>
    simp only [found, Except.ok.injEq, Prod.mk.injEq, exists_and_left, exists_eq_left', and_assoc]
    split
    next dropped => simp [dropped]
    next separator further dropped =>
      simp only [dropped, List.cons.injEq, and_assoc, exists_and_left, exists_eq_left']
      split
      next closes => simp [closes, eq_comm, and_comm]
      next =>
        split
        next isComma => simp [isComma]
        next notClosing notComma => simp [notClosing, notComma]

/-- Items are read as what they set, unless there are more of them than options. -/
theorem scanItems_append_eq_ok_iff (areItems : AreItems items inner) :
    scanItems made options (inner ++ ']' :: rest) = .ok (assignments, remainder) ↔
      items.length ≤ options.length ∧ remainder = rest ∧
        ∃ added, Sets (inOrder options items) added ∧ assignments = made ++ added := by
  induction areItems generalizing made options with
  | @last value before after isBefore isValue isAfter =>
    have ends : Ends (after ++ ']' :: rest) := (ends_of_separator ']' (by simp) rest).append isAfter
    have dropped : dropBlanks (after ++ ']' :: rest) = ']' :: rest :=
      dropBlanks_append_cons isAfter rfl _
    cases options with
    | nil => simp [scanItems]
    | cons option options =>
      simp only [List.append_assoc, sets_inOrder_cons_iff]
      rw [scanItems_cons_eq_ok_iff]
      simp only [scan_eq_ok_iff isBefore isValue ends]
      constructor
      · rintro ⟨assignment, behind, ⟨isOption, isWritten, rfl⟩, ⟨closes, rfl⟩ | ⟨_, goesOn, _⟩⟩
        · cases dropped.symm.trans closes
          refine ⟨by simp, rfl, [assignment], ⟨assignment, [], isOption, isWritten, ?_, rfl⟩, rfl⟩
          simpa [inOrder] using Sets.nil
        · cases dropped.symm.trans goesOn
      · rintro ⟨_, rfl, _, ⟨assignment, others, isOption, isWritten, sets, rfl⟩, rfl⟩
        have noOthers : others = [] := by
          simp only [inOrder, List.zipWith_nil_right] at sets
          cases sets
          rfl
        exact ⟨assignment, _, ⟨isOption, isWritten, rfl⟩, .inl ⟨dropped, by rw [noOthers]⟩⟩
  | @more value before after inner others isBefore isValue isAfter _ ih =>
    have ends : Ends (after ++ ',' :: (inner ++ ']' :: rest)) :=
      (ends_of_separator ',' (by simp) _).append isAfter
    have dropped : dropBlanks (after ++ ',' :: (inner ++ ']' :: rest)) =
        ',' :: (inner ++ ']' :: rest) :=
      dropBlanks_append_cons isAfter rfl _
    cases options with
    | nil => simp [scanItems]
    | cons option options =>
      simp only [List.append_assoc, List.cons_append, sets_inOrder_cons_iff]
      rw [scanItems_cons_eq_ok_iff]
      simp only [scan_eq_ok_iff isBefore isValue ends]
      constructor
      · rintro ⟨assignment, behind, ⟨isOption, isWritten, rfl⟩, ⟨closes, _⟩ | ⟨_, goesOn, scanned⟩⟩
        · cases dropped.symm.trans closes
        · cases dropped.symm.trans goesOn
          obtain ⟨short, rfl, added, sets, rfl⟩ := ih.mp scanned
          exact ⟨by simpa using short, rfl, _, ⟨assignment, added, isOption, isWritten, sets, rfl⟩,
            by simp⟩
      · rintro ⟨short, rfl, _, ⟨assignment, added, isOption, isWritten, sets, rfl⟩, rfl⟩
        refine ⟨assignment, _, ⟨isOption, isWritten, rfl⟩, .inr ⟨_, dropped, ih.mpr ?_⟩⟩
        exact ⟨by simpa using short, rfl, added, sets, by simp⟩

/-- The items of a list set different options. -/
theorem areNew_of_sets_inOrder (once : options.Nodup) :
    Sets (inOrder options items) assignments → AreNew [] assignments := by
  suffices sets : Sets (inOrder options items) assignments →
      (assignments.map (·.option)).Sublist options by
    intro isSet
    exact ⟨once.sublist (sets isSet), by simp⟩
  clear once
  induction options generalizing items assignments with
  | nil =>
    intro isSet
    cases isSet
    simp
  | cons option options ih =>
    intro isSet
    cases items with
    | nil =>
      cases isSet
      simp
    | cons value items =>
      obtain ⟨assignment, others, rfl, _, areSet, rfl⟩ := sets_inOrder_cons_iff.mp isSet
      exact (ih areSet).cons_cons _

end Items

end Assignment

end SweptCache
