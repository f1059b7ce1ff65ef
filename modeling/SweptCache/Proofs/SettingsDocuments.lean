import SweptCache.Proofs.SettingsTexts

/-!
# Reading documents of assignments

`Assignment.read` makes the assignments that the members of a document set, each
option once, and it reads nothing but documents that give members: from what it
has read, members or items can be recovered piece by piece.
-/

namespace SweptCache

open SweptCache.Json

namespace Assignment

section Documents

variable {members : List Member} {made assignments : List Assignment} {option : SettingsOption}
  {options : List SettingsOption} {items : List (List Char)} {before inner text rest : List Char}

/-- An object without members makes no assignments. -/
theorem scanObject_empty (isBlanks : IsBlanks inner) (rest : List Char) :
    scanObject (inner ++ '\x7d' :: rest) = .ok ([], rest) := by
  rw [scanObject, dropBlanks_append_cons isBlanks rfl]
  rfl

/-- An object that is not closed at once is read as its members. -/
theorem scanObject_members (isOpen : ∀ following, dropBlanks text ≠ '\x7d' :: following) :
    scanObject text = scanMembers [] text := by
  have sameMembers : scanMembers [] (dropBlanks text) = scanMembers [] text := by
    rw [scanMembers, scanMembers, scanNamedMember, scanNamedMember, dropBlanks_dropBlanks]
  rw [scanObject]
  split
  next following closes => exact absurd closes (isOpen following)
  next => exact sameMembers

/-- A list without items makes no assignments. -/
theorem scanList_empty (isBlanks : IsBlanks inner) (rest : List Char) :
    scanList (inner ++ ']' :: rest) = .ok ([], rest) := by
  rw [scanList, dropBlanks_append_cons isBlanks rfl]
  rfl

/-- A list that is not closed at once is read as its items. -/
theorem scanList_items (isOpen : ∀ following, dropBlanks text ≠ ']' :: following) :
    scanList text = scanItems [] SettingsOption.all text := by
  have sameItems : scanItems [] SettingsOption.all (dropBlanks text) =
      scanItems [] SettingsOption.all text := by
    rw [SettingsOption.all, scanItems, scanItems, scan_dropBlanks]
  rw [scanList]
  split
  next following closes => exact absurd closes (isOpen following)
  next => exact sameItems

/-- A text is read as an object or as a list. -/
theorem scanDocument_eq_ok_iff :
    scanDocument text = .ok (assignments, rest) ↔
      ∃ opened, dropBlanks text = '\x7b' :: opened ∧ scanObject opened = .ok (assignments, rest) ∨
        dropBlanks text = '[' :: opened ∧ scanList opened = .ok (assignments, rest) := by
  rw [scanDocument]
  split
  next dropped => simp [dropped]
  next first opened dropped =>
    simp only [dropped, List.cons.injEq, and_assoc, exists_or, exists_and_left, exists_eq_left']
    split
    next isBrace => simp [isBrace]
    next =>
      split
      next isBracket => simp [isBracket]
      next notBrace notBracket => simp [notBrace, notBracket]

/-- Behind what is read there are only blanks. -/
theorem read_eq_ok_iff :
    read text = .ok assignments ↔
      ∃ rest, scanDocument text = .ok (assignments, rest) ∧ IsBlanks rest := by
  rw [read]
  split
  next failed => simp [failed]
  next made rest found =>
    simp only [found, ← dropBlanks_eq_nil_iff]
    split
    next isBlank => simp [isBlank, and_comm]
    next notBlank => simp [notBlank]

/-- A text with an opening brace is read as an object. -/
theorem read_object_eq_ok_iff (isBlanks : IsBlanks before) :
    read (before ++ '\x7b' :: text) = .ok assignments ↔
      ∃ rest, scanObject text = .ok (assignments, rest) ∧ IsBlanks rest := by
  have opens : dropBlanks (before ++ '\x7b' :: text) = '\x7b' :: text :=
    dropBlanks_append_cons isBlanks rfl text
  simp [read_eq_ok_iff, scanDocument_eq_ok_iff, opens]

/-- A text with an opening bracket is read as a list. -/
theorem read_list_eq_ok_iff (isBlanks : IsBlanks before) :
    read (before ++ '[' :: text) = .ok assignments ↔
      ∃ rest, scanList text = .ok (assignments, rest) ∧ IsBlanks rest := by
  have opens : dropBlanks (before ++ '[' :: text) = '[' :: text :=
    dropBlanks_append_cons isBlanks rfl text
  simp [read_eq_ok_iff, scanDocument_eq_ok_iff, opens]

/-- An object is read as what its members set, unless they set an option more than once. -/
theorem read_object_iff_sets (isObject : IsObject members text) :
    read text = .ok assignments ↔ Sets members assignments ∧ AreNew [] assignments := by
  cases isObject with
  | empty isBefore isBlanks isAfter =>
    rw [read_object_eq_ok_iff isBefore]
    simp only [scanObject_empty isBlanks]
    constructor
    · rintro ⟨_, ⟨⟩, _⟩
      exact ⟨.nil, areNew_nil⟩
    · rintro ⟨⟨⟩, _⟩
      exact ⟨_, rfl, isAfter⟩
  | members isBefore areMembers isAfter =>
    obtain ⟨following, opens⟩ := areMembers.isText.exists_first_members _
    have isScanned := scanObject_members fun following closes => by
      cases opens.symm.trans closes
    rw [read_object_eq_ok_iff isBefore, isScanned]
    simp only [scanMembers_append_eq_ok_iff areMembers, List.nil_append]
    constructor
    · rintro ⟨_, ⟨rfl, _, sets, areNew, rfl⟩, _⟩
      exact ⟨sets, areNew⟩
    · rintro ⟨sets, areNew⟩
      exact ⟨_, ⟨rfl, _, sets, areNew, rfl⟩, isAfter⟩

/-- A list is read as what its items set, unless there are more of them than options. -/
theorem read_list_iff_sets (isList : IsList items text) :
    read text = .ok assignments ↔
      items.length ≤ SettingsOption.all.length ∧
        Sets (inOrder SettingsOption.all items) assignments := by
  cases isList with
  | empty isBefore isBlanks isAfter =>
    rw [read_list_eq_ok_iff isBefore]
    simp only [scanList_empty isBlanks]
    constructor
    · rintro ⟨_, ⟨⟩, _⟩
      exact ⟨Nat.zero_le _, .nil⟩
    · rintro ⟨_, ⟨⟩⟩
      exact ⟨_, rfl, isAfter⟩
  | items isBefore areItems isAfter =>
    obtain ⟨first, following, opens, starts⟩ := areItems.isText.exists_first_items _
    have isScanned := scanList_items fun following closes => by
      cases opens.symm.trans closes
      exact absurd starts Bool.false_ne_true
    rw [read_list_eq_ok_iff isBefore, isScanned]
    simp only [scanItems_append_eq_ok_iff areItems, List.nil_append]
    constructor
    · rintro ⟨_, ⟨short, rfl, _, sets, rfl⟩, _⟩
      exact ⟨short, sets⟩
    · rintro ⟨short, sets⟩
      exact ⟨_, ⟨short, rfl, _, sets, rfl⟩, isAfter⟩

/-- A text that gives members is read as what they set, unless they set an option more than
once. -/
theorem read_eq_ok_iff_sets (gives : Gives members text) :
    read text = .ok assignments ↔ Sets members assignments ∧ AreNew [] assignments := by
  cases gives with
  | object isObject => exact read_object_iff_sets isObject
  | list isList short =>
    have once : SettingsOption.all.Nodup := by decide
    rw [read_list_iff_sets isList]
    constructor
    · rintro ⟨_, sets⟩
      exact ⟨sets, areNew_of_sets_inOrder once sets⟩
    · rintro ⟨sets, _⟩
      exact ⟨short, sets⟩

/-- What is read behind the name of a member is a value, behind a colon. -/
theorem exists_of_scanMember {content : List Char}
    (found : scanMember made content text = .ok (assignments, rest)) :
    ∃ value after before, IsBlanks after ∧ IsBlanks before ∧ IsText .value value ∧
      text = after ++ ':' :: (before ++ (value ++ rest)) := by
  unfold scanMember at found
  split at found
  next =>
    split at found
    next => cases found
    next colon =>
      obtain ⟨after, isAfter, rfl⟩ := exists_of_expectColon colon
      split at found
      next => cases found
      next skipped =>
        cases found
        obtain ⟨before, value, isBefore, isValue, rfl⟩ := isText_of_skipValue skipped
        exact ⟨value, after, before, isAfter, isBefore, isValue, rfl⟩
  next =>
    split at found
    next => cases found
    next =>
      split at found
      next => cases found
      next colon =>
        obtain ⟨after, isAfter, rfl⟩ := exists_of_expectColon colon
        split at found
        next => cases found
        next scanned =>
          cases found
          obtain ⟨before, isBefore, rfl⟩ := exists_of_scan scanned
          exact ⟨_, after, before, isAfter, isBefore, isText_written _, rfl⟩

/-- What is read as a member is one. -/
theorem exists_of_scanNamedMember (found : scanNamedMember made text = .ok (assignments, rest)) :
    ∃ content value name before, IsNameOf (Spells · content) name ∧ IsBlanks before ∧
      IsText .value value ∧ text = name ++ (before ++ (value ++ rest)) := by
  obtain ⟨leading, isLeading, isText⟩ := exists_dropBlanks text
  unfold scanNamedMember at found
  split at found
  next => cases found
  next dropped =>
    rw [dropped] at isText
    split at found
    next isQuote =>
      split at found
      next => cases found
      next content behindName quoted =>
        obtain ⟨body, spells, rfl⟩ := spells_of_scanQuoted quoted
        obtain ⟨value, after, before, isAfter, isBefore, isValue, rfl⟩ := exists_of_scanMember found
        exact ⟨content, value, _, before, .quoted isLeading spells isAfter, isBefore, isValue,
          by simp [isText, isQuote]⟩
    next => cases found

/-- What is read as members consists of members. -/
theorem exists_of_scanMembers (found : scanMembers made text = .ok (assignments, rest)) :
    ∃ members inner, AreMembers members inner ∧ text = inner ++ '\x7d' :: rest := by
  induction hlen : text.length using Nat.strong_induction_on generalizing made text with
  | _ length ih =>
    obtain ⟨now, behind, scanned, ends⟩ := scanMembers_eq_ok_iff.mp found
    have shorter := scanNamedMember_length_lt scanned
    obtain ⟨content, value, name, before, isName, isBefore, isValue, rfl⟩ :=
      exists_of_scanNamedMember scanned
    obtain ⟨after, isAfter, isBehind⟩ := exists_dropBlanks behind
    obtain ⟨closes, rfl⟩ | ⟨further, goesOn, scannedRest⟩ := ends
    · rw [closes] at isBehind
      exact ⟨_, _, .last isName isBefore isValue isAfter, by simp [isBehind]⟩
    · rw [goesOn] at isBehind
      have noLonger : further.length < behind.length := by simp [isBehind]; omega
      obtain ⟨members, inner, areMembers, rfl⟩ :=
        ih further.length (by omega) scannedRest rfl
      exact ⟨_, _, .more isName isBefore isValue isAfter areMembers, by simp [isBehind]⟩

/-- What is read as items consists of items, of which there are no more than options. -/
theorem exists_of_scanItems (found : scanItems made options text = .ok (assignments, rest)) :
    ∃ items inner, AreItems items inner ∧ items.length ≤ options.length ∧
      text = inner ++ ']' :: rest := by
  induction options generalizing made text with
  | nil => cases found
  | cons option options ih =>
    obtain ⟨assignment, behind, scanned, ends⟩ := scanItems_cons_eq_ok_iff.mp found
    obtain ⟨before, isBefore, rfl⟩ := exists_of_scan scanned
    have isValue := isText_written assignment
    obtain ⟨after, isAfter, isBehind⟩ := exists_dropBlanks behind
    obtain ⟨closes, rfl⟩ | ⟨further, goesOn, scannedRest⟩ := ends
    · rw [closes] at isBehind
      exact ⟨_, _, .last isBefore isValue isAfter, by simp, by simp [isBehind]⟩
    · rw [goesOn] at isBehind
      obtain ⟨items, inner, areItems, noMore, rfl⟩ := ih scannedRest
      exact ⟨_, _, .more isBefore isValue isAfter areItems, by simpa using noMore,
        by simp [isBehind]⟩

/-- What is read as an object behind its brace gives members. -/
theorem exists_gives_of_scanObject (isBefore : IsBlanks before)
    (found : scanObject text = .ok (assignments, rest)) (isAfter : IsBlanks rest) :
    ∃ members, Gives members (before ++ '\x7b' :: text) := by
  by_cases isOpen : ∀ following, dropBlanks text ≠ '\x7d' :: following
  · rw [scanObject_members isOpen] at found
    obtain ⟨members, inner, areMembers, rfl⟩ := exists_of_scanMembers found
    exact ⟨members, .object (.members isBefore areMembers isAfter)⟩
  · obtain ⟨following, closes⟩ := not_forall_not.mp isOpen
    obtain ⟨inner, isInner, isText⟩ := exists_dropBlanks text
    rw [isText, closes, scanObject_empty isInner] at found
    cases found
    rw [isText, closes]
    exact ⟨[], .object (.empty isBefore isInner isAfter)⟩

/-- What is read as a list behind its bracket gives members. -/
theorem exists_gives_of_scanList (isBefore : IsBlanks before)
    (found : scanList text = .ok (assignments, rest)) (isAfter : IsBlanks rest) :
    ∃ members, Gives members (before ++ '[' :: text) := by
  by_cases isOpen : ∀ following, dropBlanks text ≠ ']' :: following
  · rw [scanList_items isOpen] at found
    obtain ⟨items, inner, areItems, short, rfl⟩ := exists_of_scanItems found
    exact ⟨_, .list (.items isBefore areItems isAfter) short⟩
  · obtain ⟨following, closes⟩ := not_forall_not.mp isOpen
    obtain ⟨inner, isInner, isText⟩ := exists_dropBlanks text
    rw [isText, closes, scanList_empty isInner] at found
    cases found
    rw [isText, closes]
    exact ⟨_, .list (.empty isBefore isInner isAfter) (Nat.zero_le _)⟩

/-- Whatever is read gives members. -/
theorem exists_gives_of_read (found : read text = .ok assignments) :
    ∃ members, Gives members text := by
  obtain ⟨rest, scanned, isAfter⟩ := read_eq_ok_iff.mp found
  obtain ⟨before, isBefore, isText⟩ := exists_dropBlanks text
  obtain ⟨opened, ⟨opens, isObject⟩ | ⟨opens, isList⟩⟩ := scanDocument_eq_ok_iff.mp scanned
  · rw [isText, opens]
    exact exists_gives_of_scanObject isBefore isObject isAfter
  · rw [isText, opens]
    exact exists_gives_of_scanList isBefore isList isAfter

end Documents

end Assignment

end SweptCache
