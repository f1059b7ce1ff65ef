import SweptCache.Proofs.NumberTexts
import SweptCache.Proofs.QuotedTexts

/-!
# Skipping values

`skipValue` skips a JSON value of any depth and nothing else. One direction goes
through the grammar: whatever part of a text is derived, the expectations that
stand for it are met and what comes behind it is left (`IsSkipped`). The other
goes along the scanner: the text behind an expectation that was met is still to
be completed, and what completes it completes a text of the grammar (`Meets`).
-/

namespace SweptCache.Json

variable {text rest blanks : List Char} {expectation : Expectation} {later : List Expectation}

/-- An expectation that is met gives way to what it gives rise to. -/
theorem skipAll_of_meet {further : List Expectation}
    (met : meet expectation text = .ok (further, rest)) :
    skipAll (expectation :: later) text = skipAll (further ++ later) rest := by
  rw [skipAll]
  split
  next failed =>
    rw [met] at failed
    cases failed
  next found =>
    rw [met] at found
    cases found
    rfl

/-- An expectation that is not met is a fault. -/
theorem skipAll_of_fault {fault : Fault} (failed : meet expectation text = .error fault) :
    skipAll (expectation :: later) text = .error fault := by
  rw [skipAll]
  split
  next sameFault =>
    rw [failed] at sameFault
    cases sameFault
    rfl
  next found =>
    rw [failed] at found
    cases found

/-- Blanks do not matter to what is expected. -/
theorem skipAll_blanks (isBlanks : IsBlanks blanks) (text : List Char) :
    skipAll (expectation :: later) (blanks ++ text) = skipAll (expectation :: later) text := by
  have same : meet expectation (blanks ++ text) = meet expectation text := by
    unfold meet
    rw [dropBlanks_append isBlanks]
  cases met : meet expectation text with
  | error fault => rw [skipAll_of_fault met, skipAll_of_fault (same.trans met)]
  | ok found => rw [skipAll_of_meet met, skipAll_of_meet (same.trans met)]

theorem expectColon_append (isBlanks : IsBlanks blanks) (rest : List Char) :
    expectColon (blanks ++ ':' :: rest) = .ok rest := by
  rw [expectColon, dropBlanks_append isBlanks, dropBlanks_cons rfl]
  rfl

theorem exists_of_expectColon (found : expectColon text = .ok rest) :
    ∃ blanks, IsBlanks blanks ∧ text = blanks ++ ':' :: rest := by
  obtain ⟨blanks, isBlanks, isText⟩ := exists_dropBlanks text
  unfold expectColon at found
  split at found
  next => cases found
  next dropped =>
    split at found
    next isColon =>
      cases found
      exact ⟨blanks, isBlanks, by rw [isText, dropped, isColon]⟩
    next => cases found

theorem skipName_append {name : List Char} (isName : IsName name) (rest : List Char) :
    skipName (name ++ rest) = .ok rest := by
  cases isName with
  | quoted before body after =>
    simp only [List.append_assoc, List.cons_append, List.nil_append]
    rw [skipName, dropBlanks_append before, dropBlanks_cons rfl]
    simp only [if_true, skipQuoted_append body, expectColon_append after]

theorem exists_of_skipName (found : skipName text = .ok rest) :
    ∃ name, IsName name ∧ text = name ++ rest := by
  obtain ⟨before, isBefore, isText⟩ := exists_dropBlanks text
  unfold skipName at found
  split at found
  next => cases found
  next dropped =>
    split at found
    next isQuote =>
      split at found
      next => cases found
      next skipped =>
        obtain ⟨body, isQuotable, rfl⟩ := isQuotable_of_skipQuoted skipped
        obtain ⟨after, isAfter, rfl⟩ := exists_of_expectColon found
        exact ⟨_, .quoted isBefore isQuotable isAfter, by rw [isText, dropped, isQuote]; simp⟩
    next => cases found

section Complete

theorem skipScalar_word {letter : Char} {word : List Char}
    (isWord : letter = 'n' ∧ word = ['u', 'l', 'l'] ∨ letter = 't' ∧ word = ['r', 'u', 'e'] ∨
      letter = 'f' ∧ word = ['a', 'l', 's', 'e']) (rest : List Char) :
    skipScalar (letter :: (word ++ rest)) = .ok rest := by
  obtain ⟨rfl, rfl⟩ | ⟨rfl, rfl⟩ | ⟨rfl, rfl⟩ := isWord <;> rfl

theorem skipScalar_quoted {body : List Char} (isQuotable : IsQuotable body) (rest : List Char) :
    skipScalar ('"' :: (body ++ '"' :: rest)) = .ok rest := by
  rw [skipScalar, if_pos rfl, skipQuoted_append isQuotable]

theorem skipScalar_number {literal : NumberLiteral} (written : literal.IsWrittenAs text)
    (ends : Ends rest) : skipScalar (text ++ rest) = .ok rest := by
  obtain ⟨first, following, rfl, starts⟩ := written.exists_start
  have scanned := scanNumber_append .malformed written ends
  rw [List.cons_append] at scanned ⊢
  have noQuote : first ≠ '"' := by
    rintro rfl
    exact absurd starts Bool.false_ne_true
  rw [skipScalar, if_neg noQuote, if_pos starts, scanned]

/-- A word, number or quoted text is all that its expectation asks for. -/
theorem skipAll_scalar {first : Char} (starts : startsValue first = true) (noList : first ≠ '[')
    (noObject : first ≠ '\x7b') (skipped : skipScalar (first :: text) = .ok rest) :
    skipAll (.value :: later) (first :: text) = skipAll later rest := by
  have met : meet .value (first :: text) = .ok ([], rest) := by
    unfold meet
    rw [dropBlanks_cons (not_isBlank_of_startsValue starts)]
    simp only [if_neg noList, if_neg noObject, skipped]
  exact skipAll_of_meet met

theorem skipAll_emptyList (isBlanks : IsBlanks blanks) (rest : List Char) :
    skipAll (.value :: later) ('[' :: (blanks ++ ']' :: rest)) = skipAll later rest := by
  have met : meet .value ('[' :: (blanks ++ ']' :: rest)) = .ok ([], rest) := by
    unfold meet
    rw [dropBlanks_cons rfl]
    simp only [if_true, dropBlanks_append_cons isBlanks (show isBlank ']' = false from rfl)]
  exact skipAll_of_meet met

theorem skipAll_list {first : Char} {following : List Char}
    (opens : dropBlanks text = first :: following) (present : first ≠ ']') :
    skipAll (.value :: later) ('[' :: text) = skipAll (.value :: .restOfList :: later) text := by
  have met : meet .value ('[' :: text) = .ok ([.value, .restOfList], text) := by
    unfold meet
    rw [dropBlanks_cons rfl]
    simp only [if_true]
    split
    next closes =>
      rw [opens] at closes
      cases closes
      exact absurd rfl present
    next => rfl
  exact skipAll_of_meet met

theorem skipAll_emptyObject (isBlanks : IsBlanks blanks) (rest : List Char) :
    skipAll (.value :: later) ('\x7b' :: (blanks ++ '\x7d' :: rest)) = skipAll later rest := by
  have met : meet .value ('\x7b' :: (blanks ++ '\x7d' :: rest)) = .ok ([], rest) := by
    unfold meet
    rw [dropBlanks_cons rfl]
    simp only [dropBlanks_append_cons isBlanks (show isBlank '\x7d' = false from rfl)]
    rfl
  exact skipAll_of_meet met

theorem skipAll_object {following behindName : List Char}
    (opens : dropBlanks text = '"' :: following) (skipped : skipName text = .ok behindName) :
    skipAll (.value :: later) ('\x7b' :: text) =
      skipAll (.value :: .restOfObject :: later) behindName := by
  have met : meet .value ('\x7b' :: text) = .ok ([.value, .restOfObject], behindName) := by
    unfold meet
    rw [dropBlanks_cons rfl]
    simp only [opens, skipped]
    rfl
  exact skipAll_of_meet met

/-- Behind an item a list goes on with another one or ends. -/
theorem skipAll_restOfList (isBlanks : IsBlanks blanks) (rest : List Char) :
    skipAll (.restOfList :: later) (blanks ++ ',' :: rest) =
      skipAll (.value :: .restOfList :: later) rest ∧
    skipAll (.restOfList :: later) (blanks ++ ']' :: rest) = skipAll later rest := by
  have more : meet .restOfList (',' :: rest) = .ok ([.value, .restOfList], rest) := rfl
  have closes : meet .restOfList (']' :: rest) = .ok ([], rest) := rfl
  rw [skipAll_blanks isBlanks, skipAll_blanks isBlanks]
  exact ⟨skipAll_of_meet more, skipAll_of_meet closes⟩

/-- Behind a member an object may end. -/
theorem skipAll_endOfObject (isBlanks : IsBlanks blanks) (rest : List Char) :
    skipAll (.restOfObject :: later) (blanks ++ '\x7d' :: rest) = skipAll later rest := by
  have closes : meet .restOfObject ('\x7d' :: rest) = .ok ([], rest) := rfl
  rw [skipAll_blanks isBlanks]
  exact skipAll_of_meet closes

/-- Behind a member an object may go on with another one. -/
theorem skipAll_restOfObject {behindName : List Char} (isBlanks : IsBlanks blanks)
    (skipped : skipName rest = .ok behindName) :
    skipAll (.restOfObject :: later) (blanks ++ ',' :: rest) =
      skipAll (.value :: .restOfObject :: later) behindName := by
  have more : meet .restOfObject (',' :: rest) = .ok ([.value, .restOfObject], behindName) := by
    unfold meet
    rw [dropBlanks_cons rfl]
    simp only [if_true, skipped]
  rw [skipAll_blanks isBlanks]
  exact skipAll_of_meet more

/-- A value between blanks starts with a value. -/
theorem IsText.exists_first_padded (isPadded : IsText .padded text) (rest : List Char) :
    ∃ first following, dropBlanks (text ++ rest) = first :: following ∧
      startsValue first = true := by
  cases isPadded with
  | @padded _ _ after before isValue _ =>
    obtain ⟨first, following, rfl, starts⟩ := isValue.exists_start
    refine ⟨first, following ++ (after ++ rest), ?_, starts⟩
    simp only [List.append_assoc, List.cons_append, dropBlanks_append before,
      dropBlanks_cons (not_isBlank_of_startsValue starts)]

/-- The items of a list start with a value. -/
theorem IsText.exists_first_items (areItems : IsText .items text) (rest : List Char) :
    ∃ first following, dropBlanks (text ++ rest) = first :: following ∧
      startsValue first = true := by
  cases areItems with
  | lastItem isPadded => exact isPadded.exists_first_padded rest
  | item isPadded _ =>
    rw [List.append_assoc]
    exact isPadded.exists_first_padded _

/-- The name of a member starts with a quote. -/
theorem exists_first_of_name {isBody : List Char → Prop} {name : List Char}
    (isName : IsNameOf isBody name) (rest : List Char) :
    ∃ following, dropBlanks (name ++ rest) = '"' :: following := by
  cases isName with
  | quoted before _ _ =>
    rw [List.append_assoc, dropBlanks_append before, List.cons_append, dropBlanks_cons rfl]
    exact ⟨_, rfl⟩

/-- The members of an object start with a name. -/
theorem IsText.exists_first_members (areMembers : IsText .members text) (rest : List Char) :
    ∃ following, dropBlanks (text ++ rest) = '"' :: following := by
  cases areMembers with
  | lastMember isName _ | member isName _ _ =>
    rw [List.append_assoc]
    exact exists_first_of_name isName _

/-- A part of a JSON text is skipped when the expectations that stand for it are met. -/
def IsSkipped : Part → List Char → Prop
  | .value, text => ∀ later rest, Ends rest →
    skipAll (.value :: later) (text ++ rest) = skipAll later rest
  | .padded, text => ∀ later rest, Ends rest → ∃ after, IsBlanks after ∧
    skipAll (.value :: later) (text ++ rest) = skipAll later (after ++ rest)
  | .items, text => ∀ later rest,
    skipAll (.value :: .restOfList :: later) (text ++ ']' :: rest) = skipAll later rest
  | .members, text => ∀ later rest, ∃ behindName,
    skipName (text ++ '\x7d' :: rest) = .ok behindName ∧
      skipAll (.value :: .restOfObject :: later) behindName = skipAll later rest

/-- No number goes on with what separates or closes items and members. -/
theorem ends_of_separator (separator : Char) (isSeparator : separator ∈ [',', ']', '\x7d'])
    (rest : List Char) : Ends (separator :: rest) := by
  simp only [List.mem_cons, List.not_mem_nil, or_false] at isSeparator
  obtain rfl | rfl | rfl := isSeparator <;> exact ends_cons rfl (by decide) (by decide) (by decide)

/-- Every part of a JSON text is skipped. -/
theorem IsText.isSkipped {part : Part} (isText : IsText part text) : IsSkipped part text := by
  induction isText with
  | nullWord =>
    exact fun later rest _ => skipAll_scalar rfl (by decide) (by decide)
      (skipScalar_word (.inl ⟨rfl, rfl⟩) rest)
  | trueWord =>
    exact fun later rest _ => skipAll_scalar rfl (by decide) (by decide)
      (skipScalar_word (.inr (.inl ⟨rfl, rfl⟩)) rest)
  | falseWord =>
    exact fun later rest _ => skipAll_scalar rfl (by decide) (by decide)
      (skipScalar_word (.inr (.inr ⟨rfl, rfl⟩)) rest)
  | number written =>
    intro later rest ends
    have skipped := skipScalar_number written ends
    obtain ⟨first, following, rfl, starts⟩ := written.exists_start
    refine skipAll_scalar (by simp [startsValue, starts]) ?_ ?_ skipped
    · rintro rfl
      exact absurd starts Bool.false_ne_true
    · rintro rfl
      exact absurd starts Bool.false_ne_true
  | quoted isQuotable =>
    intro later rest _
    rw [List.cons_append, List.append_assoc]
    exact skipAll_scalar rfl (by decide) (by decide) (skipScalar_quoted isQuotable rest)
  | emptyList isBlanks =>
    intro later rest _
    rw [List.cons_append, List.append_assoc]
    exact skipAll_emptyList isBlanks rest
  | list areItems ih =>
    intro later rest _
    obtain ⟨first, following, opens, starts⟩ := areItems.exists_first_items (']' :: rest)
    rw [List.cons_append, List.append_assoc, List.singleton_append, skipAll_list opens, ih]
    rintro rfl
    exact absurd starts Bool.false_ne_true
  | emptyObject isBlanks =>
    intro later rest _
    rw [List.cons_append, List.append_assoc]
    exact skipAll_emptyObject isBlanks rest
  | object areMembers ih =>
    intro later rest _
    obtain ⟨following, opens⟩ := areMembers.exists_first_members ('\x7d' :: rest)
    obtain ⟨behindName, skipped, goesOn⟩ := ih later rest
    rw [List.cons_append, List.append_assoc, List.singleton_append, skipAll_object opens skipped,
      goesOn]
  | padded before _ after ih =>
    intro later rest ends
    refine ⟨_, after, ?_⟩
    rw [List.append_assoc, skipAll_blanks before, List.append_assoc, ih _ _ (ends.append after)]
  | lastItem _ ih =>
    intro later rest
    obtain ⟨after, isBlanks, skipped⟩ :=
      ih (.restOfList :: later) (']' :: rest) (ends_of_separator ']' (by simp) rest)
    rw [skipped, (skipAll_restOfList isBlanks rest).2]
  | item _ _ ih ihRest =>
    intro later rest
    obtain ⟨after, isBlanks, skipped⟩ :=
      ih (.restOfList :: later) _ (ends_of_separator ',' (by simp) _)
    rw [List.append_assoc, List.cons_append, skipped, (skipAll_restOfList isBlanks _).1, ihRest]
  | lastMember isName _ ih =>
    intro later rest
    obtain ⟨after, isBlanks, skipped⟩ :=
      ih (.restOfObject :: later) ('\x7d' :: rest) (ends_of_separator '\x7d' (by simp) rest)
    refine ⟨_, by rw [List.append_assoc, skipName_append isName], ?_⟩
    rw [skipped, skipAll_endOfObject isBlanks]
  | member isName _ _ ih ihRest =>
    intro later rest
    obtain ⟨behindName, skippedName, goesOn⟩ := ihRest later rest
    obtain ⟨after, isBlanks, skipped⟩ :=
      ih (.restOfObject :: later) _ (ends_of_separator ',' (by simp) _)
    refine ⟨_, by rw [List.append_assoc, skipName_append isName], ?_⟩
    rw [List.append_assoc, List.cons_append, skipped, skipAll_restOfObject isBlanks skippedName,
      goesOn]

/-- A value in front of a text by which no number goes on is skipped. -/
theorem skipValue_append {before : List Char} (isBefore : IsBlanks before)
    (isValue : IsText .value text) (ends : Ends rest) :
    skipValue (before ++ (text ++ rest)) = .ok rest := by
  have skipped := isValue.isSkipped [] rest ends
  rw [skipValue, skipAll_blanks isBefore, skipped, skipAll]

end Complete

section Sound

/-- A text meets an expectation. -/
inductive Meets : Expectation → List Char → Prop
  | value {before value : List Char} : IsBlanks before → IsText .value value →
      Meets .value (before ++ value)
  | endOfList {before : List Char} : IsBlanks before → Meets .restOfList (before ++ [']'])
  | moreItems {before items : List Char} : IsBlanks before → IsText .items items →
      Meets .restOfList (before ++ ',' :: (items ++ [']']))
  | endOfObject {before : List Char} : IsBlanks before → Meets .restOfObject (before ++ ['\x7d'])
  | moreMembers {before members : List Char} : IsBlanks before → IsText .members members →
      Meets .restOfObject (before ++ ',' :: (members ++ ['\x7d']))

/-- A text meets several expectations, one after the other. -/
inductive MeetsAll : List Expectation → List Char → Prop
  | nil : MeetsAll [] []
  | cons {expectation : Expectation} {later : List Expectation} {piece rest : List Char} :
      Meets expectation piece → MeetsAll later rest →
      MeetsAll (expectation :: later) (piece ++ rest)

/-- Items complete a list of which the opening bracket has been skipped. -/
theorem exists_items_of_meetsAll {completed : List Char}
    (meets : MeetsAll (.value :: .restOfList :: later) completed) :
    ∃ items rest, IsText .items items ∧ MeetsAll later rest ∧
      completed = items ++ ']' :: rest := by
  cases meets with
  | cons isItem others =>
    cases isItem with
    | value before isValue =>
      cases others with
      | cons isRest others =>
        cases isRest with
        | endOfList after =>
          exact ⟨_, _, .lastItem (.padded before isValue after), others, by simp⟩
        | moreItems after areItems =>
          exact ⟨_, _, .item (.padded before isValue after) areItems, others, by simp⟩

/-- Members complete an object of which everything up to the colon of a name has been skipped. -/
theorem exists_members_of_meetsAll {name completed : List Char} (isName : IsName name)
    (meets : MeetsAll (.value :: .restOfObject :: later) completed) :
    ∃ members rest, IsText .members members ∧ MeetsAll later rest ∧
      name ++ completed = members ++ '\x7d' :: rest := by
  cases meets with
  | cons isMember others =>
    cases isMember with
    | value before isValue =>
      cases others with
      | cons isRest others =>
        cases isRest with
        | endOfObject after =>
          exact ⟨_, _, .lastMember isName (.padded before isValue after), others, by simp⟩
        | moreMembers after areMembers =>
          exact ⟨_, _, .member isName (.padded before isValue after) areMembers, others, by simp⟩

/-- What is skipped as a word, a number or a quoted text is a value. -/
theorem isText_of_skipScalar (found : skipScalar text = .ok rest) :
    ∃ value, IsText .value value ∧ text = value ++ rest := by
  cases text with
  | nil => cases found
  | cons first text =>
    simp only [skipScalar] at found
    split at found
    next isQuote =>
      obtain ⟨body, isQuotable, rfl⟩ := isQuotable_of_skipQuoted found
      exact ⟨_, .quoted isQuotable, by simp [isQuote]⟩
    next =>
      split at found
      next =>
        split at found
        next => cases found
        next scanned =>
          cases found
          obtain ⟨written, isWritten, isText⟩ := isWrittenAs_of_scanNumber scanned
          exact ⟨written, .number isWritten, isText⟩
      next =>
        split at found
        next isN => exact ⟨_, .nullWord, by rw [isN, eq_append_of_expectWord found]; rfl⟩
        next =>
          split at found
          next isT => exact ⟨_, .trueWord, by rw [isT, eq_append_of_expectWord found]; rfl⟩
          next =>
            split at found
            next isF => exact ⟨_, .falseWord, by rw [isF, eq_append_of_expectWord found]; rfl⟩
            next => cases found

/-- A piece with which a text begins that meets an expectation, if what comes behind the piece
meets what the expectation gives rise to. -/
def Begins (expectation : Expectation) (further : List Expectation) (piece : List Char) : Prop :=
  ∀ later completed, MeetsAll (further ++ later) completed →
    MeetsAll (expectation :: later) (piece ++ completed)

section Begins

variable {before piece name : List Char} {further : List Expectation}

/-- What meets an expectation gives rise to nothing else. -/
theorem Meets.begins (meets : Meets expectation piece) : Begins expectation [] piece :=
  fun _ _ => .cons meets

theorem begins_list (isBefore : IsBlanks before) :
    Begins .value [.value, .restOfList] (before ++ ['[']) := by
  intro later completed meets
  obtain ⟨items, remaining, areItems, others, rfl⟩ := exists_items_of_meetsAll meets
  simpa using MeetsAll.cons (.value isBefore (.list areItems)) others

theorem begins_object (isBefore : IsBlanks before) (isName : IsName name) :
    Begins .value [.value, .restOfObject] (before ++ '\x7b' :: name) := by
  intro later completed meets
  obtain ⟨members, remaining, areMembers, others, isCompleted⟩ :=
    exists_members_of_meetsAll isName meets
  rw [List.append_assoc, List.cons_append, isCompleted]
  simpa using MeetsAll.cons (.value isBefore (.object areMembers)) others

theorem begins_moreItems (isBefore : IsBlanks before) :
    Begins .restOfList [.value, .restOfList] (before ++ [',']) := by
  intro later completed meets
  obtain ⟨items, remaining, areItems, others, rfl⟩ := exists_items_of_meetsAll meets
  simpa using MeetsAll.cons (.moreItems isBefore areItems) others

theorem begins_moreMembers (isBefore : IsBlanks before) (isName : IsName name) :
    Begins .restOfObject [.value, .restOfObject] (before ++ ',' :: name) := by
  intro later completed meets
  obtain ⟨members, remaining, areMembers, others, isCompleted⟩ :=
    exists_members_of_meetsAll isName meets
  rw [List.append_assoc, List.cons_append, isCompleted]
  simpa using MeetsAll.cons (.moreMembers isBefore areMembers) others

/-- A value is skipped at once, or begun when it is a list or an object that is not empty. -/
theorem piece_of_meet_value (met : meet .value text = .ok (further, rest)) :
    ∃ piece, text = piece ++ rest ∧ Begins .value further piece := by
  obtain ⟨before, isBefore, isText⟩ := exists_dropBlanks text
  cases dropped : dropBlanks text with
  | nil =>
    simp only [meet, dropped] at met
    cases met
  | cons first following =>
    rw [dropped] at isText
    simp only [meet, dropped] at met
    obtain ⟨inner, isInner, isFollowing⟩ := exists_dropBlanks following
    split at met
    next isBracket =>
      subst isBracket
      split at met
      next closes =>
        cases met
        rw [closes] at isFollowing
        exact ⟨before ++ '[' :: (inner ++ [']']), by simp [isText, isFollowing],
          (Meets.value isBefore (.emptyList isInner)).begins⟩
      next =>
        cases met
        exact ⟨before ++ ['['], by simp [isText], begins_list isBefore⟩
    next =>
      split at met
      next isBrace =>
        subst isBrace
        split at met
        next closes =>
          cases met
          rw [closes] at isFollowing
          exact ⟨before ++ '\x7b' :: (inner ++ ['\x7d']), by simp [isText, isFollowing],
            (Meets.value isBefore (.emptyObject isInner)).begins⟩
        next =>
          split at met
          next => cases met
          next skipped =>
            cases met
            obtain ⟨name, isName, rfl⟩ := exists_of_skipName skipped
            exact ⟨before ++ '\x7b' :: name, by simp [isText], begins_object isBefore isName⟩
      next =>
        split at met
        next => cases met
        next skipped =>
          cases met
          obtain ⟨value, isValue, isSkipped⟩ := isText_of_skipScalar skipped
          exact ⟨before ++ value, by simp [isText, isSkipped],
            (Meets.value isBefore isValue).begins⟩

/-- Behind an item the end of the list is skipped, or the comma in front of more items. -/
theorem piece_of_meet_restOfList (met : meet .restOfList text = .ok (further, rest)) :
    ∃ piece, text = piece ++ rest ∧ Begins .restOfList further piece := by
  obtain ⟨before, isBefore, isText⟩ := exists_dropBlanks text
  cases dropped : dropBlanks text with
  | nil =>
    simp only [meet, dropped] at met
    cases met
  | cons first following =>
    rw [dropped] at isText
    simp only [meet, dropped] at met
    split at met
    next isComma =>
      cases met
      exact ⟨before ++ [','], by simp [isText, isComma], begins_moreItems isBefore⟩
    next =>
      split at met
      next closes =>
        cases met
        exact ⟨before ++ [']'], by simp [isText, closes], (Meets.endOfList isBefore).begins⟩
      next => cases met

/-- Behind a member the end of the object is skipped, or the comma and the name in front of the
next value. -/
theorem piece_of_meet_restOfObject (met : meet .restOfObject text = .ok (further, rest)) :
    ∃ piece, text = piece ++ rest ∧ Begins .restOfObject further piece := by
  obtain ⟨before, isBefore, isText⟩ := exists_dropBlanks text
  cases dropped : dropBlanks text with
  | nil =>
    simp only [meet, dropped] at met
    cases met
  | cons first following =>
    rw [dropped] at isText
    simp only [meet, dropped] at met
    split at met
    next isComma =>
      split at met
      next => cases met
      next skipped =>
        cases met
        obtain ⟨name, isName, rfl⟩ := exists_of_skipName skipped
        exact ⟨before ++ ',' :: name, by simp [isText, isComma],
          begins_moreMembers isBefore isName⟩
    next =>
      split at met
      next closes =>
        cases met
        exact ⟨before ++ ['\x7d'], by simp [isText, closes], (Meets.endOfObject isBefore).begins⟩
      next => cases met

/-- What is skipped when an expectation is met begins a text that meets it. -/
theorem piece_of_meet (met : meet expectation text = .ok (further, rest)) :
    ∃ piece, text = piece ++ rest ∧ Begins expectation further piece := by
  cases expectation with
  | value => exact piece_of_meet_value met
  | restOfList => exact piece_of_meet_restOfList met
  | restOfObject => exact piece_of_meet_restOfObject met

end Begins

/-- What is skipped meets what was expected. -/
theorem meetsAll_of_skipAll {expectations : List Expectation}
    (skipped : skipAll expectations text = .ok rest) :
    ∃ skippedText, MeetsAll expectations skippedText ∧ text = skippedText ++ rest := by
  fun_induction skipAll expectations text with
  | case1 =>
    cases skipped
    exact ⟨[], .nil, rfl⟩
  | case2 => cases skipped
  | case3 text expectation later further remainder met ih =>
    obtain ⟨completed, meets, isCompleted⟩ := ih skipped
    obtain ⟨piece, rfl, extend⟩ := piece_of_meet met
    exact ⟨piece ++ completed, extend later completed meets, by rw [isCompleted, List.append_assoc]⟩

/-- What is skipped as a value is one, behind blanks. -/
theorem isText_of_skipValue (skipped : skipValue text = .ok rest) :
    ∃ before value, IsBlanks before ∧ IsText .value value ∧ text = before ++ (value ++ rest) := by
  obtain ⟨skippedText, meets, isText⟩ := meetsAll_of_skipAll skipped
  cases meets with
  | cons isFirst others =>
    cases others
    cases isFirst with
    | value before isValue => exact ⟨_, _, before, isValue, by simp [isText]⟩

end Sound

end SweptCache.Json
