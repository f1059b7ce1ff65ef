import SweptCache.Json.Number

/-!
# Skipping values

A value whose content does not matter is skipped, however deeply it nests. What
is still to come is kept as a list of `Expectation`s, the next one first: a
value, or the remainder of a list or object of which some part has been
skipped. Each expectation that is met leaves less text.
-/

namespace SweptCache.Json

/-- What has to follow in a text of which a part has been skipped. -/
inductive Expectation where
  /-- A value. -/
  | value
  /-- More items of a list, or its end. -/
  | restOfList
  /-- More members of an object, or its end. -/
  | restOfObject
  deriving DecidableEq, Repr

/-- The text behind a word, a number or a quoted text. -/
def skipScalar (text : List Char) : Except Fault (List Char) :=
  match text with
  | [] => .error .truncated
  | first :: rest =>
    if first = '"' then skipQuoted rest
    else if startsNumber first then
      match scanNumber .malformed text with
      | .error fault => .error fault
      | .ok (_, rest) => .ok rest
    else if first = 'n' then expectWord ['u', 'l', 'l'] rest
    else if first = 't' then expectWord ['r', 'u', 'e'] rest
    else if first = 'f' then expectWord ['a', 'l', 's', 'e'] rest
    else .error .malformed

theorem skipScalar_length_lt {text rest : List Char} (found : skipScalar text = .ok rest) :
    rest.length < text.length := by
  cases text with
  | nil => cases found
  | cons first text =>
    simp only [skipScalar] at found
    split at found
    · have shorter := skipQuoted_length_lt found
      simp only [List.length_cons]
      omega
    · split at found
      · split at found
        · cases found
        · next scanned =>
          cases found
          exact scanNumber_length_lt scanned
      · split at found
        · have noLonger := expectWord_length_le found
          simp only [List.length_cons]
          omega
        · split at found
          · have noLonger := expectWord_length_le found
            simp only [List.length_cons]
            omega
          · split at found
            · have noLonger := expectWord_length_le found
              simp only [List.length_cons]
              omega
            · cases found

/-- The text behind the colon that follows a quoted name. -/
def expectColon (text : List Char) : Except Fault (List Char) :=
  match dropBlanks text with
  | [] => .error .truncated
  | first :: rest => if first = ':' then .ok rest else .error .malformed

theorem expectColon_length_lt {text rest : List Char} (found : expectColon text = .ok rest) :
    rest.length < text.length := by
  unfold expectColon at found
  have noLonger := dropBlanks_length_le text
  split at found
  · cases found
  · next blanks =>
    split at found
    · cases found
      rw [blanks] at noLonger
      simp only [List.length_cons] at noLonger
      omega
    · cases found

/-- The text behind the name of a member and its colon. -/
def skipName (text : List Char) : Except Fault (List Char) :=
  match dropBlanks text with
  | [] => .error .truncated
  | first :: rest =>
    if first = '"' then
      match skipQuoted rest with
      | .error fault => .error fault
      | .ok rest => expectColon rest
    else .error .malformed

theorem skipName_length_lt {text rest : List Char} (found : skipName text = .ok rest) :
    rest.length < text.length := by
  unfold skipName at found
  have noLonger := dropBlanks_length_le text
  split at found
  · cases found
  · next blanks =>
    rw [blanks] at noLonger
    simp only [List.length_cons] at noLonger
    split at found
    · split at found
      · cases found
      · next skipped =>
        have shorter := skipQuoted_length_lt skipped
        have shorterStill := expectColon_length_lt found
        omega
    · cases found

/-- One expectation met: what it gives rise to, and the text behind what was skipped. -/
def meet (expectation : Expectation) (text : List Char) :
    Except Fault (List Expectation × List Char) :=
  match expectation, dropBlanks text with
  | _, [] => .error .truncated
  | .value, first :: rest =>
    if first = '[' then
      match dropBlanks rest with
      | ']' :: rest => .ok ([], rest)
      | _ => .ok ([.value, .restOfList], rest)
    else if first = '\x7b' then
      match dropBlanks rest with
      | '\x7d' :: rest => .ok ([], rest)
      | _ =>
        match skipName rest with
        | .error fault => .error fault
        | .ok rest => .ok ([.value, .restOfObject], rest)
    else
      match skipScalar (first :: rest) with
      | .error fault => .error fault
      | .ok rest => .ok ([], rest)
  | .restOfList, first :: rest =>
    if first = ',' then .ok ([.value, .restOfList], rest)
    else if first = ']' then .ok ([], rest)
    else .error .malformed
  | .restOfObject, first :: rest =>
    if first = ',' then
      match skipName rest with
      | .error fault => .error fault
      | .ok rest => .ok ([.value, .restOfObject], rest)
    else if first = '\x7d' then .ok ([], rest)
    else .error .malformed

theorem meet_length_lt {expectation : Expectation} {further : List Expectation}
    {text rest : List Char} (met : meet expectation text = .ok (further, rest)) :
    rest.length < text.length := by
  have noLonger := dropBlanks_length_le text
  unfold meet at met
  split at met
  · cases met
  · next first following blanks =>
    rw [blanks] at noLonger
    simp only [List.length_cons] at noLonger
    split at met
    · have nested := dropBlanks_length_le following
      split at met
      · next closed =>
        cases met
        rw [closed] at nested
        simp only [List.length_cons] at nested
        omega
      · cases met
        omega
    · split at met
      · have nested := dropBlanks_length_le following
        split at met
        · next closed =>
          cases met
          rw [closed] at nested
          simp only [List.length_cons] at nested
          omega
        · split at met
          · cases met
          · next skipped =>
            cases met
            have shorter := skipName_length_lt skipped
            omega
      · split at met
        · cases met
        · next skipped =>
          cases met
          have shorter := skipScalar_length_lt skipped
          simp only [List.length_cons] at shorter
          omega
  · next blanks =>
    rw [blanks] at noLonger
    simp only [List.length_cons] at noLonger
    split at met
    · cases met
      omega
    · split at met
      · cases met
        omega
      · cases met
  · next blanks =>
    rw [blanks] at noLonger
    simp only [List.length_cons] at noLonger
    split at met
    · split at met
      · cases met
      · next skipped =>
        cases met
        have shorter := skipName_length_lt skipped
        omega
    · split at met
      · cases met
        omega
      · cases met

/-- The text behind all that is expected. -/
def skipAll (expectations : List Expectation) (text : List Char) : Except Fault (List Char) :=
  match expectations with
  | [] => .ok text
  | expectation :: later =>
    match _met : meet expectation text with
    | .error fault => .error fault
    | .ok (further, rest) => skipAll (further ++ later) rest
termination_by text.length
decreasing_by exact meet_length_lt _met

/-- The text behind one value. -/
def skipValue (text : List Char) : Except Fault (List Char) := skipAll [.value] text

theorem skipAll_length_le {expectations : List Expectation} {text rest : List Char}
    (skipped : skipAll expectations text = .ok rest) : rest.length ≤ text.length := by
  fun_induction skipAll expectations text with
  | case1 =>
    cases skipped
    exact Nat.le_refl _
  | case2 => cases skipped
  | case3 text expectation later further remainder met ih =>
    have shorter := meet_length_lt met
    have noLonger := ih skipped
    omega

theorem skipValue_length_lt {text rest : List Char} (skipped : skipValue text = .ok rest) :
    rest.length < text.length := by
  unfold skipValue skipAll at skipped
  split at skipped
  · cases skipped
  · next met =>
    have shorter := meet_length_lt met
    have noLonger := skipAll_length_le skipped
    omega

end SweptCache.Json
