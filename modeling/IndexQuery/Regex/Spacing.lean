import IndexQuery.Unicode.Blank

/-! # Blanks in verbose patterns

    In a verbose pattern blanks and comments can stand between the characters. A
    comment begins with `#` and ends with its line.
-/

namespace IndexQuery.Regex

/-- The text behind blanks and comments. -/
def skipBlanks (inComment : Bool) : List Char → List Char
  | [] => []
  | c :: cs =>
    if inComment then skipBlanks (c ≠ '\n') cs
    else if Unicode.isBlank c then skipBlanks false cs
    else if c = '#' then skipBlanks true cs
    else c :: cs

/-- The text behind what does not count in a verbose pattern. -/
def skip (verbose : Bool) (cs : List Char) : List Char :=
  if verbose then skipBlanks false cs else cs

/-- Reads characters as long as they pass a test, and in a verbose pattern what does
    not count before and behind each. -/
def readWhile (verbose : Bool) (test : Char → Bool) (inComment : Bool) :
    List Char → List Char × List Char
  | [] => ([], [])
  | c :: cs =>
    if verbose && inComment then readWhile verbose test (c ≠ '\n') cs
    else if verbose && Unicode.isBlank c then readWhile verbose test false cs
    else if verbose && c = '#' then readWhile verbose test true cs
    else if test c then
      let (read, rest) := readWhile verbose test false cs
      (c :: read, rest)
    else ([], c :: cs)

/-- What was skipped or left of a text is a part of its end. -/
theorem skipBlanks_suffix (inComment : Bool) (cs : List Char) : skipBlanks inComment cs <:+ cs := by
  induction cs generalizing inComment with
  | nil => exact List.nil_suffix
  | cons c cs ih =>
    unfold skipBlanks
    split
    · exact (ih _).trans (List.suffix_cons c cs)
    · split
      · exact (ih _).trans (List.suffix_cons c cs)
      · split
        · exact (ih _).trans (List.suffix_cons c cs)
        · exact List.suffix_rfl

end IndexQuery.Regex
