import IndexQuery.Unicode.Blank
import IndexQuery.Unicode.Digit
import IndexQuery.Unicode.Mark

/-! # Classes of characters with a name

    Patterns name classes of characters by a letter behind a backslash, by a
    property of the character database, or by a word for ASCII characters.
-/

namespace IndexQuery

/-- A class of characters with a name. -/
inductive NamedClass where
  /-- Decimal digits of any script. -/
  | digit
  | space
  /-- Characters of words: alphabetic characters, marks, decimal digits,
      connectors and joiners. -/
  | word
  | letter
  | mark
  | number
  | alphabetic
deriving DecidableEq, Repr, Inhabited

namespace NamedClass

open Unicode

/-- The decimal digits. -/
def digits : CharSet := inPatterns decimalDigits

/-- The letters. -/
def letters : CharSet := inPatterns Unicode.letters

/-- The marks. -/
def marks : CharSet := inPatterns Unicode.marks

/-- The numeric characters. -/
def numbers : CharSet := inPatterns ((decimalDigits.union letterNumbers).union otherNumbers)

/-- The alphabetic characters. -/
def alphabetics : CharSet := inPatterns ((Unicode.letters.union letterNumbers).union otherAlphabetic)

/-- The characters of words. -/
def wordCharacters : CharSet :=
  ((alphabetics.union marks).union digits).union (inPatterns (connectors.union joinControls))

/-- The members of the class. -/
def set : NamedClass → CharSet
  | .digit => digits
  | .space => blanks
  | .word => wordCharacters
  | .letter => letters
  | .mark => marks
  | .number => numbers
  | .alphabetic => alphabetics

end NamedClass

namespace CharSet

/-! ## Classes of ASCII characters -/

/-- The ASCII digits. -/
def asciiDigits : CharSet := ⟨[(0x30, 0x39)]⟩

/-- The ASCII white space. -/
def asciiSpaces : CharSet := ⟨[(0x9, 0xD), (0x20, 0x20)]⟩

/-- The ASCII characters of words. -/
def asciiWord : CharSet := ⟨[(0x30, 0x39), (0x41, 0x5A), (0x5F, 0x5F), (0x61, 0x7A)]⟩

/-- A class of ASCII characters by its name. -/
def ascii? : String → Option CharSet
  | "alnum" => some ⟨[(0x30, 0x39), (0x41, 0x5A), (0x61, 0x7A)]⟩
  | "alpha" => some ⟨[(0x41, 0x5A), (0x61, 0x7A)]⟩
  | "ascii" => some ⟨[(0, 0x7F)]⟩
  | "blank" => some ⟨[(0x9, 0x9), (0x20, 0x20)]⟩
  | "cntrl" => some ⟨[(0, 0x1F), (0x7F, 0x7F)]⟩
  | "digit" => some asciiDigits
  | "graph" => some ⟨[(0x21, 0x7E)]⟩
  | "lower" => some ⟨[(0x61, 0x7A)]⟩
  | "print" => some ⟨[(0x20, 0x7E)]⟩
  | "punct" => some ⟨[(0x21, 0x2F), (0x3A, 0x40), (0x5B, 0x60), (0x7B, 0x7E)]⟩
  | "space" => some asciiSpaces
  | "upper" => some ⟨[(0x41, 0x5A)]⟩
  | "word" => some asciiWord
  | "xdigit" => some ⟨[(0x30, 0x39), (0x41, 0x46), (0x61, 0x66)]⟩
  | _ => Option.none

/-- The set with the other case of its ASCII letters. -/
def foldAscii (s : CharSet) : CharSet :=
  let letters := s.inter ⟨[(0x41, 0x5A), (0x61, 0x7A)]⟩
  let flipped := letters.ranges.flatMap fun (lo, hi) =>
    (List.range (hi - lo + 1)).map fun k =>
      let n := lo + k
      if n < 0x60 then (n + 0x20, n + 0x20) else (n - 0x20, n - 0x20)
  s.union ⟨flipped⟩

/-- The members of a named class among the ASCII characters. -/
def asciiOf : NamedClass → CharSet
  | .digit => asciiDigits
  | .space => asciiSpaces
  | .word => asciiWord
  | named => named.set.inter ⟨[(0, 0x7F)]⟩

end CharSet

end IndexQuery
