/-! # Alphabets of fixed-length values

    The values of a fixed-length field all have the same width and draw their
    characters from one alphabet. They count like numbers in the base of the
    alphabet, so each has a next and a previous one, save the last and the first.
-/

namespace IndexQuery

/-- The character sets of fixed-length fields. -/
inductive Alphabet where
  /-- Digits and the letters from `a` to `f`. -/
  | hex
  /-- Digits. -/
  | decimal
  /-- The letters from `a` to `z`. -/
  | lowerAlpha
  /-- Printable ASCII, from the space to the tilde. -/
  | ascii
deriving DecidableEq, Repr, Inhabited

namespace Alphabet

/-- Every alphabet. -/
def all : List Alphabet := [.hex, .decimal, .lowerAlpha, .ascii]

/-- The name of an alphabet in configurations. -/
def name : Alphabet → String
  | .hex => "hex"
  | .decimal => "decimal"
  | .lowerAlpha => "lower_alpha"
  | .ascii => "ascii"

/-- The alphabet with a given name. -/
def ofName? (name : String) : Option Alphabet := all.find? (·.name == name)

/-- The ranges of characters that make up the alphabet, in ascending order. -/
def ranges : Alphabet → List (Char × Char)
  | .hex => [('0', '9'), ('a', 'f')]
  | .decimal => [('0', '9')]
  | .lowerAlpha => [('a', 'z')]
  | .ascii => [(' ', '~')]

/-- Whether a character belongs to the alphabet. -/
def contains (a : Alphabet) (c : Char) : Bool :=
  a.ranges.any fun (lo, hi) => lo ≤ c && c ≤ hi

/-- The least character. -/
def least : Alphabet → Char
  | .hex | .decimal => '0'
  | .lowerAlpha => 'a'
  | .ascii => ' '

/-- The greatest character. -/
def greatest : Alphabet → Char
  | .hex => 'f'
  | .decimal => '9'
  | .lowerAlpha => 'z'
  | .ascii => '~'

/-- The next character of some ascending ranges. -/
def nextIn (c : Char) : List (Char × Char) → Option Char
  | [] => none
  | (lo, hi) :: rest =>
    if lo ≤ c && c ≤ hi then
      if c < hi then some (Char.ofNat (c.toNat + 1)) else rest.head?.map (·.1)
    else nextIn c rest

/-- The previous character of some ascending ranges; `below` is the greatest one
    before them. -/
def previousIn (below : Option Char) (c : Char) : List (Char × Char) → Option Char
  | [] => none
  | (lo, hi) :: rest =>
    if lo ≤ c && c ≤ hi then
      if lo < c then some (Char.ofNat (c.toNat - 1)) else below
    else previousIn (some hi) c rest

/-- The next character of the alphabet. -/
def successor (a : Alphabet) (c : Char) : Option Char := nextIn c a.ranges

/-- The previous character of the alphabet. -/
def predecessor (a : Alphabet) (c : Char) : Option Char := previousIn none c a.ranges

/-! ## Counting -/

/-- Steps the last character that `step` can step, and sets those after it to
    `fill`, as in a carry. -/
def stepWith (step : Char → Option Char) (fill : Char) : List Char → Option (List Char)
  | [] => none
  | c :: rest =>
    match stepWith step fill rest with
    | some rest => some (c :: rest)
    | none => (step c).map fun c => c :: rest.map fun _ => fill

/-- Whether a text is a value over the alphabet. -/
def isValue (a : Alphabet) (text : List Char) : Bool := !text.isEmpty && text.all a.contains

/-- The next value of the same width; there is none after the last one, and none
    for what is no value. -/
def increment (a : Alphabet) (value : String) : Option String :=
  if a.isValue value.toList then
    (stepWith a.successor a.least value.toList).map String.ofList
  else none

/-- The previous value of the same width; there is none before the first one, and
    none for what is no value. -/
def decrement (a : Alphabet) (value : String) : Option String :=
  if a.isValue value.toList then
    (stepWith a.predecessor a.greatest value.toList).map String.ofList
  else none

end Alphabet

end IndexQuery
