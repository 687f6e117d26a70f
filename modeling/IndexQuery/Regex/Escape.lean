import IndexQuery.Regex.Assertion
import IndexQuery.Regex.Flags
import IndexQuery.Regex.Property
import IndexQuery.Regex.Spacing
import IndexQuery.Unicode.Folding

/-! # Escapes in patterns

    A backslash protects the character behind it, or gives it a meaning.
-/

namespace IndexQuery.Regex

/-- What an escape stands for. -/
inductive Escape where
  | char (c : Char)
  | set (set : CharSet)
  | look (a : Assertion)
deriving DecidableEq, Repr, Inhabited

/-- The characters with a meaning of their own, within classes or outside. -/
def isSpecial (c : Char) : Bool :=
  ['\\', '.', '+', '*', '?', '(', ')', '|', '[', ']', '\x7b', '\x7d', '^', '$', '#', '&', '-',
   '~'].contains c

/-- The characters that a backslash protects although they need no protection. -/
def isProtectable (c : Char) : Bool :=
  c.toNat < 0x80 && !c.isAlphanum && c != '<' && c != '>'

/-! ## Numbers of characters -/

/-- The value of a hexadecimal digit. -/
def hexValue? (c : Char) : Option Nat :=
  if '0' ≤ c ∧ c ≤ '9' then some (c.toNat - '0'.toNat)
  else if 'a' ≤ c ∧ c ≤ 'f' then some (c.toNat - 'a'.toNat + 10)
  else if 'A' ≤ c ∧ c ≤ 'F' then some (c.toNat - 'A'.toNat + 10)
  else none

/-- The character with a hexadecimal number. -/
def charOfHex? (digits : List Char) : Option Char := do
  let values ← digits.mapM hexValue?
  let n := values.foldl (fun n v => 16 * n + v) 0
  if digits.isEmpty || !n.isValidChar then none else some (Char.ofNat n)

/-- Reads some hexadecimal digits, with blanks behind each. -/
def readDigits (verbose : Bool) : (width : Nat) → List Char → Option (List Char × List Char)
  | 0, cs => some ([], cs)
  | _ + 1, [] => none
  | width + 1, c :: cs =>
    (readDigits verbose width (skip verbose cs)).map fun (digits, rest) => (c :: digits, rest)

/-- Reads up to a closing brace. -/
def readBraced (verbose : Bool) (cs : List Char) : Option (List Char × List Char) :=
  match readWhile verbose (· ≠ '\x7d') false cs with
  | (inner, _ :: rest) => some (inner, rest)
  | (_, []) => none

/-- A character by its number: `width` digits, or any number of them in braces.
    Two digits without braces write a byte, which is no character of its own
    beyond ASCII where classes are those of ASCII. -/
def readHex (flags : Flags) (width : Nat) (cs : List Char) : Option (Char × List Char) :=
  match skip flags.verbose cs with
  | '\x7b' :: rest => do
    let (digits, rest) ← readBraced flags.verbose rest
    return (← charOfHex? digits, skip flags.verbose rest)
  | rest => do
    let (digits, rest) ← readDigits flags.verbose width rest
    let c ← charOfHex? digits
    if flags.ascii && width = 2 && 0x80 ≤ c.toNat then none else return (c, rest)

/-! ## Properties and boundaries -/

/-- A property: a letter, or a name in braces. -/
def readProperty (table : PropertyTable) (flags : Flags) (cs : List Char) : Option (CharSet × List Char) :=
  match skip flags.verbose cs with
  | [] => none
  | '\x7b' :: rest => do
    let (name, rest) ← readBraced flags.verbose rest
    return (← table name, rest)
  | c :: rest => do return (← table [c], rest)

/-- The kinds of word boundaries with a name. -/
def wordEdge? : String → Option WordEdge
  | "start" => some .start
  | "end" => some .finish
  | "start-half" => some .startHalf
  | "end-half" => some .finishHalf
  | _ => none

/-- The characters in the name of a kind of word boundary. -/
def isEdgeNamePart (c : Char) : Bool := c.isAlpha || c == '-'

/-- A word boundary, with its kind in braces behind it. A brace that no letter
    follows belongs to a repetition instead. -/
def readBoundary (flags : Flags) (cs : List Char) : Option (WordEdge × List Char) :=
  match cs with
  | '\x7b' :: inner =>
    match skip flags.verbose inner with
    | [] => none
    | c :: name =>
      if isEdgeNamePart c then
        match readWhile flags.verbose isEdgeNamePart false (c :: name) with
        | (name, '\x7d' :: rest) => (wordEdge? (String.ofList name)).map (·, rest)
        | _ => none
      else some (.boundary, cs)
  | _ => some (.boundary, cs)

/-! ## All escapes -/

/-- A class with a letter, or what it leaves out. With ASCII classes nothing may
    be left out: that would be bytes that belong to no character. -/
def perlClass? (flags : Flags) (named : NamedClass) (negated : Bool) : Option Escape :=
  if flags.ascii then if negated then none else some (.set (CharSet.asciiOf named))
  else some (.set (named.set.negatedIf negated))

/-- The escape that `c` behind a backslash begins. -/
def readEscape (table : PropertyTable) (flags : Flags) (c : Char) (cs : List Char) :
    Option (Escape × List Char) :=
  let here (e : Escape) : Option (Escape × List Char) := some (e, cs)
  let hex (width : Nat) : Option (Escape × List Char) :=
    (readHex flags width cs).map fun (c, rest) => (.char c, rest)
  let property (negated : Bool) : Option (Escape × List Char) :=
    if flags.ascii then none
    else
      (readProperty table flags cs).map fun (set, rest) =>
        (.set ((set.foldedIf flags.fold).negatedIf negated), rest)
  let named (name : NamedClass) (negated : Bool) : Option (Escape × List Char) :=
    (perlClass? flags name negated).bind here
  match c with
  | 'x' => hex 2
  | 'u' => hex 4
  | 'U' => hex 8
  | 'p' => property false
  | 'P' => property true
  | 'd' => named .digit false
  | 'D' => named .digit true
  | 's' => named .space false
  | 'S' => named .space true
  | 'w' => named .word false
  | 'W' => named .word true
  | 'a' => here (.char '\x07')
  | 'f' => here (.char '\x0c')
  | 't' => here (.char '\t')
  | 'n' => here (.char '\n')
  | 'r' => here (.char '\r')
  | 'v' => here (.char '\x0b')
  | 'A' => here (.look .textStart)
  | 'z' => here (.look .textEnd)
  | 'b' =>
    (readBoundary flags cs).map fun (edge, rest) => (.look (.word edge flags.ascii), rest)
  | 'B' => here (.look (.word .noBoundary flags.ascii))
  | '<' => here (.look (.word .start flags.ascii))
  | '>' => here (.look (.word .finish flags.ascii))
  | c => if isSpecial c || isProtectable c then here (.char c) else none

end IndexQuery.Regex
