import IndexQuery.Regex.Basic
import IndexQuery.Regex.Class

/-! # Tokens of patterns

    A token is what a pattern is read in: what stands for itself, a repetition, or
    a sign that opens, divides or closes a group.
-/

namespace IndexQuery.Regex

/-- A unit of a pattern. -/
inductive Token where
  /-- What stands for itself, given the flags. -/
  | piece (r : Nested Regex)
  | repetition (least : Nat) (most : Option Nat) (short : Bool)
  | bar
  /-- The beginning of a group, with a number unless flags or a colon say
      otherwise. -/
  | openGroup (numbered : Bool) (change : FlagChange) (name : Option String)
  | closeGroup
  /-- A change of flags for the rest of the group. -/
  | setFlags (change : FlagChange)
deriving DecidableEq, Repr, Inhabited

/-! ## Repetitions -/

/-- The count of a repetition, with blanks around it. -/
def readCount (verbose : Bool) (cs : List Char) : Option (Nat × List Char) :=
  let (digits, rest) := readWhile verbose Char.isDigit false (Unicode.trimStart cs)
  let n := digits.foldl (fun n c => 10 * n + (c.toNat - '0'.toNat)) 0
  if digits.isEmpty || 4294967296 ≤ n then none else some (n, Unicode.trimStart rest)

/-- The counts of a repetition, behind the opening brace: exactly `n`, `n,` for at
    least, `n,m` for between. -/
def readCounts (verbose : Bool) (cs : List Char) : Option ((Nat × Option Nat) × List Char) := do
  let (least, rest) ← readCount verbose (skip verbose cs)
  match rest with
  | '\x7d' :: rest => return ((least, some least), rest)
  | ',' :: rest =>
    match skip verbose rest with
    | '\x7d' :: rest => return ((least, none), rest)
    | rest =>
      match ← readCount verbose rest with
      | (most, '\x7d' :: rest) => if least ≤ most then return ((least, some most), rest) else none
      | _ => none
  | _ => none

/-- A repetition, up to the mark behind it that says that it prefers to be short. -/
def readRepetition (flags : Flags) (least : Nat) (most : Option Nat) (cs : List Char) :
    Token × List Char :=
  let repetition (marked : Bool) : Token :=
    .repetition least most (marked != flags.contains .shortest)
  match cs with
  | '?' :: rest => (repetition true, rest)
  | rest => (repetition false, rest)

/-! ## Groups -/

/-- Whether text can name a group. -/
def isGroupName : List Char → Bool
  | [] => false
  | c :: cs =>
    (c == '_' || Unicode.isAlphabetic c) &&
      cs.all fun c => ['_', '.', '[', ']'].contains c || Unicode.isAlphanumeric c

/-- The name of a group, up to a closing angle. -/
def readGroupName (cs : List Char) : Option (Token × List Char) :=
  let name := cs.takeWhile (· ≠ '>')
  match cs.dropWhile (· ≠ '>') with
  | [] => none
  | _ :: rest =>
    if isGroupName name then some (.openGroup true {} (some (String.ofList name)), rest) else none

/-- Whether a character ends a list of flags. -/
def endsFlags (c : Char) : Bool := c == ':' || c == ')'

/-- Flags, which end with the group or begin one. -/
def readFlags (cs : List Char) : Option (Token × List Char) := do
  let change ← FlagChange.ofText? (cs.takeWhile (!endsFlags ·))
  match cs.dropWhile (!endsFlags ·) with
  | [] => none
  | c :: rest =>
    if c = ':' then return (.openGroup false change none, rest)
    else if change.isEmpty then none
    else return (.setFlags change, rest)

/-- What follows an opening parenthesis. -/
def readGroup (verbose : Bool) (cs : List Char) : Option (Token × List Char) :=
  match skip verbose cs with
  | '?' :: 'P' :: '<' :: rest => readGroupName rest
  | '?' :: '<' :: rest => readGroupName rest
  | '?' :: rest => readFlags rest
  | rest => some (.openGroup true {} none, rest)

/-! ## All tokens -/

/-- What `.` stands for. With ASCII classes that would be any byte, which belongs
    to no character. -/
def dot? (flags : Flags) : Option CharSet :=
  if flags.ascii then none
  else if flags.contains .dotAll then some .all
  else if flags.contains .carriageReturn then
    some ((CharSet.single '\n').union (.single '\r')).complement
  else some (CharSet.single '\n').complement

/-- What `^` stands for. -/
def caret (flags : Flags) : Assertion :=
  if !flags.contains .multiLine then .textStart
  else if flags.contains .carriageReturn then .returnLineStart
  else .lineStart

/-- What `$` stands for. -/
def dollar (flags : Flags) : Assertion :=
  if !flags.contains .multiLine then .textEnd
  else if flags.contains .carriageReturn then .returnLineEnd
  else .lineEnd

/-- What a character that stands for itself matches. -/
def literal (flags : Flags) (c : Char) : Regex := .chars (foldedBy flags (.single c))

/-- What an escape matches. -/
def ofEscape (flags : Flags) : Escape → Regex
  | .char c => literal flags c
  | .set members => .chars members
  | .look a => .look a

/-- The token that `c` begins, in a text with no more than `bound` characters. -/
def readToken (table : PropertyTable) (flags : Flags) (bound : Nat) (c : Char) (cs : List Char) :
    Option (Token × List Char) :=
  let here (t : Token) : Option (Token × List Char) := some (t, cs)
  let piece (r : Regex) : Token := .piece ⟨r, 0⟩
  match c with
  | '(' => readGroup flags.verbose cs
  | ')' => here .closeGroup
  | '|' => here .bar
  | '*' => some (readRepetition flags 0 none cs)
  | '+' => some (readRepetition flags 1 none cs)
  | '?' => some (readRepetition flags 0 (some 1) cs)
  | '\x7b' =>
    (readCounts flags.verbose cs).map fun ((least, most), rest) =>
      readRepetition flags least most (skip flags.verbose rest)
  | '[' =>
    (readClass table flags bound cs).map fun (set, rest) => (.piece ⟨.chars set.value, set.depth⟩, rest)
  | '.' => (dot? flags).bind fun set => here (piece (.chars set))
  | '^' => here (piece (.look (caret flags)))
  | '$' => here (piece (.look (dollar flags)))
  | '\\' =>
    match cs with
    | [] => none
    | e :: cs =>
      (readEscape table flags e cs).map fun (escape, rest) => (piece (ofEscape flags escape), rest)
  | c => here (piece (literal flags c))

end IndexQuery.Regex
