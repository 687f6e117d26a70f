/-! # Flags of patterns

    Flags change how the rest of the group is understood. `(?im-s)` switches the
    flags before the hyphen on and those behind it off.
-/

namespace IndexQuery.Regex

/-- A flag of a pattern. -/
inductive Flag where
  /-- Characters stand for all that agree with them up to case. -/
  | ignoreCase
  /-- `^` and `$` hold at the ends of lines. -/
  | multiLine
  /-- `.` stands for line feeds too. -/
  | dotAll
  /-- Repetitions prefer to be short, and those marked as short do not. -/
  | shortest
  /-- Lines may end in carriage returns. -/
  | carriageReturn
  /-- Blanks and comments between the items do not count. -/
  | verbose
  /-- Classes are those of Unicode, not of ASCII. -/
  | unicode
deriving DecidableEq, Repr, Inhabited

/-- The flags in force at a place of a pattern. -/
abbrev Flags := List Flag

namespace Flags

/-- The flags in force at the start. -/
def initial : Flags := [.unicode]

/-- Whether case does not matter. -/
def fold (flags : Flags) : Bool := flags.contains .ignoreCase

/-- Whether blanks do not count. -/
def verbose (flags : Flags) : Bool := flags.contains .verbose

/-- Whether only ASCII characters belong to classes. -/
def ascii (flags : Flags) : Bool := !flags.contains .unicode

end Flags

/-- The flag of a letter. -/
def Flag.ofLetter? : Char → Option Flag
  | 'i' => some .ignoreCase
  | 'm' => some .multiLine
  | 's' => some .dotAll
  | 'U' => some .shortest
  | 'R' => some .carriageReturn
  | 'x' => some .verbose
  | 'u' => some .unicode
  | _ => none

/-- A change of flags. -/
structure FlagChange where
  on : List Flag := []
  off : List Flag := []
deriving DecidableEq, Repr, Inhabited

namespace FlagChange

/-- Several flags, each of them once. -/
def flags? (letters : List Char) : Option (List Flag) := do
  let flags ← letters.mapM Flag.ofLetter?
  if flags.eraseDups = flags then some flags else none

/-- The change that some letters and hyphens write. At most one hyphen may occur,
    with a letter behind it, and no flag twice. -/
def ofText? (text : List Char) : Option FlagChange := do
  let on := text.takeWhile (· ≠ '-')
  match text.dropWhile (· ≠ '-') with
  | [] => return { on := ← flags? on }
  | _ :: off =>
    let _ ← flags? (on ++ off)
    let off ← flags? off
    if off.isEmpty then none else return { on := ← flags? on, off }

/-- Whether nothing changes. -/
def isEmpty (change : FlagChange) : Bool := change.on.isEmpty && change.off.isEmpty

/-- The flags after the change. -/
def apply (change : FlagChange) (flags : Flags) : Flags :=
  flags.filter (!change.off.contains ·) ++ change.on

end FlagChange

end IndexQuery.Regex
