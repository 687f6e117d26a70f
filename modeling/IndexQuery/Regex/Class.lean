import IndexQuery.Regex.Escape

/-! # Classes in brackets

    A class lists characters, ranges and other classes. `&&`, `--` and `~~` combine
    what stands before them with what follows, from left to right.
-/

namespace IndexQuery.Regex

/-- What was read of a pattern, with the number of levels it is nested in itself. -/
structure Nested (α : Type) where
  value : α
  depth : Nat := 0
deriving DecidableEq, Repr, Inhabited

/-- The depth of several parts that are read as one; a part alone adds no level. -/
def depthOfAll : List Nat → Nat
  | [] => 0
  | [depth] => depth
  | depths => depths.foldl max 0 + 1

/-! ## Classes that are open -/

/-- How two parts of a class are combined. -/
inductive ClassOp where
  | inter
  | diff
  | symmDiff
deriving DecidableEq, Repr, Inhabited

/-- The combination of two sets. -/
def ClassOp.combine : ClassOp → CharSet → CharSet → CharSet
  | .inter => .inter
  | .diff => .diff
  | .symmDiff => .symmDiff

/-- The set, closed under case if the flags say so. -/
def foldedBy (flags : Flags) (s : CharSet) : CharSet :=
  if flags.fold then if flags.ascii then s.foldAscii else s.foldCase else s

/-- The set or its complement. With ASCII classes there must be nothing beyond
    ASCII. -/
def negatedBy? (flags : Flags) (negated : Bool) (s : CharSet) : Option CharSet :=
  let s := (foldedBy flags s).negatedIf negated
  if flags.ascii && !s.isAscii then none else some s

/-- A class of which the beginning was read. -/
structure OpenClass where
  negated : Bool
  /-- What stands before the last operator. -/
  left : Option (ClassOp × Nested CharSet) := none
  /-- The ranges that were listed since. -/
  ranges : List (Nat × Nat) := []
  /-- The depths of the items that were listed since. -/
  depths : List Nat := []
deriving DecidableEq, Repr, Inhabited

namespace OpenClass

/-- The class with one more item. -/
def add (k : OpenClass) (item : Nested CharSet) : OpenClass :=
  { k with ranges := item.value.ranges ++ k.ranges, depths := item.depth :: k.depths }

/-- What the class stands for so far, but for a negation. -/
def value (flags : Flags) (k : OpenClass) : Nested CharSet :=
  let items := CharSet.ofRanges k.ranges
  let depth := depthOfAll k.depths
  match k.left with
  | none => ⟨items, depth⟩
  | some (op, left) =>
    ⟨op.combine (foldedBy flags left.value) (foldedBy flags items), max left.depth depth + 1⟩

/-- The class behind an operator. -/
def operator (flags : Flags) (k : OpenClass) (op : ClassOp) : OpenClass :=
  { k with left := some (op, k.value flags), ranges := [], depths := [] }

/-- The set that the class stands for once it is closed. -/
def close? (flags : Flags) (k : OpenClass) : Option (Nested CharSet) :=
  let v := k.value flags
  (negatedBy? flags k.negated v.value).map fun s => ⟨s, v.depth + 1⟩

end OpenClass

/-! ## Items -/

/-- A class of ASCII characters by its name, as in `[:alpha:]`, given the text
    behind the opening bracket. -/
def readAscii (cs : List Char) : Option ((Bool × CharSet) × List Char) :=
  match cs with
  | ':' :: cs =>
    let negated := cs.head? == some '^'
    let body := if negated then cs.tail else cs
    match body.dropWhile (· ≠ ':') with
    | ':' :: ']' :: rest =>
      (CharSet.ascii? (String.ofList (body.takeWhile (· ≠ ':')))).map fun set =>
        ((negated, set), rest)
    | _ => none
  | _ => none

/-- An item of a class: a character, or what an escape stands for. -/
def readItem (table : PropertyTable) (flags : Flags) (c : Char) (cs : List Char) :
    Option (Escape × List Char) :=
  if c = '\\' then
    match cs with
    | [] => none
    | e :: cs => readEscape table flags e cs
  else some (.char c, cs)

/-- The set of an item. A condition on a place is none, and with ASCII classes no
    other character is. -/
def Escape.set? (flags : Flags) : Escape → Option CharSet
  | .char c => if flags.ascii && 0x80 ≤ c.toNat then none else some (.single c)
  | .set members => some members
  | .look _ => none

/-- The range between two items, which have to be characters. -/
def Escape.rangeTo? (flags : Flags) : Escape → Escape → Option CharSet
  | .char lo, .char hi =>
    if hi < lo || (flags.ascii && 0x80 ≤ hi.toNat) then none else some ⟨[(lo.toNat, hi.toNat)]⟩
  | _, _ => none

/-- The character that decides whether a hyphen before it makes a range. A comment
    is looked into, not skipped. -/
def decisive? (verbose : Bool) (cs : List Char) : Option Char :=
  if verbose then
    match cs.filter fun c => !Unicode.isBlank c with
    | '#' :: c :: _ => some c
    | ['#'] | [] => cs.head?
    | c :: _ => some c
  else cs.head?

/-- An item of a class or a range between two of them. -/
def readRange (table : PropertyTable) (flags : Flags) (c : Char) (cs : List Char) :
    Option (CharSet × List Char) := do
  let (first, rest) ← readItem table flags c cs
  match skip flags.verbose rest with
  | '-' :: afterHyphen =>
    let next := decisive? flags.verbose afterHyphen
    if next = some ']' || next = some '-' then return (← first.set? flags, '-' :: afterHyphen)
    else
      match skip flags.verbose afterHyphen with
      | [] => none
      | d :: rest =>
        let (last, rest) ← readItem table flags d rest
        return (← first.rangeTo? flags last, rest)
  | rest => return (← first.set? flags, rest)

/-! ## Whole classes -/

/-- The class that the beginning of a class opens, behind the opening bracket: a
    sign of negation, hyphens, and a closing bracket that comes first all the same
    and stands for itself, as the hyphens do. -/
def readOpening (verbose : Bool) (cs : List Char) : OpenClass × List Char :=
  let (negated, rest) := match skip verbose cs with
    | '^' :: rest => (true, rest)
    | rest => (false, rest)
  let (hyphens, rest) := readWhile verbose (· = '-') false rest
  let k := hyphens.foldl (fun k c => k.add ⟨.single c, 0⟩) { negated }
  match hyphens, rest with
  | [], ']' :: rest => (k.add ⟨.single ']', 0⟩, rest)
  | _, rest => (k, rest)

/-- What follows the beginning of a class that stands in the classes `outer`, the
    innermost first, up to the bracket that closes the outermost. Every round reads
    a character, and `bound` limits their number. -/
def readClassFrom (table : PropertyTable) (flags : Flags) (bound : Nat) (k : OpenClass)
    (outer : List OpenClass) (cs : List Char) : Option (Nested CharSet × List Char) :=
  match bound with
  | 0 => none
  | bound + 1 =>
    match skip flags.verbose cs with
    | [] => none
    | ']' :: rest => do
      let set ← k.close? flags
      match outer with
      | [] => return (set, rest)
      | parent :: outer => readClassFrom table flags bound (parent.add set) outer rest
    | '[' :: rest =>
      match readAscii rest with
      | some ((negated, set), rest) => do
        let set ← negatedBy? flags negated set
        readClassFrom table flags bound (k.add ⟨set, 0⟩) outer rest
      | none =>
        let (inner, rest) := readOpening flags.verbose rest
        readClassFrom table flags bound inner (k :: outer) rest
    | '&' :: '&' :: rest => readClassFrom table flags bound (k.operator flags .inter) outer rest
    | '-' :: '-' :: rest => readClassFrom table flags bound (k.operator flags .diff) outer rest
    | '~' :: '~' :: rest => readClassFrom table flags bound (k.operator flags .symmDiff) outer rest
    | c :: rest => do
      let (set, rest) ← readRange table flags c rest
      readClassFrom table flags bound (k.add ⟨set, 0⟩) outer rest

/-- A class, behind its opening bracket, of a text with no more than `bound`
    characters. -/
def readClass (table : PropertyTable) (flags : Flags) (bound : Nat) (cs : List Char) :
    Option (Nested CharSet × List Char) :=
  let (k, rest) := readOpening flags.verbose cs
  readClassFrom table flags bound k [] rest

end IndexQuery.Regex
