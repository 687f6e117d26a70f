import Std.Data.HashMap
import IndexQuery.Regex.Normal
import IndexQuery.Regex.Utf8

/-! # Footprints of compiled patterns

    A pattern is compiled to an automaton that reads the bytes of a text, twice:
    once to read forwards and once to read backwards. Patterns whose automata would
    take too much room are refused.

    A state takes 32 bytes. One that goes on in several ways takes 4 bytes more for
    each of them, and one with several ranges of bytes 8 bytes more for each.
-/

namespace IndexQuery

/-- The room that an automaton takes so far. -/
structure Footprint where
  states : Nat := 0
  /-- Bytes beside those that every state takes. -/
  extra : Nat := 0
deriving DecidableEq, Repr, Inhabited

namespace Footprint

/-- The number of bytes. -/
def bytes (f : Footprint) : Nat := 32 * f.states + f.extra

/-- How many bytes an automaton may take: ten mebibytes. -/
def limit : Nat := 10 <<< 20

/-- Whether the automaton takes too much room. -/
def exceeds (f : Footprint) : Bool := limit < f.bytes

/-- Some states more. -/
def add (f : Footprint) (states : Nat) (extra : Nat := 0) : Footprint :=
  ⟨f.states + states, f.extra + extra⟩

/-- Adds something up to `n` times. It stops when there is too much, to which
    nothing can be added. -/
def addTimes (f : Footprint) (more : Footprint → Footprint) : Nat → Footprint
  | 0 => f
  | n + 1 => if f.exceeds then f else addTimes (more f) more n

/-! ## Sets of characters -/

/-- The states that can be found again: a table of slots with a key and a state
    each. A key that comes to a slot drives out the one before it. -/
abbrev Shared := Std.HashMap Nat (List Nat × Nat)

/-- The slot of a key among `slots`. -/
def slotOf (slots : Nat) (key : List Nat) : Nat :=
  let mix (h : UInt64) (n : Nat) : UInt64 := (h ^^^ n.toUInt64) * 1099511628211
  (key.foldl mix 14695981039346656037).toNat % slots

/-- The state with a key: one that can be found, or else a new one. -/
def share (slots : Nat) (key : List Nat) (extra : Nat) (known : Shared) (f : Footprint) :
    Nat × Shared × Footprint :=
  let slot := slotOf slots key
  match known[slot]?.filter (·.1 = key) with
  | some (_, state) => (state, known, f)
  | none => (f.states, known.insert slot (key, f.states), f.add 1 extra)

/-- The states that read some sequences of byte ranges and go on at `last`. The
    sequences are at most as long as the first argument says. -/
def addTree (last : Nat) : Nat → List (List Utf8.ByteRange) → Shared → Footprint →
    Nat × Shared × Footprint
  | 0, _, known, f => (last, known, f)
  | length + 1, sequences, known, f =>
    if sequences.all (·.isEmpty) then (last, known, f)
    else
      let groups := sequences.splitBy fun s t => s.head? == t.head?
      let (key, known, f) := groups.foldl (fun (key, known, f) group =>
        let (lo, hi) := (group.head?.bind List.head?).getD (0, 0)
        let (next, known, f) := addTree last length (group.map List.tail) known f
        (next :: hi :: lo :: key, known, f)) ([], known, f)
      share 10000 key.reverse (8 * groups.length) known f

/-- The states that read the bytes of a sequence in reverse and go on at `last`. -/
def addChain (last : Nat) (sequence : List Utf8.ByteRange) (known : Shared) (f : Footprint) :
    Nat × Shared × Footprint :=
  sequence.foldl (fun (next, known, f) (lo, hi) => share 1000 [next, lo, hi] 0 known f)
    (last, known, f)

/-- The states that read a character of a set. -/
def addSet (f : Footprint) (backwards : Bool) (members : CharSet) : Footprint :=
  if members.isAscii then f.add 2 (8 * members.ranges.length)
  else
    let sequences := Utf8.sequences members
    if backwards then
      let last := f.states + 1
      let f := f.add 2 (4 * sequences.length)
      (sequences.foldl (fun (known, f) s => (addChain last s known f).2) ((∅ : Shared), f)).2
    else (addTree f.states 4 sequences ∅ (f.add 1)).2.2

/-! ## Literals -/

/-- The words of a choice up to each place where a word ends, of which all but the
    first letters are missing. Ends that follow each other at the front are one. -/
def runs (words : List (List Nat)) : List (List (List Nat)) :=
  let front := words.takeWhile List.isEmpty
  let rest := (words.dropWhile List.isEmpty).splitBy fun _ word => !word.isEmpty
  let rest := rest.map fun run => run.filter fun word => !word.isEmpty
  let rest := if rest.isEmpty then [[]] else rest
  if front.isEmpty then rest else [] :: rest

/-- The words that begin with each letter, without it. -/
def byFirst (words : List (List Nat)) : List (List (List Nat)) :=
  (words.filterMap List.head?).eraseDups.map fun letter =>
    words.filterMap fun word => if word.head? = some letter then some word.tail else none

/-- The states that read one of some words and go on at a common end. The words are
    at most as long as the second argument says. -/
def addWords (f : Footprint) : Nat → List (List Nat) → Footprint
  | 0, _ => f
  | length + 1, words =>
    if words.all List.isEmpty then f
    else
      let runs := (runs words).map byFirst
      let filled := runs.filter fun run => !run.isEmpty
      let f := runs.flatten.foldl (fun f words => addWords f length words) f
      let f := filled.foldl (fun f run =>
        f.add 1 (if run.length = 1 then 0 else 8 * run.length)) f
      f.add 1 (4 * (filled.length + (runs.length - 1)))

/-! ## Expressions -/

/-- The text of a literal. -/
def literal? : Normal → Option (List Char)
  | .literal text => some text
  | _ => none

/-- The states of a repetition, given those of what is repeated. -/
def addRepetition (f : Footprint) (inner : Footprint → Footprint) (consumes : Bool) (least : Nat)
    (most : Option Nat) : Footprint :=
  match least, most with
  | 0, some 1 => (inner (f.add 1 8)).add 1
  | 0, none => if consumes then inner (f.add 1 8) else (inner f).add 3 16
  | least, none => (f.addTimes inner least).add 1 8
  | least, some most =>
    if least = most then f.addTimes inner least
    else
      let f := if least = 0 then f.add 1 else f.addTimes inner least
      (f.add 1).addTimes (fun f => inner (f.add 1 8)) (most - least)

mutual

/-- The states of an expression. Groups are noted only forwards. -/
def addNormal (f : Footprint) (backwards : Bool) : Normal → Footprint
  | .empty | .look _ => f.add 1
  | .literal text => f.add (Utf8.encodeAll text).length
  | .set members => f.addSet backwards members
  | .repeated r least most _ =>
    f.addRepetition (fun f => f.addNormal backwards r) (r.leastLength?.any (0 < ·)) least most
  | .group _ r =>
    if backwards then f.addNormal backwards r else ((f.add 1).addNormal backwards r).add 1
  | .seq rs => if backwards then f.addAllBackwards rs else f.addAll backwards rs
  | .choice rs =>
    match rs.mapM literal?, rs with
    | some texts, _ =>
      let words := texts.map Utf8.encodeAll
      let words := if backwards then words.map List.reverse else words
      (f.add 1).addWords ((words.map List.length).foldl max 0 + 1) words
    | none, r :: r' :: rs =>
      let f := (f.addNormal backwards r).addNormal backwards r'
      (f.add 2 (4 * (rs.length + 2))).addAll backwards rs
    | none, rs => f.addAll backwards rs

/-- The states of several expressions, the first one first. -/
def addAll (f : Footprint) (backwards : Bool) : List Normal → Footprint
  | [] => f
  | r :: rs => (f.addNormal backwards r).addAll backwards rs

/-- The states of several expressions, the last one first. -/
def addAllBackwards (f : Footprint) : List Normal → Footprint
  | [] => f
  | r :: rs => (f.addAllBackwards rs).addNormal true r

end

end Footprint

namespace Normal

mutual

/-- Whether what fits begins where a condition holds that the form names. -/
def beginsWith (a : Assertion) : Normal → Bool
  | .look b => a = b
  | .empty | .literal _ | .set _ => false
  | .repeated r least _ _ => 0 < least && r.beginsWith a
  | .group _ r => r.beginsWith a
  | .seq rs => beginWith a rs
  | .choice rs => allBeginWith a rs

/-- As `beginsWith`, for parts one after the other. -/
def beginWith (a : Assertion) : List Normal → Bool
  | [] => false
  | r :: rs => r.beginsWith a || (r.isVoid && beginWith a rs)

/-- As `beginsWith`, for each of several forms. -/
def allBeginWith (a : Assertion) : List Normal → Bool
  | [] => true
  | r :: rs => r.beginsWith a && allBeginWith a rs

end

mutual

/-- Whether what fits ends where a condition holds that the form names. -/
def endsWith (a : Assertion) : Normal → Bool
  | .look b => a = b
  | .empty | .literal _ | .set _ => false
  | .repeated r least _ _ => 0 < least && r.endsWith a
  | .group _ r => r.endsWith a
  | .seq rs => endWith a rs
  | .choice rs => allEndWith a rs

/-- As `endsWith`, for parts one after the other. -/
def endWith (a : Assertion) : List Normal → Bool
  | [] => false
  | r :: rs => endWith a rs || (areVoid rs && r.endsWith a)

/-- As `endsWith`, for each of several forms. -/
def allEndWith (a : Assertion) : List Normal → Bool
  | [] => true
  | r :: rs => r.endsWith a && allEndWith a rs

end

end Normal

namespace Footprint

/-- What an automaton begins with: nothing to read if the place is fixed, and else
    any bytes. -/
def start (fixed : Bool) : Footprint := if fixed then { states := 1 } else { states := 3, extra := 16 }

/-- The automaton that reads forwards. The whole match is a group too. -/
def forwards (r : Normal) : Footprint :=
  ((start (r.beginsWith .textStart)).addNormal false (.group 0 r)).add 1

/-- The automaton that reads backwards. -/
def backwards (r : Normal) : Footprint :=
  ((start (r.endsWith .textEnd)).addNormal true r).add 1

/-- Whether there is room for both automata of an expression. -/
def fits (r : Regex) : Bool :=
  let normal := r.normal
  !(forwards normal).exceeds && !(backwards normal).exceeds

end Footprint

end IndexQuery
