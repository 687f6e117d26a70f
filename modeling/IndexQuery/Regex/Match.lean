import IndexQuery.Memo
import IndexQuery.Regex.Basic

/-! # Matching

    A set of places of a text is a number: the bit `i` tells whether the place
    behind the first `i` characters belongs to it. An expression is first laid over
    the text, so that each of its characters knows the places it can be read from;
    then it takes a set of places to the places it reaches from there.

    * `trackWith_fst`: what is remembered of other parts does not matter.
-/

namespace IndexQuery.Regex

/-- A set of places of a text. -/
abbrev Places := Nat

/-- The number with some bits, the lowest first. -/
def ofBits (bits : List Bool) : Places := bits.foldr (fun bit n => 2 * n + bit.toNat) 0

/-- The places of a text with a character of the set behind them. -/
def placesBefore (text : List Char) (set : CharSet) : Places := ofBits (text.map set.contains)

/-- The places of a text at which a condition holds. -/
def placesOf (text : List Char) (a : Assertion) : Places :=
  let before := none :: text.map some
  let after := text.map some ++ [none]
  ofBits (before.zipWith a.holdsBetween after)

/-- Every place of a text. -/
def allPlaces (text : List Char) : Places := 1 <<< (text.length + 1) - 1

/-- An expression that was laid over a text. -/
inductive Track where
  /-- Stays at these places and goes on from no other. -/
  | stay (places : Places)
  /-- Moves past one character from these places and from no other. -/
  | move (places : Places)
  | seq (a b : Track)
  | alt (a b : Track)
  | repeated (t : Track) (least : Nat) (most : Option Nat)
deriving DecidableEq, Repr, Inhabited

/-- Lays an expression over a text. -/
def track (text : List Char) : Regex → Track
  | .empty => .stay (allPlaces text)
  | .chars set => .move (placesBefore text set)
  | .look a => .stay (placesOf text a)
  | .seq a b => .seq (a.track text) (b.track text)
  | .alt a b => .alt (a.track text) (b.track text)
  | .repeated r least most _ => .repeated (r.track text) least most
  | .group _ r => r.track text

/-- Lays an expression over a text. The places before a set of characters are looked
    for once. -/
def trackWith {text : List Char} (known : Memo (placesBefore text)) :
    Regex → Track × Memo (placesBefore text)
  | .empty => (.stay (allPlaces text), known)
  | .chars set =>
    let (places, known) := known.ask set
    (.move places, known)
  | .look a => (.stay (placesOf text a), known)
  | .seq a b =>
    let (a, known) := a.trackWith known
    let (b, known) := b.trackWith known
    (.seq a b, known)
  | .alt a b =>
    let (a, known) := a.trackWith known
    let (b, known) := b.trackWith known
    (.alt a b, known)
  | .repeated r least most _ =>
    let (t, known) := r.trackWith known
    (.repeated t least most, known)
  | .group _ r => r.trackWith known

/-- What is remembered does not change how an expression is laid. -/
@[simp] theorem trackWith_fst {text : List Char} (known : Memo (placesBefore text)) (r : Regex) :
    (r.trackWith known).1 = r.track text := by
  induction r generalizing known with
  | empty | look a => rfl
  | chars set => simp [trackWith, track]
  | seq a b iha ihb | alt a b iha ihb => simp [trackWith, track, iha, ihb]
  | repeated r least most short ih => simp [trackWith, track, ih]
  | group number r ih => simp [trackWith, track, ih]

/-- Goes on `n` times. Once a round changes nothing, none will. -/
def goOn (f : Places → Places) : Nat → Places → Places
  | 0, places => places
  | n + 1, places =>
    let next := f places
    if next = places then places else goOn f n next

/-- Goes on up to `n` times. -/
def goOnUpTo (f : Places → Places) : Nat → Places → Places
  | 0, places => places
  | n + 1, places =>
    let more := places ||| f places
    if more = places then places else goOnUpTo f n more

/-- The places that a track reaches from some places of a text with `length`
    characters. An unlimited repetition needs no more rounds than there are
    places. -/
def Track.reach (length : Nat) : Track → Places → Places
  | .stay here, places => places &&& here
  | .move here, places => (places &&& here) <<< 1
  | .seq a b, places =>
    let between := a.reach length places
    if between = 0 then 0 else b.reach length between
  | .alt a b, places => a.reach length places ||| b.reach length places
  | .repeated t least most, places =>
    let rounds := match most with
      | none => length + 1
      | some most => most - least
    goOnUpTo (t.reach length) rounds (goOn (t.reach length) least places)

/-- Whether a text holds a stretch that fits. -/
def isMatch (r : Regex) (text : String) : Bool :=
  let chars := text.toList
  (r.trackWith (∅ : Memo (placesBefore chars))).1.reach chars.length (allPlaces chars) != 0

end IndexQuery.Regex
