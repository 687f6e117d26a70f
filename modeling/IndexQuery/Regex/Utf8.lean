import IndexQuery.Unicode.CharSet

/-! # Ranges of encoded characters

    A range of characters is, in UTF-8, one sequence of byte ranges or several of
    them: within a sequence every combination of bytes is the code of a character.
-/

namespace IndexQuery.Utf8

/-- A range of bytes, both ends included. -/
abbrev ByteRange := Nat × Nat

/-- The bytes of a scalar value. -/
def encode (n : Nat) : List Nat :=
  let tail (unit : Nat) : Nat := 0x80 + n / unit % 0x40
  if n < 0x80 then [n]
  else if n < 0x800 then [0xC0 + n / 0x40, tail 1]
  else if n < 0x10000 then [0xE0 + n / 0x1000, tail 0x40, tail 1]
  else [0xF0 + n / 0x40000, tail 0x1000, tail 0x40, tail 1]

/-- The bytes of a text. -/
def encodeAll (text : List Char) : List Nat := text.flatMap fun c => encode c.toNat

/-- Where to cut a range between codes of different lengths: behind the number. -/
def cutByLength? (lo hi : Nat) : Option Nat :=
  [0x7F, 0x7FF, 0xFFFF].find? fun last => lo ≤ last && last < hi

/-- Where to cut a range so that the bytes that count up to `block` run through all
    their values: behind the number. -/
def cutByTail? (lo hi block : Nat) : Option Nat :=
  if lo / block = hi / block then none
  else if lo % block ≠ 0 then some (lo / block * block + block - 1)
  else if hi % block ≠ block - 1 then some (hi / block * block - 1)
  else none

/-- Where to cut a range that is not one sequence: behind the number. -/
def cut? (lo hi : Nat) : Option Nat :=
  cutByLength? lo hi <|>
    if hi < 0x80 then none else [0x40, 0x1000, 0x40000].findSome? (cutByTail? lo hi)

/-- The sequences for a range without surrogates. -/
def sequencesOf (lo hi : Nat) : List (List ByteRange) :=
  match cut? lo hi with
  | some last =>
    if _h : lo ≤ last ∧ last < hi then sequencesOf lo last ++ sequencesOf (last + 1) hi else []
  | none => [(encode lo).zip (encode hi)]
termination_by hi - lo

/-- The sequences for a set of characters, in ascending order. -/
def sequences (s : CharSet) : List (List ByteRange) :=
  s.ranges.flatMap fun (lo, hi) =>
    let below := (lo, min hi 0xD7FF)
    let above := (max lo 0xE000, hi)
    ([below, above].filter fun r => r.1 ≤ r.2).flatMap fun (lo, hi) => sequencesOf lo hi

end IndexQuery.Utf8
