import IndexQuery.Normalizer.Address
import IndexQuery.Unicode.Blank
import IndexQuery.Unicode.Digit
import IndexQuery.Word

/-! # Order-preserving text of numbers

    A number is written so that the order of the texts is the order of the
    numbers:

    * `0` becomes `+AE0`, `1` becomes `+aE1`, `55` becomes `+bE5.5`,
      `0.5` becomes `+ZE5`, and `-1` becomes `!ZE9`;
    * the sign is `+` or `!`, of which the latter sorts first;
    * a letter gives the exponent, ascending from `a` and, below zero, descending
      from `Z`; for negative numbers the letters run the other way;
    * the significant digits follow, for negative numbers as the complement.

    A text that has this form already is kept.
-/

namespace IndexQuery

/-- A decimal numeral, cut into its parts. -/
structure Numeral where
  negative : Bool
  whole : List Char
  fraction : List Char
  /-- The text of the exponent with its sign, if there is one. -/
  exponent : Option (List Char)
deriving DecidableEq, Repr, Inhabited

namespace Numeral

/-! ## Reading -/

/-- Takes a sign off the front; without one the number is positive. -/
def takeSign : List Char → Bool × List Char
  | '-' :: rest => (true, rest)
  | '+' :: rest => (false, rest)
  | cs => (false, cs)

/-- Whether a text is an optional sign and at least one digit of any script. -/
def isExponent (text : List Char) : Bool :=
  let digits := (takeSign text).2
  !digits.isEmpty && digits.all Unicode.isDecimalDigit

/-- Reads what stands behind the mantissa: nothing, or an exponent. -/
def readExponent? : List Char → Option (Option (List Char))
  | [] => some none
  | c :: rest => if (c = 'e' || c = 'E') && isExponent rest then some (some rest) else none

/-- Reads a numeral: a sign, digits with at most one point among or before them,
    and an exponent. The digits may be of any script. -/
def read? (text : List Char) : Option Numeral :=
  let (negative, text) := takeSign text
  let whole := text.takeWhile Unicode.isDecimalDigit
  match text.dropWhile Unicode.isDecimalDigit with
  | '.' :: rest =>
    let fraction := rest.takeWhile Unicode.isDecimalDigit
    if whole.isEmpty && fraction.isEmpty then none
    else
      (readExponent? (rest.dropWhile Unicode.isDecimalDigit)).map fun exponent =>
        ⟨negative, whole, fraction, exponent⟩
  | rest =>
    if whole.isEmpty then none
    else (readExponent? rest).map fun exponent => ⟨negative, whole, [], exponent⟩

/-! ## Value -/

/-- The value of an exponent in ASCII digits that fits 32 bits. -/
def exponentValue? (text : List Char) : Option Int32 :=
  let (negative, digits) := takeSign text
  if digits.isEmpty || !digits.all Char.isDigit then none
  else
    let n : Int := Address.decimalValue digits
    Word.ofInt? (if negative then -n else n)

/-- The exponent, if it can be read. Without one it is zero. -/
def power? (n : Numeral) : Option Int32 :=
  match n.exponent with
  | none => some 0
  | some text => exponentValue? text

/-- The byte of the character `0`. -/
def zeroByte : UInt8 := 48

/-- The bytes of a text in UTF-8. -/
def bytesOf (text : List Char) : List UInt8 := text.flatMap String.utf8EncodeChar

/-- All digits, from the first to the last: how far the bytes of the mantissa lie beyond
    that of `0`. An ASCII digit has one byte, which gives its value. -/
def digits (n : Numeral) : Noted (List UInt8) :=
  .each (Word.subByte · zeroByte) (bytesOf n.whole ++ bytesOf n.fraction)

/-- The power of ten of the first of the digits behind the given number of zeros, if it
    fits 32 bits. -/
def magnitude (n : Numeral) (zeros : Nat) (power : Int32) : Noted (Option Int32) :=
  match Word.ofInt? (bytesOf n.whole).length, Word.ofInt? zeros with
  | some places, some zeros => do
    let last ← Word.ofInt (places.toInt - 1)
    return (Word.ofInt? (last.toInt - zeros.toInt)).bind fun m =>
      Word.ofInt? (m.toInt + power.toInt)
  | _, _ => return none

/-- The largest power of ten, either way, that has a letter. -/
def maxMagnitude : Nat := 25

/-- What there is to write of a numeral. -/
inductive Scale where
  /-- Its power of ten has no letter. -/
  | refused
  | zero
  /-- The power of ten of the first digit that is not zero, and the digits from it to the
      last one that is not zero. -/
  | scaled (magnitude : Int32) (digits : List UInt8)
deriving DecidableEq, Repr, Inhabited

/-- The significant digits of a numeral and their power of ten. -/
def scale (n : Numeral) : Noted Scale :=
  match n.power? with
  | none => return .refused
  | some power => do
    let digits ← n.digits
    match digits.findIdx? (· != 0), digits.reverse.findIdx? (· != 0) with
    | some zeros, some trailing =>
      let significant ← Noted.stretch digits zeros (digits.length - 1 - trailing)
      match ← n.magnitude zeros power with
      | none => return .refused
      | some magnitude =>
        if magnitude.toInt.natAbs ≤ maxMagnitude then return .scaled magnitude significant
        else return .refused
    | _, _ => return .zero

/-! ## Writing -/

/-- The character of a byte. -/
def charOf (b : UInt8) : Char := Char.ofNat b.toNat

/-- The `k`-th letter from `a` upwards. -/
def ascendingLetter (k : UInt8) : Noted Char := charOf <$> Word.addByte 97 k

/-- The `k`-th letter from `Z` downwards. -/
def descendingLetter (k : UInt8) : Noted Char := charOf <$> Word.subByte 90 k

/-- The letter of a power of ten. Greater powers have greater letters in positive
    numbers and smaller ones in negative numbers. -/
def magnitudeLetter (negative : Bool) (magnitude : Int32) : Noted Char :=
  if 0 ≤ magnitude.toInt then do
    let k ← Word.toByte magnitude
    if negative then descendingLetter k else ascendingLetter k
  else do
    let opposite ← Word.ofInt (-magnitude.toInt)
    let k ← Word.toByte (← Word.ofInt (opposite.toInt - 1))
    if negative then ascendingLetter k else descendingLetter k

/-- The digits of ten to the power of their count less the number they write. A digit
    that exceeds its place leaves the range, and so does a list without a last digit. -/
def complement : List UInt8 → Noted (List UInt8)
  | [] => ⟨[], true⟩
  | [d] => do return [← Word.subByte 10 d]
  | d :: rest => do return (← Word.subByte 9 d) :: (← complement rest)

/-- The text of a digit after the point. -/
def digitChar (d : UInt8) : Noted Char := charOf <$> Word.addByte zeroByte d

/-- The text of the digits, with a point after the first. There has to be one. -/
def mantissa : List UInt8 → Noted (List Char)
  | [] => ⟨[], true⟩
  | [d] => return (toString d.toNat).toList
  | d :: rest => do return (toString d.toNat).toList ++ '.' :: (← Noted.each digitChar rest)

/-- The order-preserving text of significant digits with their power of ten. -/
def write (negative : Bool) (magnitude : Int32) (digits : List UInt8) : Noted (List Char) := do
  let letter ← magnitudeLetter negative magnitude
  if negative then
    return '!' :: letter :: 'E' :: (← mantissa (← complement digits))
  else
    return '+' :: letter :: 'E' :: (← mantissa digits)

/-- The order-preserving text of a numeral, if its power of ten has a letter. -/
def encode (n : Numeral) : Noted (Option (List Char)) := do
  match ← n.scale with
  | .refused => return none
  | .zero => return some ['+', 'A', 'E', '0']
  | .scaled magnitude digits => return some (← write n.negative magnitude digits)

/-- Whether a text has the form of an encoded number: a sign, a letter, `E`, a
    digit and, after a point, more digits. The digits may be of any script. -/
def isEncoded : List Char → Bool
  | sign :: letter :: 'E' :: first :: rest =>
    (sign == '+' || sign == '!') && letter.isAlpha && Unicode.isDecimalDigit first &&
      match rest with
      | [] => true
      | '.' :: digits => !digits.isEmpty && digits.all Unicode.isDecimalDigit
      | _ => false
  | _ => false

/-- The order-preserving text of a number, around which white space is ignored, and
    whether the arithmetic left its range. -/
def normalize (text : List Char) : Noted (Option (List Char)) :=
  let text := Unicode.trim text
  if isEncoded text then return some text
  else
    match read? text with
    | none => return none
    | some n => n.encode

end Numeral

end IndexQuery
