import IndexQuery.Unicode.Blank

/-! # Internet addresses

    The four octets of an address are padded with zeros to three digits each, so
    that the order of the texts is the order of the addresses.
-/

namespace IndexQuery.Address

/-- The parts of a text between dots. -/
def splitDots : List Char → List (List Char)
  | [] => [[]]
  | c :: rest =>
    if c = '.' then [] :: splitDots rest
    else
      match splitDots rest with
      | [] => [[c]]
      | part :: parts => (c :: part) :: parts

/-- The number that a list of ASCII digits writes. -/
def decimalValue (digits : List Char) : Nat :=
  digits.foldl (fun n c => 10 * n + (c.toNat - '0'.toNat)) 0

/-- An octet of one to three digits, at most 255, padded to three. -/
def padOctet (digits : List Char) : Option (List Char) :=
  if digits.isEmpty || 3 < digits.length || !digits.all Char.isDigit then none
  else if 255 < decimalValue digits then none
  else some (List.replicate (3 - digits.length) '0' ++ digits)

/-- The padded form of an address, around which white space is ignored. -/
def pad? (text : List Char) : Option (List Char) :=
  match splitDots (Unicode.trim text) with
  | [a, b, c, d] => do
    return (← padOctet a) ++ '.' :: (← padOctet b) ++ '.' :: (← padOctet c) ++ '.' :: (← padOctet d)
  | _ => none

end IndexQuery.Address
