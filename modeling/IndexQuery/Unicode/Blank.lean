import IndexQuery.Unicode.CharSet

/-! # White space

    The property `White_Space`, and texts freed of it at either end.
-/

namespace IndexQuery.Unicode

/-- The property `White_Space`. -/
def blanks : CharSet :=
  ⟨[(0x9, 0xD), (0x20, 0x20), (0x85, 0x85), (0xA0, 0xA0), (0x1680, 0x1680), (0x2000, 0x200A),
    (0x2028, 0x2029), (0x202F, 0x202F), (0x205F, 0x205F), (0x3000, 0x3000)]⟩

/-- A white-space character. -/
def isBlank (c : Char) : Bool := blanks.contains c

/-- The characters after leading white space. -/
def trimStart (cs : List Char) : List Char := cs.dropWhile isBlank

/-- The characters between leading and trailing white space. -/
def trim (cs : List Char) : List Char := (trimStart (trimStart cs).reverse).reverse

end IndexQuery.Unicode
