import IndexQuery.Regex.NamedClass

/-! # Properties by name

    A pattern names a property of the character database by a letter or by a name
    in braces, of which case, blanks, hyphens, underlines and a leading `is` do not
    count. Which properties there are is decided by the library that compiles
    patterns, so that patterns are read with a table of them. `CharSet.ofProperty?` is
    such a table, of the properties that other classes are made of as well.
-/

namespace IndexQuery

/-- The characters with each property that patterns can name, none where the name is
    that of no property. -/
abbrev PropertyTable := List Char → Option CharSet

namespace CharSet

/-- What counts in the name of a property. -/
def looseName (name : List Char) : String :=
  let name := match name with
    | i :: s :: rest => if i.toLower = 'i' && s.toLower = 's' then rest else name
    | _ => name
  let counts (c : Char) : Bool := c.toNat < 0x80 && c != ' ' && c != '_' && c != '-'
  String.ofList ((name.filter counts).map Char.toLower)

/-- The characters of a general category. -/
def ofCategory? (name : List Char) : Option CharSet :=
  match looseName name with
  | "l" | "letter" => some NamedClass.letter.set
  | "m" | "mark" | "combiningmark" => some NamedClass.mark.set
  | "n" | "number" => some NamedClass.number.set
  | "nd" | "decimalnumber" | "digit" => some NamedClass.digit.set
  | "nl" | "letternumber" => some (Unicode.inPatterns Unicode.letterNumbers)
  | "no" | "othernumber" => some (Unicode.inPatterns Unicode.otherNumbers)
  | "pc" | "connectorpunctuation" => some (Unicode.inPatterns Unicode.connectors)
  | "any" => some all
  | "ascii" => some ⟨[(0, 0x7F)]⟩
  | _ => Option.none

/-- The characters with a property that holds or does not. -/
def ofBinary? (name : List Char) : Option CharSet :=
  match looseName name with
  | "alphabetic" | "alpha" => some NamedClass.alphabetic.set
  | "whitespace" | "wspace" | "space" => some NamedClass.space.set
  | "joincontrol" | "joinc" => some Unicode.joinControls
  | _ => Option.none

/-- The characters with a property that has a value. -/
def ofValue? (property value : List Char) : Option CharSet :=
  match looseName property with
  | "generalcategory" | "gc" => ofCategory? value
  | _ => Option.none

/-- What stands before and behind the first `c`. -/
def cut? (c : Char) (name : List Char) : Option (List Char × List Char) :=
  match name.dropWhile (· ≠ c) with
  | [] => Option.none
  | _ :: rest => some (name.takeWhile (· ≠ c), rest)

/-- The characters with a property: `name`, `name=value`, `name:value`, or without
    it: `name!=value`. -/
def ofProperty? : PropertyTable := fun name =>
  match cut? '!' name with
  | some (property, '=' :: value) => (ofValue? property value).map complement
  | _ =>
    match cut? ':' name <|> cut? '=' name with
    | some (property, value) => ofValue? property value
    | Option.none => ofBinary? name <|> ofCategory? name

end CharSet

end IndexQuery
