import IndexQuery.Normalizer.FixedText
import IndexQuery.Normalizer.Numeral
import IndexQuery.Unicode.Lowercase

/-! # Normalizers

    A normalizer maps a literal to the form that the index holds. It may refuse a
    literal, which only means that it does not apply. Every field has normalizers of
    its own choice; those in stock keep values as they are, lower their case, write
    numbers in an order-preserving form and pad the octets of internet addresses.
-/

namespace IndexQuery

/-- Why a normalizer does not apply. -/
inductive NormalizationError where
  | unparseable (normalizer value : String)
  | unsupportedRegex (normalizer pattern : String)
deriving DecidableEq, Repr, Inhabited

namespace NormalizationError

/-- The stable code of the error. -/
def code : NormalizationError → String
  | .unparseable .. => "SHARDQUERY_NORMALIZATION_UNPARSEABLE"
  | .unsupportedRegex .. => "SHARDQUERY_NORMALIZATION_UNSUPPORTED_REGEX"

/-- The wording of the error. -/
def message : NormalizationError → String
  | .unparseable normalizer value => normalizer ++ " cannot normalize '" ++ value ++ "'"
  | .unsupportedRegex normalizer pattern =>
    normalizer ++ " cannot normalize regex '" ++ pattern ++ "'"

end NormalizationError

/-- What a normalizer makes of a text, and whether its arithmetic left its range. -/
abbrev Normalization := Noted (Except NormalizationError String)

/-- A normalizer. -/
structure Normalizer where
  name : String
  /-- The form of a value in the index. -/
  ofValue : String → Normalization
  /-- A pattern that finds in the index what the given one finds among values. -/
  ofPattern : String → Normalization
deriving Inhabited

namespace Normalizer

/-- The form of a value in the index, without the note. -/
def normalize (n : Normalizer) (value : String) : Except NormalizationError String :=
  (n.ofValue value).value

/-- A pattern that finds in the index what the given one finds among values, without the
    note. -/
def normalizeRegex (n : Normalizer) (pattern : String) : Except NormalizationError String :=
  (n.ofPattern pattern).value

/-! ## In stock -/

/-- Keeps values as they are. -/
def noop : Normalizer where
  name := "noop"
  ofValue value := return .ok value
  ofPattern pattern := return .ok pattern

/-- Lower case of a pattern, in which protected characters keep their case. -/
def lowercasePattern : List Char → List Char
  | [] => []
  | c :: rest =>
    if c = backslash then
      match rest with
      | [] => [c]
      | next :: rest => c :: next :: lowercasePattern rest
    else Unicode.lowerChar c ++ lowercasePattern rest

/-- Lowers the case of values. -/
def lowercase : Normalizer where
  name := "lowercase"
  ofValue value := return .ok (Unicode.lowercase value)
  ofPattern pattern := return .ok (String.ofList (lowercasePattern pattern.toList))

/-- A normalizer that gives some texts a form and refuses the others. It only takes
    patterns for a single text. -/
def ofForm (name : String) (form : List Char → Noted (Option (List Char))) : Normalizer where
  name
  ofValue value := do
    match ← form value.toList with
    | some text => return .ok (String.ofList text)
    | none => return .error (.unparseable name value)
  ofPattern pattern := do
    match fixedText? pattern.toList with
    | none => return .error (.unsupportedRegex name pattern)
    | some fixed =>
      match ← form fixed with
      | some text => return .ok (String.ofList (escapePattern text))
      | none => return .error (.unsupportedRegex name pattern)

/-- Writes numbers in an order-preserving form. -/
def number : Normalizer := ofForm "number" Numeral.normalize

/-- Pads the octets of internet addresses. -/
def ip : Normalizer := ofForm "ip" fun text => return Address.pad? text

/-- The normalizers in stock. -/
def stock : List Normalizer := [noop, lowercase, number, ip]

/-- The normalizer in stock with a given name. -/
def ofName? (name : String) : Option Normalizer := stock.find? (·.name == name)

end Normalizer

end IndexQuery
