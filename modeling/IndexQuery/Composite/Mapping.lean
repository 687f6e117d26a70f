import IndexQuery.Config.Instant

/-! # Composite fields

    A composite field is indexed beside the fields it is made of: its values are
    the values of its components, joined by a separator.
-/

namespace IndexQuery

/-- A composite field. -/
structure Mapping where
  name : String
  /-- The component fields, in the order in which their values are joined. -/
  components : List String
  separator : Char
  /-- Records from before this instant lack the composite values. -/
  transition : Option Instant
deriving DecidableEq, Repr, Inhabited

namespace Mapping

/-- The separator when none is given, the greatest character. -/
def defaultSeparator : Char := Char.ofNat 0x10FFFF

/-- Whether the composite field is its own first component, so that it holds both
    plain and joined values. -/
def isOverloaded (m : Mapping) : Bool := m.components.head? == some m.name

/-- The place of a field among the components. -/
def position? (m : Mapping) (field : String) : Option Nat := m.components.findIdx? (· == field)

/-- Whether a query from `start` on reaches records from before the transition. A
    query without a beginning does. -/
def reachesLegacy (m : Mapping) (start : Option Instant) : Bool :=
  match m.transition, start with
  | none, _ => false
  | some _, none => true
  | some transition, some start => start.before transition

/-- Joins values with the separator. -/
def joinValues (m : Mapping) (values : List String) : String :=
  (String.singleton m.separator).intercalate values

end Mapping

end IndexQuery
