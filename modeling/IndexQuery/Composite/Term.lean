import IndexQuery.Composite.Alphabet
import IndexQuery.Composite.Mapping
import IndexQuery.Query.Comparison

/-! # Composite terms

    Bounds on the components of a composite field become one bound on its joined
    values. A component may be followed by the value of another one only when its
    own value is exact, or when its values all have the same width, so that joined
    values compare place by place. A bound that has to be moved to the next or the
    previous value needs an alphabet too.
-/

namespace IndexQuery

/-- A bound on a value. -/
structure ValueBound where
  op : CompareOp
  value : String
deriving DecidableEq, Repr, Inhabited

/-- The bounds on one component. An equality bounds it from both sides. -/
structure ComponentBound where
  lower : Option ValueBound
  upper : Option ValueBound
deriving DecidableEq, Repr, Inhabited

namespace ComponentBound

/-- The bounds of an exact value. -/
def equality (value : String) : ComponentBound := ⟨some ⟨.eq, value⟩, some ⟨.eq, value⟩⟩

/-- Whether both bounds are exact. -/
def isEquality (b : ComponentBound) : Bool :=
  match b.lower, b.upper with
  | some lower, some upper => lower.op == .eq && upper.op == .eq
  | _, _ => false

end ComponentBound

/-- A bound on the values of a composite field. -/
inductive CompositeTerm where
  /-- A single value. -/
  | exact (value : String)
  /-- A range that holds every match of the component bounds. -/
  | range (lower upper : ValueBound)
deriving DecidableEq, Repr, Inhabited

/-- Why bounds on components do not make a bound on the composite field. -/
inductive FoldObstacle where
  /-- No component is bounded from below, or none from above. -/
  | unbounded
  /-- A bounded component stands behind an unbounded one. -/
  | gap
  /-- A range on a component of varying width precedes another value. -/
  | variableLength (field : String)
  /-- A value of the component has no neighbour to move to. -/
  | infeasible (field : String)
  /-- The query reaches records without composite values. -/
  | legacyData
deriving DecidableEq, Repr, Inhabited

/-- The wording of an obstacle. -/
def FoldObstacle.message : FoldObstacle → String
  | .unbounded => "composite range is unbounded"
  | .gap => "bounded component follows an unbounded one"
  | .variableLength field => "range on variable-length component " ++ field
  | .infeasible field => "cannot step value of component " ++ field
  | .legacyData => "query reaches data from before the composite transition"

namespace CompositeTerm

/-- One side of the bounds: each component with its bound, if it has one. -/
abbrev Side := List (String × Option ValueBound)

/-- The bounded components in front. -/
def bounded : Side → List (String × ValueBound)
  | (field, some b) :: rest => (field, b) :: bounded rest
  | _ => []

/-- Whether a bounded component stands behind an unbounded one. -/
def hasGap : Side → Bool
  | (_, some _) :: rest => hasGap rest
  | (_, none) :: rest => rest.any (·.2.isSome)
  | [] => false

/-- The alphabets of the fixed-length fields. -/
abbrev Alphabets := String → Option Alphabet

/-- The alphabet of a field, which must have values of one width. -/
def requireFixed (alphabets : Alphabets) (field : String) : Except FoldObstacle Alphabet :=
  match alphabets field with
  | some a => .ok a
  | none => .error (.variableLength field)

/-- The value after the given one. -/
def stepUp (alphabets : Alphabets) (field value : String) : Except FoldObstacle String := do
  match (← requireFixed alphabets field).increment value with
  | some value => return value
  | none => .error (.infeasible field)

/-- The value before the given one. -/
def stepDown (alphabets : Alphabets) (field value : String) : Except FoldObstacle String := do
  match (← requireFixed alphabets field).decrement value with
  | some value => return value
  | none => .error (.infeasible field)

/-- The operator and the values of the lower bound. `complete` says that no
    component stands behind the bounded ones. -/
def lowerValues (alphabets : Alphabets) (complete : Bool) :
    List (String × ValueBound) → Except FoldObstacle (CompareOp × List String)
  | [] => .ok (.ge, [])
  | (field, ⟨op, value⟩) :: rest =>
    if op = .gt && rest.isEmpty && complete then .ok (.gt, [value])
    else do
      let value ←
        -- what is joined to an excluded value sorts behind it, so the bound moves on
        if op = .gt then stepUp alphabets field value
        else if op = .ge && !rest.isEmpty then do
          let _ ← requireFixed alphabets field
          pure value
        else pure value
      let (op, values) ← lowerValues alphabets complete rest
      return (op, value :: values)

/-- The operator and the values of the upper bound. Where a component behind the
    last bounded one is open, the bound is moved past every value it could have. -/
def upperValues (alphabets : Alphabets) (complete : Bool) :
    List (String × ValueBound) → Except FoldObstacle (CompareOp × List String)
  | [] => .ok (.le, [])
  | [(field, ⟨op, value⟩)] =>
    if op = .lt then .ok (.lt, [value])
    else if complete then .ok (.le, [value])
    else do
      let value ← stepUp alphabets field value
      return (.lt, [value])
  | (field, ⟨op, value⟩) :: rest => do
    let value ←
      if op = .lt then stepDown alphabets field value
      else if op = .le then do
        let _ ← requireFixed alphabets field
        pure value
      else pure value
    let (op, values) ← upperValues alphabets complete rest
    return (op, value :: values)

/-- The lower bound where plain values of the first component are to be found too.
    They sort before every joined value with the same first component. -/
def legacyLower (alphabets : Alphabets) : Side → Except FoldObstacle ValueBound
  | (field, some ⟨op, value⟩) :: _ =>
    if op = .gt then
      match alphabets field with
      | some _ => do
        let value ← stepUp alphabets field value
        return ⟨.ge, value⟩
      | none => .ok ⟨.gt, value⟩
    else .ok ⟨.ge, value⟩
  | _ => .error .unbounded

/-- The bound on the composite field. `bounds` has an entry for each component, and
    `legacy` says that records without composite values are to be found too. -/
def ofBounds (m : Mapping) (bounds : List (Option ComponentBound)) (alphabets : Alphabets)
    (legacy : Bool) : Except FoldObstacle CompositeTerm := do
  let aligned := m.components.zipIdx.map fun (field, i) => (field, bounds[i]?.join)
  let lowers : Side := aligned.map fun (field, b) => (field, b.bind (·.lower))
  let uppers : Side := aligned.map fun (field, b) => (field, b.bind (·.upper))
  if lowers.all (·.2.isNone) || uppers.all (·.2.isNone) then .error .unbounded
  else if hasGap lowers || hasGap uppers then .error .gap
  else if legacy && !m.isOverloaded then .error .legacyData
  else if !legacy && aligned.all (fun (_, b) => b.any ComponentBound.isEquality) then
    return .exact (m.joinValues ((bounded lowers).map (·.2.value)))
  else
    -- whether values are joined of every component, with none left open behind them
    let complete (side : Side) : Bool := (bounded side).length == m.components.length
    let lower ←
      if legacy then legacyLower alphabets lowers
      else do
        let (op, values) ← lowerValues alphabets (complete lowers) (bounded lowers)
        pure ⟨op, m.joinValues values⟩
    let (op, values) ← upperValues alphabets (complete uppers) (bounded uppers)
    return .range lower ⟨op, m.joinValues values⟩

end CompositeTerm

end IndexQuery
