import IndexQuery.Composite.Term
import IndexQuery.Config.Basic
import IndexQuery.Query.Printer

/-! # Folding bounds into composite fields

    Within a conjunction, bounds on the components of a composite field become one
    look-up on that field:

    * when every component has an exact value, a comparison for equality;
    * else a range, next to the bounds it came from under a `delayed` marker, which
      keeps the query exact.

    Composite fields with more components come first, and a child of the
    conjunction is consumed by one of them at most. Bounds beside a disjunction
    are distributed into it when that lets a disjunct fold. Negations and what is
    marked for evaluation stay as they are.
-/

namespace IndexQuery

/-- What the folding of a query consults. -/
structure Folder where
  /-- The composite fields, those with more components first. -/
  mappings : List Mapping
  alphabets : String → Option Alphabet
  beginDate : Option Instant

namespace Folder

/-- Whether one composite field is tried before another. -/
def precedes (a b : Mapping) : Bool :=
  b.components.length < a.components.length ||
    (a.components.length == b.components.length && a.name ≤ b.name)

/-- The folder of a configuration. -/
def ofConfig (config : Config) : Folder :=
  { mappings := config.composites.mergeSort precedes
    alphabets := config.alphabet?
    beginDate := config.beginDate }

/-! ## Bounds of a conjunction -/

/-- The bounds that one child of a conjunction puts on a field. -/
structure Contribution where
  field : String
  bound : ComponentBound

/-- The contribution of a comparison with text. -/
def ofComparison (c : Comparison) : Option Contribution := do
  let value ← c.literal.text?
  let bound : ValueBound := ⟨c.op, value⟩
  match c.op with
  | .eq => return ⟨c.field, some bound, some bound⟩
  | .gt | .ge => return ⟨c.field, some bound, none⟩
  | .lt | .le => return ⟨c.field, none, some bound⟩
  | _ => none

/-- The contribution of a child: that of a range, or of a comparison. -/
def contribution? (child : Query) : Option Contribution :=
  match child.ungrouped.bounds? with
  | some b =>
    let bound (c : Comparison) : Option ValueBound :=
      c.literal.text?.map fun value => ⟨c.op, value⟩
    some ⟨b.field, bound b.lower, bound b.upper⟩
  | none => child.ungrouped.comparison?.bind ofComparison

/-- The bounds on one field, and the places of the children they came from. -/
structure Candidate where
  bound : ComponentBound
  places : List Nat

/-- The bounds that a conjunction puts on a field. There are none when two children
    bound it from the same side. -/
def candidate? (children : List Query) (field : String) : Option Candidate :=
  let found := children.zipIdx.filterMap fun (child, i) =>
    match contribution? child with
    | some c => if c.field = field then some (c.bound, i) else none
    | none => none
  let lowers := found.filterMap (·.1.lower)
  let uppers := found.filterMap (·.1.upper)
  if found.isEmpty || 1 < lowers.length || 1 < uppers.length then none
  else some ⟨⟨lowers.head?, uppers.head?⟩, found.map (·.2)⟩

/-- The candidates of the components in front, up to the first without any bound
    that is still to be consumed. -/
def leadingCandidates (children : List Query) (consumed : List Nat) :
    List String → List Candidate
  | [] => []
  | field :: rest =>
    match candidate? children field with
    | some c =>
      if c.places.any consumed.contains then []
      else c :: leadingCandidates children consumed rest
    | none => []

/-! ## Look-ups -/

/-- The queries that stand for a bound on a composite field. A range keeps the
    children it came from, to be checked on the record. -/
def lookup (m : Mapping) (consumed : List Query) : CompositeTerm → List Query
  | .exact value => [.compareWith .eq m.name (.string value)]
  | .range lower upper =>
    [.range ⟨⟨lower.op, m.name, .string lower.value⟩, ⟨upper.op, m.name, .string upper.value⟩⟩,
     .mark .delayed (.conj consumed)]

/-- Which children of a conjunction are consumed, and what takes the place of the
    first child of each look-up. -/
structure Progress where
  consumed : List Nat := []
  lookups : List (Nat × List Query) := []

/-- Folds what one composite field can take. -/
def foldMapping (f : Folder) (children : List Query) (p : Progress) (m : Mapping) : Progress :=
  let candidates := leadingCandidates children p.consumed m.components
  if candidates.length < 2 then p
  else
    let bounds := candidates.map fun c => some c.bound
    match CompositeTerm.ofBounds m bounds f.alphabets (m.reachesLegacy f.beginDate) with
    | .error _ => p
    | .ok term =>
      let places := (List.range children.length).filter fun i =>
        candidates.any (·.places.contains i)
      match places with
      | [] => p
      | first :: _ =>
        { consumed := p.consumed ++ places
          lookups := (first, lookup m (places.filterMap (children[·]?)) term) :: p.lookups }

/-- Folds what the composite fields can take, one after the other. -/
def foldMappings (f : Folder) (children : List Query) : Progress :=
  f.mappings.foldl (f.foldMapping children) {}

/-! ## Overloaded fields -/

/-- The alphabet of a field that holds both plain and joined values. -/
def overloadedAlphabet? (f : Folder) (field : String) : Option Alphabet :=
  if f.mappings.any fun m => m.isOverloaded && m.name == field then f.alphabets field else none

/-- A bound moved past every joined value with the same first component: `> v`
    becomes `>= v + 1`, and `<= v` becomes `< v + 1`. -/
def stepPast (a : Alphabet) (c : Comparison) : Option Comparison :=
  let moved (op : CompareOp) : Option Comparison := do
    let value ← c.literal.text?
    let next ← a.increment value
    return ⟨op, c.field, .string next⟩
  match c.op with
  | .gt => moved .ge
  | .le => moved .lt
  | _ => none

/-- Widens a comparison on its own so that it finds joined values too. -/
def widenComparison (a : Alphabet) (c : Comparison) : Option Query :=
  if c.op = .eq then do
    let value ← c.literal.text?
    let next ← a.increment value
    return .range ⟨c.withOp .ge, ⟨.lt, c.field, .string next⟩⟩
  else (stepPast a c).map .compare

/-- Widens the bounds of a range, if one of them has to be. -/
def widenRange (a : Alphabet) (b : Bounds) : Option Query :=
  match stepPast a b.lower, stepPast a b.upper with
  | none, none => none
  | lower, upper => some (.range ⟨lower.getD b.lower, upper.getD b.upper⟩)

/-- Widens a comparison or a range on an overloaded field. -/
def widen (f : Folder) (q : Query) : Query :=
  let widened : Option Query :=
    match q.bounds? with
    | some b => do widenRange (← f.overloadedAlphabet? b.field) b
    | none => do
      let c ← q.comparison?
      widenComparison (← f.overloadedAlphabet? c.field) c
  widened.getD q

/-! ## Trees -/

/-- A query beside its folded form, with the same for its children. -/
inductive Folding where
  | mk (source folded : Query) (parts : List Folding)

namespace Folding

/-- The query. -/
def source : Folding → Query
  | mk source _ _ => source

/-- Its folded form. -/
def folded : Folding → Query
  | mk _ folded _ => folded

/-- Its children. -/
def parts : Folding → List Folding
  | mk _ _ parts => parts

/-- The query without the groups around it. -/
def ungrouped : Folding → Folding
  | mk (.group _) _ [part] => part.ungrouped
  | f => f

/-- The operands of a disjunction. -/
def disjuncts? (f : Folding) : Option (List Folding) :=
  match f.ungrouped with
  | mk (.junction .or _) _ parts => some parts
  | _ => none

/-- The operands of a conjunction, else the query alone. -/
def conjuncts (f : Folding) : List Folding :=
  match f.ungrouped with
  | mk (.junction .and _) _ parts => parts
  | _ => [f]

end Folding

/-- The conjunction of the given children with their look-ups in place, and the
    places of the children consumed. -/
def compose (f : Folder) (children : List Folding) : Query × List Nat :=
  let progress := f.foldMappings (children.map Folding.source)
  -- the look-ups stand where the first child stood that they consume
  let operands := children.zipIdx.flatMap fun (child, i) =>
    (progress.lookups.lookup i).getD [] ++
      if progress.consumed.contains i then [] else [child.folded]
  (.conj operands, progress.consumed)

/-- Whether a query bounds a component of a composite field. -/
def isComponentBound (f : Folder) (q : Query) : Bool :=
  match contribution? q with
  | some c => f.mappings.any fun m => m.components.contains c.field
  | none => false

/-- Distributes the anchors into the disjuncts, if some disjunct then folds an
    anchor together with a bound of its own. -/
def distributeInto (f : Folder) (anchors disjuncts : List Folding) : Option Query :=
  let composed := disjuncts.map fun d => f.compose (anchors ++ d.conjuncts)
  -- the anchors come first, so that places below their number are theirs
  let joins := composed.any fun (_, consumed) =>
    consumed.any (· < anchors.length) && consumed.any (anchors.length ≤ ·)
  if joins then some (.disj (composed.map (·.1))) else none

/-- Distributes the component bounds of a conjunction into its child at place `i`.
    The other children stay outside. -/
def distributeAt (f : Folder) (children : List Folding) (i : Nat) (child : Folding) :
    Option Query := do
  let disjuncts ← child.disjuncts?
  let isAnchor (c : Folding) (j : Nat) : Bool := j != i && f.isComponentBound c.source
  let anchors := (children.zipIdx.filter fun (c, j) => isAnchor c j).map (·.1)
  if anchors.isEmpty then none
  else
    let distributed ← f.distributeInto anchors disjuncts
    -- the anchors now stand in each of the disjuncts
    return .conj (children.zipIdx.filterMap fun (c, j) =>
      if j = i then some distributed else if isAnchor c j then none else some c.folded)

/-- Distributes the component bounds of a conjunction into its first disjunction
    that gains from it. -/
def distribute (f : Folder) (children : List Folding) : Option Query :=
  children.zipIdx.findSome? fun (child, i) => f.distributeAt children i child

/-- The folded form of a conjunction. -/
def foldConjunction (f : Folder) (children : List Folding) : Query :=
  (f.distribute children).getD (f.compose children).1

mutual

/-- A query beside its folded form. -/
def folding (f : Folder) : Query → Folding
  | .junction .and cs =>
    let parts := f.foldings cs
    .mk (.junction .and cs) (f.foldConjunction parts) parts
  | .junction .or cs =>
    let parts := f.foldings cs
    .mk (.junction .or cs) (.disj (parts.map Folding.folded)) parts
  | .group c =>
    let part := f.folding c
    .mk (.group c) (.group part.folded) [part]
  | .compare c => .mk (.compare c) (f.widen (.compare c)) []
  | .marked m note c =>
    let part := f.folding c
    let folded : Query :=
      match m with
      | .bounded => f.widen (.marked m note c)
      | .lenient | .strict | .list | .term => .marked m note part.folded
      | _ => .marked m note c
    .mk (.marked m note c) folded [part]
  | .not c => .mk (.not c) (.not c) [f.folding c]
  | .call c => .mk (.call c) (.call c) []

/-- The same for several queries. -/
def foldings (f : Folder) : List Query → List Folding
  | [] => []
  | c :: cs => f.folding c :: f.foldings cs

end

end Folder

namespace Query

/-- Folds bounds on components into look-ups on composite fields. A configuration
    without composite fields leaves the query as it is. -/
def fold (q : Query) (config : Config) : Query :=
  let folder := Folder.ofConfig config
  if folder.mappings.isEmpty then q else (folder.folding q).folded

end Query

end IndexQuery
