import IndexQuery.Config.Basic
import IndexQuery.Expansion.Clause

/-! # Expanding a query by normalizers

    Every clause is replaced by the forms that the normalizers of its field give it:

    * by a disjunction of them, or by a conjunction for `!=` and `!~`;
    * in calls, literals are replaced in place, by the normalizers of the fields
      that the call names or, if it names none, of every field of the query and
      every field with term frequencies; calls of the family `filter` stay.

    Siblings that are all the forms of a clause are left alone, so that a query
    that was expanded is not expanded again.
-/

namespace IndexQuery

/-- What happens in a subtree to a clause that no normalizer accepts. -/
structure Policy where
  lenient : Bool := false
  strict : Bool := false
  evaluationOnly : Bool := false
deriving DecidableEq, Repr, Inhabited

/-- The policy beneath a marker. -/
def Policy.beneath (p : Policy) : Marker → Policy
  | .lenient => { p with lenient := true }
  | .strict => { p with strict := true }
  | .evaluationOnly => { p with evaluationOnly := true }
  | _ => p

/-- Joins queries and leaves out what is repeated among the operands. -/
def Query.joinDistinct (kind : Junction) (children : List Query) : Query :=
  match Query.join kind children with
  | .junction kind cs => Query.join kind (distinct cs)
  | q => q

/-- What the expansion of a query consults. -/
structure Expander where
  catalog : Catalog
  config : Config
  /-- The fields whose normalizers apply to calls that name no field. -/
  queryFields : List String

namespace Expander

/-- The clause that a query is, if its field has normalizers. -/
def clause? (e : Expander) (q : Query) : Option Clause :=
  (Clause.of? q).filter fun clause => !(e.catalog.normalizersFor clause.field).isEmpty

/-- The forms of a clause, with a note on the arithmetic. -/
def variants (e : Expander) (clause : Clause) : Noted (Option (List (List String))) :=
  clause.variants (e.catalog.normalizersFor clause.field)

/-- The forms of a clause, `none` when no normalizer accepts it. -/
def variants? (e : Expander) (clause : Clause) : Option (List (List String)) :=
  (e.variants clause).value

/-- What becomes of a clause that no normalizer accepts. -/
def refused (e : Expander) (p : Policy) (q : Query) (clause : Clause) : Query :=
  -- what is left to evaluation already needs no second marker
  if p.evaluationOnly then q
  else if p.strict || e.config.isStrict clause.field then .mark .evaluationOnly q
  else if p.lenient || e.config.isLenient clause.field then q
  else
    .dropped ("no normalizer for " ++ clause.field ++ " accepts '" ++
      "' and '".intercalate clause.values ++ "'") q

/-- A clause by its forms. A clause that is its only form stays as it is. -/
def replaced (e : Expander) (p : Policy) (q : Query) (clause : Clause) :
    Option (List (List String)) → Query
  | none => e.refused p q clause
  | some [values] => if values = clause.values then q else (clause.withValues values).toQuery
  | some forms =>
    .joinDistinct clause.junction (forms.map fun values => (clause.withValues values).toQuery)

/-- A clause by its forms, with a note on the arithmetic. -/
def clauseExpansion (e : Expander) (p : Policy) (q : Query) (clause : Clause) : Noted Query :=
  e.replaced p q clause <$> e.variants clause

/-! ## Siblings -/

/-- The clauses among the children of a junction whose forms are joined by such a
    junction. -/
def clausesOf (e : Expander) (kind : Junction) (children : List Query) : List Clause :=
  children.filterMap fun c => (e.clause? c).filter (·.junction = kind)

/-- What the forms of a sibling say, if all of them are present. -/
def coverageBy (e : Expander) (present : Std.HashSet Clause.Content) (s : Clause) :
    Noted (List Clause.Content) := do
  let forms := ((← e.variants s).getD []).map fun values => (s.key, values)
  return if forms.all present.contains then forms else []

/-- What the siblings say that stay as they are: the forms of each sibling all of whose
    forms are siblings. -/
def coverage (e : Expander) (siblings : List Clause) : Noted (Std.HashSet Clause.Content) := do
  let present := Std.HashSet.ofList (siblings.map Clause.content)
  return .ofList (← Noted.each (e.coverageBy present) siblings).flatten

/-! ## Calls -/

/-- Adds a normalizer to a list that has none of its name yet. -/
def addNamed (normalizers : List Normalizer) (n : Normalizer) : List Normalizer :=
  if normalizers.any (·.name == n.name) then normalizers else normalizers ++ [n]

/-- The normalizers of several fields, the first one of each name. -/
def normalizersOf (e : Expander) (fields : List String) : List Normalizer :=
  (fields.flatMap e.catalog.normalizersFor).foldl addNamed []

/-- The form of a text among the results for it: as written if it is one of them, else
    the first. -/
def textOf (text : String) (results : List String) : String :=
  if results.contains text then text else results.head?.getD text

/-- The form of an argument: as written if some normalizer leaves it so, else what
    the first normalizer that accepts it makes of it. -/
def textExpansion (normalizers : List Normalizer) (text : String) : Noted String := do
  let results ← Noted.each (·.ofValue text) normalizers
  return textOf text (results.filterMap Except.toOption)

/-- An argument by its form. -/
def argumentExpansion (normalizers : List Normalizer) : Argument → Noted Argument
  | .literal l =>
    match l.text? with
    | some text => do
      let form ← textExpansion normalizers text
      return .literal (if form = text then l else .string form)
    | none => return .literal l
  | arg => return arg

/-- A call with its literals by their forms. -/
def callExpansion (e : Expander) (c : Call) : Noted Call :=
  if c.family = "filter" then return c
  else do
    let scope := if c.fields.isEmpty then e.queryFields else c.fields
    return { c with args := ← Noted.each (argumentExpansion (e.normalizersOf scope)) c.args }

/-! ## Trees -/

mutual

/-- A query with its clauses by their forms, with a note on the arithmetic. -/
def expansion (e : Expander) (p : Policy) : Query → Noted Query
  | .junction kind cs => do
    let covered ← e.coverage (e.clausesOf kind cs)
    return .joinDistinct kind (← e.expansions p kind covered cs)
  | .not c => .not <$> e.expansion p c
  | .group c => .group <$> e.expansion p c
  | .compare c =>
    match e.clause? (.compare c) with
    | some clause => e.clauseExpansion p (.compare c) clause
    | none => return .compare c
  | .call c => .call <$> e.callExpansion c
  | .marked m note c =>
    match m, e.clause? (.marked m note c) with
    | .exceededTerm, _ | .exceededValue, _ | .drop, _ => return .marked m note c
    | _, some clause => e.clauseExpansion p (.marked m note c) clause
    | m, none => .marked m note <$> e.expansion (p.beneath m) c

/-- The children of a junction, of which those in `covered` stay. -/
def expansions (e : Expander) (p : Policy) (kind : Junction)
    (covered : Std.HashSet Clause.Content) : List Query → Noted (List Query)
  | [] => return []
  | c :: cs => do
    let expanded ← (match (e.clause? c).filter (·.junction = kind) with
      | some clause =>
        if covered.contains clause.content then pure c else e.clauseExpansion p c clause
      | none => e.expansion p c)
    return expanded :: (← e.expansions p kind covered cs)

end

end Expander

namespace Query

/-- Expands a query by the normalizers of its fields, with a note whether the arithmetic
    of one of them left its range. -/
def expansion (q : Query) (catalog : Catalog) (config : Config) : Noted Query :=
  let queryFields := distinct (q.fields ++ config.termFrequencyFields.toList)
  Expander.expansion ⟨catalog, config, queryFields⟩ {} q

/-- Expands a query by the normalizers of its fields. -/
def expand (q : Query) (catalog : Catalog) (config : Config) : Query :=
  (q.expansion catalog config).value

end Query

end IndexQuery
