import IndexQuery.Query.Token

/-! # Reading query text

    The grammar, from the loosest to the tightest binding:

    * disjunctions of operands joined by `||` or `or`;
    * conjunctions of operands joined by `&&` or `and`;
    * negations, by `!` or `not`;
    * parentheses, comparisons `FIELD op literal`, calls `family:name(arg, ...)` and
      assignments to markers, which must open a conjunction with one other operand.

    Parentheses leave no trace in the tree.

    A text is read token by token. The levels that are open, one for the text and one
    for each parenthesis, hold what is complete; the place says what has to follow.
-/

namespace IndexQuery

/-- A query, or an assignment to a marker that still waits for its child. -/
inductive Operand where
  | query (query : Query)
  | assignment (label : String) (value : String)
deriving Inhabited

namespace Operand

/-- An operand where a query must stand. -/
def toQuery : Operand → Except ParseError Query
  | .query q => .ok q
  | .assignment label _ => .error (.invalidMarker (.misplaced label))

/-- Marks a query by the assignment `label = value`. Only a dropped clause takes a
    reason, and it notes the text of the clause. -/
def applyMarker (label value : String) (child : Query) : Except ParseError Query :=
  match Marker.ofLabel? label with
  | none => .error (.invalidMarker (.unknown label))
  | some .drop => .ok (.dropped value child)
  | some marker =>
    if value = "true" then .ok (.mark marker child)
    else .error (.invalidMarker (.reasonRefused label))

/-- The operands of a conjunction as one operand. -/
def conjoin : List Operand → Except ParseError Operand
  | [operand] => .ok operand
  | [.assignment label value, operand] => do
    return .query (← applyMarker label value (← operand.toQuery))
  | .assignment .. :: _ => .error (.invalidMarker .manyChildren)
  | operands => do return .query (.conj (← operands.mapM toQuery))

end Operand

namespace Parser

/-! ## Leaves -/

/-- Whether a name is that of a field: upper case, with digits, `_` and `.`. -/
def isFieldName (name : String) : Bool :=
  name.toList.any Char.isUpper &&
    name.toList.all fun c => c.isUpper || c.isDigit || c == '_' || c == '.'

/-- A token as the literal of a comparison. -/
def literalOf (t : Token) : Except ParseError Literal :=
  match t.kind with
  | .quoted s => .ok (.string s)
  | .number n => .ok (.number n)
  | .nullKeyword => .ok .null
  | _ => .error (t.unexpected .literal)

/-- A token as an argument of a call. -/
def argumentOf (t : Token) : Except ParseError Argument :=
  match t.kind with
  | .word name => .ok (if isFieldName name then .field name else .identifier name)
  | .quoted s => .ok (.literal (.string s))
  | .number n => .ok (.literal (.number n))
  | .nullKeyword => .ok (.literal .null)
  | _ => .error (t.unexpected .functionArgument)

/-- A token as the value assigned to a marker. -/
def markerValueOf (t : Token) : Except ParseError String :=
  match t.kind with
  | .trueKeyword => .ok "true"
  | .quoted s => .ok s
  | _ => .error (t.unexpected .trueOrReason)

/-! ## Levels -/

/-- The whole text or what stands in parentheses, as far as it is complete. -/
structure Level where
  /-- The operands of the disjunction before the current one, the last one first. -/
  disjuncts : List Query := []
  /-- The operands of the current conjunction, the last one first. -/
  conjuncts : List Operand := []
  /-- The number of negations before the next operand. -/
  negations : Nat := 0
deriving Inhabited

namespace Level

/-- The level with one more operand, which takes the negations before it. -/
def add (level : Level) (operand : Operand) : Except ParseError Level :=
  if level.negations = 0 then .ok { level with conjuncts := operand :: level.conjuncts }
  else do
    let negated := Nat.repeat Query.not level.negations (← operand.toQuery)
    return { level with conjuncts := .query negated :: level.conjuncts, negations := 0 }

/-- The level behind an `or`. -/
def endConjunction (level : Level) : Except ParseError Level := do
  let operand ← Operand.conjoin level.conjuncts.reverse
  return { disjuncts := (← operand.toQuery) :: level.disjuncts }

/-- The operand that the level is once it ends. -/
def operand (level : Level) : Except ParseError Operand := do
  let last ← Operand.conjoin level.conjuncts.reverse
  if level.disjuncts.isEmpty then return last
  else return .query (.disj ((← last.toQuery) :: level.disjuncts).reverse)

end Level

/-! ## Places -/

/-- A place between two tokens. -/
inductive Place where
  | beforeOperand
  | afterWord (name : String)
  | afterOperator (field : String) (op : CompareOp)
  /-- Behind an assignment sign. -/
  | afterAssign (label : String)
  /-- Behind the colon of a call. -/
  | afterColon (family : String)
  | afterFunction (family name : String)
  /-- Behind the opening parenthesis of a call. -/
  | afterOpening (family name : String)
  /-- Behind a comma of a call, with the arguments so far, the last one first. -/
  | afterComma (family name : String) (args : List Argument)
  | afterArgument (family name : String) (args : List Argument)
  | afterOperand
deriving DecidableEq, Repr, Inhabited

/-- The text up to a place. -/
structure State where
  place : Place := .beforeOperand
  inner : Level := {}
  /-- The levels around the inner one, the nearest first. -/
  outer : List Level := []
deriving Inhabited

namespace State

/-- The same text, read on to a place within an operand. -/
def goTo (s : State) (place : Place) : Except ParseError State := .ok { s with place }

/-- The text up to the end of an operand. -/
def complete (s : State) (operand : Operand) : Except ParseError State := do
  return { s with place := .afterOperand, inner := ← s.inner.add operand }

/-- The text up to the end of a call, given the arguments, the last one first. -/
def completeCall (s : State) (family name : String) (args : List Argument) :
    Except ParseError State :=
  s.complete (.query (.call ⟨family, name, args.reverse⟩))

/-- Reads the beginning of an operand. -/
def readStart (s : State) (t : Token) : Except ParseError State :=
  match t.kind with
  | .not => .ok { s with inner.negations := s.inner.negations + 1 }
  | .openParen => .ok { place := .beforeOperand, inner := {}, outer := s.inner :: s.outer }
  | .word name => s.goTo (.afterWord name)
  | _ => .error (t.unexpected .operand)

/-- Reads what follows an operand. -/
def readEnd (s : State) (t : Token) : Except ParseError State :=
  match t.kind with
  | .and => s.goTo .beforeOperand
  | .or => do return { s with place := .beforeOperand, inner := ← s.inner.endConjunction }
  | kind => do
    let operand ← s.inner.operand
    match s.outer with
    | [] =>
      -- a misplaced assignment comes first, and so does its error
      let _ ← operand.toQuery
      .error (t.unexpected .endOfQuery)
    | parent :: outer =>
      if kind = .closeParen then complete { inner := parent, outer } operand
      else .error (t.unexpected .closeParen)

/-- Reads a token. -/
def read (s : State) (t : Token) : Except ParseError State :=
  match s.place with
  | .beforeOperand => s.readStart t
  | .afterWord name =>
    match t.kind with
    | .colon => s.goTo (.afterColon name)
    | .assign => s.goTo (.afterAssign name)
    | .op op => s.goTo (.afterOperator name op)
    | _ => .error (t.unexpected .operator)
  | .afterOperator field op => do s.complete (.query (.compareWith op field (← literalOf t)))
  | .afterAssign label => do s.complete (.assignment label (← markerValueOf t))
  | .afterColon family =>
    match t.kind with
    | .word name => s.goTo (.afterFunction family name)
    | _ => .error (t.unexpected .functionName)
  | .afterFunction family name =>
    if t.kind = .openParen then s.goTo (.afterOpening family name)
    else .error (t.unexpected .openParen)
  | .afterOpening family name =>
    if t.kind = .closeParen then s.completeCall family name []
    else do s.goTo (.afterArgument family name [← argumentOf t])
  | .afterComma family name args => do
    s.goTo (.afterArgument family name ((← argumentOf t) :: args))
  | .afterArgument family name args =>
    match t.kind with
    | .comma => s.goTo (.afterComma family name args)
    | .closeParen => s.completeCall family name args
    | _ => .error (t.unexpected .argumentSeparator)
  | .afterOperand => s.readEnd t

/-- The query, once there are no more tokens. -/
def finish (s : State) : Except ParseError Query :=
  match s.place with
  | .beforeOperand => .error (.unexpectedEnd .expression)
  | .afterWord _ => .error (.unexpectedEnd .operator)
  | .afterOperator .. => .error (.unexpectedEnd .literal)
  | .afterAssign _ => .error (.unexpectedEnd .markerValue)
  | .afterColon _ => .error (.unexpectedEnd .functionName)
  | .afterFunction .. => .error (.unexpectedEnd .openParen)
  | .afterOpening .. | .afterComma .. => .error (.unexpectedEnd .functionArgument)
  | .afterArgument .. => .error (.unexpectedEnd .argumentSeparator)
  | .afterOperand => do
    let operand ← s.inner.operand
    if s.outer.isEmpty then operand.toQuery else .error (.unexpectedEnd .closeParen)

end State

end Parser

namespace Query

/-- Reads a query from its text. -/
def parse (text : String) : Except ParseError Query := do
  let tokens ← Token.ofText text
  if tokens.isEmpty then .error .empty
  else (← tokens.foldlM Parser.State.read {}).finish

end Query

end IndexQuery
