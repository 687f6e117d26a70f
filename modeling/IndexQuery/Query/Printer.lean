import IndexQuery.Query.Bounds

/-! # Query text

    Every query has a text. Groups are written as parentheses, which reading
    does not keep; all else is written so that it is read back.
-/

namespace IndexQuery

/-! ## Quoted text -/

/-- The mark around written text. -/
def quoteMark : Char := '\x27'

/-- The character that protects the one after it. -/
def backslash : Char := '\\'

/-- Whether a backslash in front of `rest` would be taken for a protection. -/
def needsProtection (rest : List Char) : Bool :=
  match rest with
  | [] => true
  | c :: _ => c == backslash || c == quoteMark

/-- Protects what reading would consume: quote marks, and backslashes that stand
    before a quote mark, a backslash or the end. -/
def protect : List Char → List Char
  | [] => []
  | c :: rest =>
    if c = quoteMark then backslash :: quoteMark :: protect rest
    else if c = backslash && needsProtection rest then backslash :: backslash :: protect rest
    else c :: protect rest

/-- Text between quote marks. -/
def quoted (text : String) : String :=
  String.ofList (quoteMark :: protect text.toList ++ [quoteMark])

/-! ## Leaves -/

/-- The text of a literal. -/
def Literal.render : Literal → String
  | .string s => quoted s
  | .number s => s
  | .null => "null"

/-- The text of a comparison. -/
def Comparison.render (c : Comparison) : String :=
  c.field ++ " " ++ c.op.symbol ++ " " ++ c.literal.render

/-- The text of an argument. -/
def Argument.render : Argument → String
  | .field name | .identifier name => name
  | .literal value => value.render

/-- The text of a call. -/
def Call.render (c : Call) : String :=
  c.family ++ ":" ++ c.name ++ "(" ++ ", ".intercalate (c.args.map Argument.render) ++ ")"

/-! ## Trees -/

/-- The operator between the children of a junction. -/
def Junction.separator : Junction → String
  | .and => " && "
  | .or => " || "

/-- The value that a marker is assigned: the reason of a note, else `true`. -/
def markerValue : Option DropNote → String
  | some note => quoted note.reason
  | none => "true"

namespace Query

/-- Whether the query is a junction. -/
def isJunction : Query → Bool
  | .junction .. => true
  | _ => false

mutual

/-- The text of a query. The groups directly around it are written only when
    `outer` says so, since negations and markers bring parentheses of their own. -/
def renderWith (outer : Bool) : Query → String
  | .junction kind cs => kind.separator.intercalate (renderOperands cs)
  | .not c => "!(" ++ c.renderWith false ++ ")"
  | .compare c => c.render
  | .call c => c.render
  | .group c => if outer then "(" ++ c.renderWith true ++ ")" else c.renderWith false
  | .marked m note c =>
    "((" ++ m.label ++ " = " ++ markerValue note ++ ") && (" ++ c.renderWith false ++ "))"

/-- The texts of the children of a junction, with junctions in parentheses. -/
def renderOperands : List Query → List String
  | [] => []
  | c :: cs =>
    (if c.isJunction then "(" ++ c.renderWith true ++ ")" else c.renderWith true) ::
      renderOperands cs

end

/-- The text of a query. -/
def render (q : Query) : String := q.renderWith true

instance : ToString Query := ⟨render⟩

/-- Marks a query as excluded, with the reason and its text in the note. -/
def dropped (reason : String) (child : Query) : Query :=
  .marked .drop (some ⟨reason, child.render⟩) child

end Query

end IndexQuery
