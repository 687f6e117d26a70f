import IndexQuery.Document
import IndexQuery.Lookup.Basic
import IndexQuery.Memo
import IndexQuery.Store.Source

/-! # Running look-ups

    A leaf is a look-up with a cursor of its own and with the answers of its test
    that it has found so far. Evaluating it moves the cursor and fills the memo;
    neither changes what is found.
-/

namespace IndexQuery

/-- What an evaluation found, and what is left to be evaluated again. -/
structure Outcome (α : Type) where
  matched : Bool
  document : Document
  next : α

/-- A look-up that can be evaluated. -/
structure Leaf where
  lookup : Lookup
  cursor : Cursor
  memo : Memo lookup.test.accepts := ∅

namespace Leaf

/-- The leaf of a look-up on a source. -/
def start (lookup : Lookup) (source : Source) : Leaf := { lookup, cursor := { source } }

/-- The leaf as it was at the start. -/
def fresh (leaf : Leaf) : Leaf := start leaf.lookup leaf.cursor.source

/-- The leaf without remembered answers. -/
def reset (leaf : Leaf) : Leaf := { leaf with memo := ∅ }

/-- The number of remembered answers, for a test whose answers are remembered. -/
def remembered? (leaf : Leaf) : Option Nat :=
  if leaf.lookup.test.isCostly then some leaf.memo.size else none

/-- Whether a value passes the test. -/
def check (leaf : Leaf) (value : String) : Bool × Leaf :=
  if leaf.lookup.test.isCostly then
    let (answer, memo) := leaf.memo.ask value
    (answer, { leaf with memo })
  else (leaf.lookup.test.accepts value, leaf)

/-- The values read from the keys of a range that pass the test; with `first`, no more
    than one. The cursor stays on its key then. -/
def collect (read : Lookup → Key → Option String) (first : Bool) (leaf : Leaf) :
    List Key → List String × Leaf
  | [] => ([], { leaf with cursor.key? := none })
  | key :: rest =>
    match read leaf.lookup key with
    | none => collect read first leaf rest
    | some value =>
      match leaf.check value with
      | (true, leaf) =>
        if first then ([value], { leaf with cursor.key? := some key })
        else
          let (values, leaf) := collect read first leaf rest
          (value :: values, leaf)
      | (false, leaf) => collect read first leaf rest

/-- The values in a range that pass the test. -/
def gather (read : Lookup → Key → Option String) (first : Bool) (range : KeyRange) (leaf : Leaf) :
    List String × Leaf :=
  collect read first { leaf with cursor := leaf.cursor.seek range } (leaf.cursor.scan range)

/-- Whether the record has a value that passes the test. If values are collected,
    they are added to the document. -/
def evaluate (leaf : Leaf) (document : Document) : Outcome Leaf :=
  let lookup := leaf.lookup
  match leaf.gather Lookup.fieldValue? (!lookup.aggregate) lookup.scanRange with
  | ([], leaf) => ⟨false, document, leaf⟩
  | (found, leaf) =>
    if !lookup.aggregate then ⟨true, document, leaf⟩
    else if lookup.termFrequency then
      let (terms, leaf) := leaf.gather Lookup.termValue? false lookup.record.termRange
      ⟨true, document.insertAll lookup.field terms, leaf⟩
    else ⟨true, document.insertAll lookup.field found, leaf⟩

end Leaf

end IndexQuery
