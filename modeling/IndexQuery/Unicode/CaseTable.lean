/-! # Tables of character mappings

    A mapping between characters is given by runs: from `first` to `last`, every
    `stride`-th scalar value is moved by `shift`, and all others stay.
-/

namespace IndexQuery.Unicode

/-- One run of a mapping. -/
structure CaseRun where
  first : Nat
  last : Nat
  stride : Nat
  shift : Int

/-- A mapping from characters to characters. -/
structure CaseTable where
  runs : List CaseRun

/-- Whether a run moves a scalar value. -/
def CaseRun.covers (run : CaseRun) (n : Nat) : Bool :=
  run.first ≤ n && n ≤ run.last && (n - run.first) % run.stride == 0

/-- The scalar values that a run moves, with their images. -/
def CaseRun.moves (run : CaseRun) : List (Nat × Nat) :=
  (List.range ((run.last - run.first) / run.stride + 1)).map fun k =>
    let n := run.first + k * run.stride
    (n, (n + run.shift).toNat)

/-- The image of a character, itself when no run covers it. -/
def CaseTable.map (table : CaseTable) (c : Char) : Char :=
  match table.runs.find? (·.covers c.toNat) with
  | some run => Char.ofNat (c.toNat + run.shift).toNat
  | none => c

/-- The scalar values that a mapping moves, with their images. -/
def CaseTable.moves (table : CaseTable) : List (Nat × Nat) := table.runs.flatMap CaseRun.moves

end IndexQuery.Unicode
