import Std.Data.HashMap

/-! # Remembered values

    A memo keeps values of a function. It never holds a wrong one, so asking it
    gives the value of the function.
-/

namespace IndexQuery

/-- The values of a function that were found so far. -/
structure Memo {α β : Type} [BEq α] [LawfulBEq α] [Hashable α] (f : α → β) where
  known : Std.HashMap α β := ∅
  faithful : ∀ a b, known[a]? = some b → b = f a := by simp

namespace Memo

variable {α β : Type} [BEq α] [LawfulBEq α] [Hashable α] {f : α → β}

instance : EmptyCollection (Memo f) := ⟨{}⟩

instance : Inhabited (Memo f) := ⟨∅⟩

/-- The number of values. -/
def size (m : Memo f) : Nat := m.known.size

/-- The memo with the value at `a`. -/
def remember (m : Memo f) (a : α) (b : β) (h : b = f a) : Memo f :=
  ⟨m.known.insert a b, fun x y hy => by
    rw [Std.HashMap.getElem?_insert] at hy
    split at hy
    · next hx => simp_all
    · exact m.faithful x y hy⟩

/-- The value at `a`, and the memo that knows it. -/
def ask (m : Memo f) (a : α) : β × Memo f :=
  match m.known[a]? with
  | some b => (b, m)
  | none =>
    let b := f a
    (b, m.remember a b rfl)

/-- The value is that of the function. -/
@[simp] theorem ask_fst (m : Memo f) (a : α) : (m.ask a).1 = f a := by
  unfold ask
  split
  · next b h => exact m.faithful a b h
  · rfl

end Memo

end IndexQuery
