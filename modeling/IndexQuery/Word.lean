/-! # Arithmetic on words

    Digits are held in bytes, and powers of ten in words of 32 bits. A result that
    does not fit wraps around, and a list gives the part of a stretch that it has.
    Neither goes unnoticed: a result carries a note whether that happened on the way.
-/

namespace IndexQuery

/-- A result, and whether an operation on the way to it left its range. -/
structure Noted (α : Type) where
  value : α
  overflow : Bool
deriving DecidableEq, Repr, Inhabited

namespace Noted

instance : Monad Noted where
  pure a := ⟨a, false⟩
  bind x f := ⟨(f x.value).value, x.overflow || (f x.value).overflow⟩

variable {α β : Type}

@[simp] theorem value_pure (a : α) : (pure a : Noted α).value = a := rfl

@[simp] theorem overflow_pure (a : α) : (pure a : Noted α).overflow = false := rfl

@[simp] theorem value_bind (x : Noted α) (f : α → Noted β) :
    (x >>= f).value = (f x.value).value := rfl

@[simp] theorem overflow_bind (x : Noted α) (f : α → Noted β) :
    (x >>= f).overflow = (x.overflow || (f x.value).overflow) := rfl

@[simp] theorem value_map (f : α → β) (x : Noted α) : (f <$> x).value = f x.value := rfl

@[simp] theorem overflow_map (f : α → β) (x : Noted α) : (f <$> x).overflow = x.overflow :=
  Bool.or_false _

/-- The results for all elements of a list. -/
def each (f : α → Noted β) (l : List α) : Noted (List β) :=
  ⟨l.map fun a => (f a).value, l.any fun a => (f a).overflow⟩

@[simp] theorem value_each (f : α → Noted β) (l : List α) :
    (each f l).value = l.map fun a => (f a).value := rfl

/-- What stays within its range for every element does so for a list. -/
theorem overflow_each {f : α → Noted β} {l : List α} (h : ∀ a ∈ l, (f a).overflow = false) :
    (each f l).overflow = false := by
  rw [each, List.any_eq_false]
  exact fun a ha => by simp [h a ha]

/-- The stretch of a list from one place to another, both included. -/
def stretch (l : List α) (first last : Nat) : Noted (List α) :=
  ⟨(l.take (last + 1)).drop first, decide (last + 1 < first ∨ l.length ≤ last)⟩

end Noted

namespace Word

/-- The difference of two bytes. -/
def subByte (a b : UInt8) : Noted UInt8 := ⟨a - b, decide (a < b)⟩

/-- The sum of two bytes. -/
def addByte (a b : UInt8) : Noted UInt8 := ⟨a + b, decide (256 ≤ a.toNat + b.toNat)⟩

/-- Whether an integer fits 32 bits. -/
def fits (i : Int) : Bool := decide (-2147483648 ≤ i ∧ i ≤ 2147483647)

/-- The word of an integer. -/
def ofInt (i : Int) : Noted Int32 := ⟨.ofInt i, !fits i⟩

/-- The word of an integer, if it fits. -/
def ofInt? (i : Int) : Option Int32 := if fits i then some (.ofInt i) else none

/-- The byte of a word. -/
def toByte (w : Int32) : Noted UInt8 := ⟨.ofInt w.toInt, decide (w.toInt < 0 ∨ 256 ≤ w.toInt)⟩

end Word

end IndexQuery
