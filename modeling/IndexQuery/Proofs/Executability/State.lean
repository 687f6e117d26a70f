import IndexQuery.Executability.State

/-! # How states combine

    The state of a junction is given by the set of its children's states. It can be
    had child by child as well: for either way to combine there is a state of two
    children together, with `ignorable` as what changes nothing and `error` as what
    nothing changes.

    * `Combine.join`: the state of two children together.
    * `Combine.apply_cons`: a child more is joined to the state of the others.
    * `Combine.apply_rel`: what joining keeps of two states, combining keeps as well.
-/

namespace IndexQuery

theorem ExecState.mem_all (s : ExecState) : s ∈ ExecState.all := by
  cases s <;> decide

/-- What is said of every state can be checked state by state. -/
instance ExecState.decidableForall {p : ExecState → Prop} [DecidablePred p] :
    Decidable (∀ s, p s) :=
  decidable_of_iff (∀ s ∈ ExecState.all, p s) ⟨fun h s => h s s.mem_all, fun h s _ => h s⟩

namespace Combine

/-- The state of two children together. Where every child has to be executable, one
    that is not spoils one that is; else it is passed over. -/
def join (combine : Combine) (a b : ExecState) : ExecState :=
  match a, b with
  | .ignorable, s | s, .ignorable => s
  | .error, _ | _, .error => .error
  | .partially, _ | _, .partially => .partially
  | a, b =>
    if a = b then a
    else
      match combine with
      | .allOrNone =>
        if a = .nonExecutable ∨ b = .nonExecutable then .partially else .negatedExecutable
      | .allOrSome => if a = .executable ∨ b = .executable then .executable else .negatedExecutable

/-! ## States as a set -/

/-- The state of several children, given whether one of them is in each state that
    counts. -/
def ofFlags (combine : Combine) (executable negated non partially error : Bool) : ExecState :=
  if error then .error
  else if partially then .partially
  else
    match combine with
    | .allOrNone =>
      if non then if executable || negated then .partially else .nonExecutable
      else if negated then .negatedExecutable
      else if executable then .executable
      else .ignorable
    | .allOrSome =>
      if executable then .executable
      else if negated then .negatedExecutable
      else if non then .nonExecutable
      else .ignorable

/-- The state of several children, given the set of their states. -/
def ofStates (combine : Combine) (has : ExecState → Bool) : ExecState :=
  combine.ofFlags (has .executable) (has .negatedExecutable) (has .nonExecutable)
    (has .partially) (has .error)

theorem ofStates_congr {combine : Combine} {has has' : ExecState → Bool}
    (h : ∀ s, s ≠ .ignorable → has s = has' s) : combine.ofStates has = combine.ofStates has' := by
  have hexecutable := h .executable (by decide)
  have hnegated := h .negatedExecutable (by decide)
  have hnon := h .nonExecutable (by decide)
  have hpartially := h .partially (by decide)
  have herror := h .error (by decide)
  rw [ofStates, ofStates, hexecutable, hnegated, hnon, hpartially, herror]

theorem ofStates_singleton (combine : Combine) {s : ExecState} (h : s ≠ .ignorable) :
    combine.ofStates [s].contains = s := by
  revert s
  cases combine <;> decide

/-- The first two of items without repetitions differ. -/
theorem ne_of_eraseDups {states rest : List ExecState} {a b : ExecState}
    (h : states.eraseDups = a :: b :: rest) : a ≠ b := by
  cases states with
  | nil => cases h
  | cons s states =>
    rw [List.eraseDups_cons] at h
    obtain ⟨rfl, hrest⟩ := List.cons.inj h
    have hb : b ∈ (states.filter fun x => !x == s).eraseDups := by
      rw [hrest]
      exact List.mem_cons_self
    have hne := (List.mem_filter.1 (List.mem_eraseDups.1 hb)).2
    rintro rfl
    simp at hne

/-- Two states that differ are combined as any set that holds both. -/
theorem mixed_cons_cons (combine : Combine) {a b : ExecState} (rest : List ExecState)
    (ha : a ≠ .ignorable) (hb : b ≠ .ignorable) (hne : a ≠ b) :
    combine.mixed (a :: b :: rest) = combine.ofStates (a :: b :: rest).contains := by
  simp only [mixed, ofStates, List.contains_cons]
  generalize rest.contains ExecState.executable = executable
  generalize rest.contains ExecState.negatedExecutable = negated
  generalize rest.contains ExecState.nonExecutable = non
  generalize rest.contains ExecState.partially = partially
  generalize rest.contains ExecState.error = error
  revert executable negated non partially error a b
  cases combine <;> decide

/-- The state of several children depends on the set of their states alone. -/
theorem apply_eq_ofStates (combine : Combine) (states : List ExecState) :
    combine.apply states = combine.ofStates states.contains := by
  have hcontains : ∀ s, s ≠ .ignorable →
      states.contains s = ((states.filter (· ≠ .ignorable)).eraseDups).contains s := by
    intro s hs
    rw [Bool.eq_iff_iff]
    simp [List.mem_eraseDups, hs]
  have hrelevant : ∀ s ∈ (states.filter (· ≠ .ignorable)).eraseDups, s ≠ .ignorable := by
    simp [List.mem_eraseDups]
  rw [ofStates_congr hcontains, apply]
  generalize heq : (states.filter (· ≠ .ignorable)).eraseDups = relevant at hrelevant ⊢
  match relevant with
  | [] => cases combine <;> rfl
  | [s] => exact (ofStates_singleton combine (hrelevant s (by simp))).symm
  | a :: b :: rest =>
    exact mixed_cons_cons combine rest (hrelevant a (by simp)) (hrelevant b (by simp))
      (ne_of_eraseDups heq)

/-! ## Child by child -/

theorem ofFlags_cons (combine : Combine) (s : ExecState)
    (executable negated non partially error : Bool) :
    combine.ofFlags (.executable == s || executable) (.negatedExecutable == s || negated)
        (.nonExecutable == s || non) (.partially == s || partially) (.error == s || error) =
      combine.join s (combine.ofFlags executable negated non partially error) := by
  revert executable negated non partially error s
  cases combine <;> decide

@[simp] theorem apply_nil (combine : Combine) : combine.apply [] = .ignorable := rfl

/-- A child more is joined to the state of the others. -/
theorem apply_cons (combine : Combine) (s : ExecState) (states : List ExecState) :
    combine.apply (s :: states) = combine.join s (combine.apply states) := by
  simp only [apply_eq_ofStates, ofStates, List.contains_cons, ofFlags_cons]

theorem join_eq_error {combine : Combine} {a b : ExecState} :
    combine.join a b = .error ↔ a = .error ∨ b = .error := by
  revert a b
  cases combine <;> decide

theorem join_eq_ignorable {combine : Combine} {a b : ExecState} :
    combine.join a b = .ignorable ↔ a = .ignorable ∧ b = .ignorable := by
  revert a b
  cases combine <;> decide

/-- An error among the children is one of their junction. -/
theorem apply_eq_error {combine : Combine} {states : List ExecState} :
    combine.apply states = .error ↔ .error ∈ states := by
  induction states with
  | nil => simp
  | cons s states ih => rw [apply_cons, join_eq_error, ih, List.mem_cons, eq_comm]

theorem apply_eq_ignorable {combine : Combine} {states : List ExecState} :
    combine.apply states = .ignorable ↔ ∀ s ∈ states, s = .ignorable := by
  induction states with
  | nil => simp
  | cons s states ih => rw [apply_cons, join_eq_ignorable, ih, List.forall_mem_cons]

/-- What joining keeps of two states, combining keeps as well. -/
theorem apply_rel {α : Type} {combine : Combine} {r : ExecState → ExecState → Prop}
    {f g : α → ExecState} (hnil : r .ignorable .ignorable)
    (hjoin : ∀ a b a' b', r a b → r a' b' → r (combine.join a a') (combine.join b b'))
    {items : List α} (h : ∀ x ∈ items, r (f x) (g x)) :
    r (combine.apply (items.map f)) (combine.apply (items.map g)) := by
  induction items with
  | nil => exact hnil
  | cons x items ih =>
    rw [List.map_cons, List.map_cons, apply_cons, apply_cons]
    exact hjoin _ _ _ _ (h x List.mem_cons_self) (ih fun y hy => h y (List.mem_cons_of_mem x hy))

end Combine

end IndexQuery
