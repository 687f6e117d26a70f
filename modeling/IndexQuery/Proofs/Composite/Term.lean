import IndexQuery.Proofs.Composite.Alphabet
import IndexQuery.Proofs.Composite.Joined
import IndexQuery.Proofs.Outcome
import Mathlib.Data.List.Forall2

/-! # Composite terms find every match

    The bound on a composite field is made of bounds on its components. It admits
    every joined value whose components satisfy theirs.

    * `CompositeTerm.accepts_of_lowerValues`, `CompositeTerm.accepts_of_upperValues`:
      either side of a range.
    * `CompositeTerm.admits_of_ofBounds`: the term admits the joined value.
    * `CompositeTerm.eq_of_ofBounds_exact`: an exact term admits no other one.
-/

namespace IndexQuery

namespace CompositeTerm

variable {alphabets : Alphabets} {complete : Bool}

/-! ## Bounds beside values -/

theorem ne_nil_of_length_eq {α β : Type} {as : List α} {bs : List β}
    (h : as.length = bs.length) (hne : as ≠ []) : bs ≠ [] := by
  intro hnil
  rw [hnil, List.length_nil, List.length_eq_zero_iff] at h
  exact hne h

/-- A value of a component that satisfies a bound from one side, or an exact one. Where the
    component has an alphabet, the value is over it and as wide as the literal. -/
structure Fits (side : CompareOp → Bool) (alphabets : Alphabets) (component : String × ValueBound)
    (value : String) : Prop where
  admits : component.2.admits value = true
  fixed : ∀ a, alphabets component.1 = some a →
    value.length = component.2.value.length ∧ a.isOver value = true
  side : component.2.op = .eq ∨ side component.2.op = true

/-- A component without an alphabet has a strict bound from above, and its literal goes on
    behind the value with a character that is not greater than the separator. The value is
    smaller than the literal then, but joined with others it may not be. -/
def Overruns (m : Mapping) (alphabets : Alphabets) (component : String × ValueBound)
    (value : String) : Prop :=
  component.2.op = .lt ∧ alphabets component.1 = none ∧
    ∃ c rest, component.2.value.toList = value.toList ++ c :: rest ∧ c ≤ m.separator

/-- What a bound from above needs of a value that others are joined to, unless all components
    are bounded. -/
structure UpperWithin (m : Mapping) (alphabets : Alphabets) (complete : Bool)
    (component : String × ValueBound) (value : String) : Prop
    extends Fits CompareOp.isUpperBound alphabets component value where
  within : complete = true ∨ ¬ Overruns m alphabets component value

theorem requireFixed_eq_ok {field : String} {a : Alphabet}
    (h : requireFixed alphabets field = .ok a) : alphabets field = some a := by
  unfold requireFixed at h
  split at h
  · cases h; assumption
  · cases h

theorem stepUp_eq_ok {field value next : String} (h : stepUp alphabets field value = .ok next) :
    ∃ a, alphabets field = some a ∧ a.increment value = some next := by
  unfold stepUp at h
  obtain ⟨a, ha, h⟩ := bind_eq_ok.1 h
  refine ⟨a, requireFixed_eq_ok ha, ?_⟩
  split at h
  · cases h; assumption
  · cases h

theorem stepDown_eq_ok {field value previous : String}
    (h : stepDown alphabets field value = .ok previous) :
    ∃ a, alphabets field = some a ∧ a.decrement value = some previous := by
  unfold stepDown at h
  obtain ⟨a, ha, h⟩ := bind_eq_ok.1 h
  refine ⟨a, requireFixed_eq_ok ha, ?_⟩
  split at h
  · cases h; assumption
  · cases h

/-- Past a value there is nothing before the next one. -/
theorem Fits.stepUp_le {side : CompareOp → Bool} {field literal value next : String}
    (h : Fits side alphabets (field, ⟨.gt, literal⟩) value)
    (hnext : stepUp alphabets field literal = .ok next) :
    next ≤ value ∧ next.length = value.length := by
  obtain ⟨a, ha, hincrement⟩ := stepUp_eq_ok hnext
  obtain ⟨hlen, hover⟩ := h.fixed a ha
  obtain ⟨hnextlen, -, -, hfirst⟩ := Alphabet.increment_eq_some hincrement
  have hgreater : literal < value := by simpa using h.admits
  exact ⟨hfirst value hlen hover hgreater, by rw [hnextlen, hlen]⟩

/-- Before a value there is nothing past the previous one. -/
theorem Fits.le_stepDown {side : CompareOp → Bool} {field literal value previous : String}
    (h : Fits side alphabets (field, ⟨.lt, literal⟩) value)
    (hprevious : stepDown alphabets field literal = .ok previous) :
    value ≤ previous ∧ previous.length = value.length := by
  obtain ⟨a, ha, hdecrement⟩ := stepDown_eq_ok hprevious
  obtain ⟨hlen, hover⟩ := h.fixed a ha
  obtain ⟨hpreviouslen, -, -, hfirst⟩ := Alphabet.decrement_eq_some hdecrement
  have hsmaller : value < literal := by simpa using h.admits
  exact ⟨hfirst value hlen hover hsmaller, by rw [hpreviouslen, hlen]⟩

/-! ## Lower bounds -/

/-- The value that a lower bound on a component contributes. `last` says that no
    bounded component follows. -/
def lowerValue (alphabets : Alphabets) (field : String) (b : ValueBound) (last : Bool) :
    Except FoldObstacle String :=
  if b.op = .gt then stepUp alphabets field b.value
  else if b.op = .ge && !last then (requireFixed alphabets field).map fun _ => b.value
  else .ok b.value

theorem lowerValues_cons (field : String) (b : ValueBound) (rest : List (String × ValueBound)) :
    lowerValues alphabets complete ((field, b) :: rest) =
      if b.op = .gt && rest.isEmpty && complete then .ok (.gt, [b.value])
      else do
        let x ← lowerValue alphabets field b rest.isEmpty
        let (op, values) ← lowerValues alphabets complete rest
        return (op, x :: values) := by
  rw [lowerValues, lowerValue]
  split
  · rfl
  · split
    · rfl
    · split
      · cases requireFixed alphabets field <;> rfl
      · rfl

/-- Where other components follow, the contributed value is exact or as wide as the
    values of the component. -/
theorem Fits.lowerValue_le {field value x : String} {b : ValueBound} {last : Bool}
    (h : Fits CompareOp.isLowerBound alphabets (field, b) value)
    (hx : lowerValue alphabets field b last = .ok x) :
    x ≤ value ∧ (last = false → x.length = value.length) := by
  obtain ⟨op, literal⟩ := b
  cases op with
  | gt =>
    obtain ⟨hle, hlen⟩ := h.stepUp_le (by simpa [lowerValue] using hx)
    exact ⟨hle, fun _ => hlen⟩
  | ge =>
    have hle : literal ≤ value := by simpa using h.admits
    cases last with
    | true =>
      cases hx
      exact ⟨hle, fun hlast => by cases hlast⟩
    | false =>
      cases ha : requireFixed alphabets field with
      | error e => simp [lowerValue, ha, Except.map] at hx
      | ok a =>
        simp [lowerValue, ha, Except.map] at hx
        subst hx
        exact ⟨hle, fun _ => (h.fixed a (requireFixed_eq_ok ha)).1.symm⟩
  | eq =>
    have heq : value = literal := by simpa using h.admits
    subst heq
    cases hx
    exact ⟨String.le_refl _, fun _ => rfl⟩
  | ne | lt | le | regex | notRegex => simpa [CompareOp.isLowerBound] using h.side

/-- The lower bound on joined values admits them when each bounded component in front
    satisfies its bound. The values `ws` of the components behind are arbitrary. -/
theorem accepts_of_lowerValues (m : Mapping) :
    ∀ (bounds : List (String × ValueBound)) (vs ws : List String) (op : CompareOp)
      (xs : List String),
      lowerValues alphabets complete bounds = .ok (op, xs) →
      List.Forall₂ (Fits CompareOp.isLowerBound alphabets) bounds vs → (complete = true → ws = []) →
      op.isLowerBound = true ∧ xs.length = bounds.length ∧
        op.accepts (m.joinValues (vs ++ ws)) (m.joinValues xs) = true
  | [], vs, ws, op, xs, h, _, _ => by
    cases h
    refine ⟨rfl, rfl, ?_⟩
    rw [Mapping.joinValues_nil]
    have hempty : ¬ m.joinValues (vs ++ ws) < "" := List.not_lt_nil _
    exact decide_eq_true hempty
  | (field, b) :: rest, v :: vs, ws, op, xs, h, .cons hv hvs, hws => by
    rw [lowerValues_cons] at h
    split at h
    · -- the last component bounds the whole value
      rename_i hlast
      simp only [Bool.and_eq_true, decide_eq_true_eq, List.isEmpty_iff] at hlast
      obtain ⟨⟨hgt, rfl⟩, hcomplete⟩ := hlast
      cases hvs
      cases h
      rw [hws hcomplete]
      exact ⟨rfl, rfl, by simpa [ValueBound.admits, hgt] using hv.admits⟩
    · obtain ⟨x, hx, h⟩ := bind_eq_ok.1 h
      obtain ⟨⟨op', ys⟩, hys, h⟩ := bind_eq_ok.1 h
      cases h
      obtain ⟨hle, hlen⟩ := hv.lowerValue_le hx
      obtain ⟨hop, hyslen, haccepts⟩ :=
        accepts_of_lowerValues m rest vs ws op ys hys hvs hws
      refine ⟨hop, by simp [hyslen], ?_⟩
      -- the last value need not be as wide as the literal: the join begins with it
      by_cases hrest : rest = []
      · subst hrest
        cases hys
        have hjoin := Std.le_trans hle (m.le_joinValues_cons v (vs ++ ws))
        simpa using hjoin
      · have hvs' : vs ++ ws ≠ [] :=
          List.append_ne_nil_of_left_ne_nil (ne_nil_of_length_eq hvs.length_eq hrest) ws
        have hys' : ys ≠ [] := ne_nil_of_length_eq hyslen.symm hrest
        exact m.accepts_joinValues_of_le hop hle (hlen (by simpa using hrest)) hvs' hys' haccepts

/-! ## Upper bounds -/

/-- The value that an upper bound on a component contributes when another bounded
    component follows. -/
def upperValue (alphabets : Alphabets) (field : String) (b : ValueBound) :
    Except FoldObstacle String :=
  if b.op = .lt then stepDown alphabets field b.value
  else if b.op = .le then (requireFixed alphabets field).map fun _ => b.value
  else .ok b.value

theorem upperValues_cons (field : String) (b : ValueBound) {rest : List (String × ValueBound)}
    (hrest : rest ≠ []) :
    upperValues alphabets complete ((field, b) :: rest) = do
      let x ← upperValue alphabets field b
      let (op, values) ← upperValues alphabets complete rest
      return (op, x :: values) := by
  cases rest with
  | nil => exact absurd rfl hrest
  | cons p ps =>
    rw [upperValues, upperValue]
    · split
      · rfl
      · split
        · cases requireFixed alphabets field <;> rfl
        · rfl
    · simp

/-- The contributed value is exact or as wide as the values of the component. -/
theorem Fits.le_upperValue {field value x : String} {b : ValueBound}
    (h : Fits CompareOp.isUpperBound alphabets (field, b) value)
    (hx : upperValue alphabets field b = .ok x) : value ≤ x ∧ x.length = value.length := by
  obtain ⟨op, literal⟩ := b
  cases op with
  | lt => exact h.le_stepDown (by simpa [upperValue] using hx)
  | le =>
    have hle : value ≤ literal := by simpa using h.admits
    cases ha : requireFixed alphabets field with
    | error e => simp [upperValue, ha, Except.map] at hx
    | ok a =>
      simp [upperValue, ha, Except.map] at hx
      subst hx
      exact ⟨hle, (h.fixed a (requireFixed_eq_ok ha)).1.symm⟩
  | eq =>
    have heq : value = literal := by simpa using h.admits
    subst heq
    cases hx
    exact ⟨String.le_refl _, rfl⟩
  | ne | gt | ge | regex | notRegex => simpa [CompareOp.isUpperBound] using h.side

/-- The last bounded component. What follows a value leaves it below a strict bound only
    when they are of the same width, or differ before the value ends. -/
theorem UpperWithin.accepts_of_upperValues_last {m : Mapping} {field value : String}
    {b : ValueBound} {ws : List String} {op : CompareOp} {xs : List String}
    (hv : UpperWithin m alphabets complete (field, b) value)
    (h : upperValues alphabets complete [(field, b)] = .ok (op, xs))
    (hws : complete = true → ws = []) :
    op.isUpperBound = true ∧ xs.length = 1 ∧
      op.accepts (m.joinValues (value :: ws)) (m.joinValues xs) = true := by
  obtain ⟨bop, literal⟩ := b
  rw [upperValues] at h
  split at h
  · rename_i hstrict
    subst hstrict
    cases h
    have hsmaller : value < literal := by
      simpa using hv.admits
    refine ⟨rfl, rfl, ?_⟩
    -- the bound is taken as it is, so that what follows the value must not reach it
    rw [m.joinValues_singleton, CompareOp.accepts_lt]
    rcases hv.within with hcomplete | hwithin
    · rwa [hws hcomplete, m.joinValues_singleton]
    · cases ha : alphabets field with
      | some a =>
        have hjoin := m.joinValues_lt_of_lt (hv.fixed a ha).1 hsmaller ws []
        rwa [m.joinValues_singleton] at hjoin
      | none =>
        refine m.joinValues_cons_lt hsmaller (fun c rest hliteral => ?_) ws
        exact Std.not_le.1 fun hle => hwithin ⟨rfl, ha, c, rest, hliteral, hle⟩
  · rename_i hnotStrict
    have hle : value ≤ literal := by
      cases bop with
      | eq =>
        have heq : value = literal := by
          simpa using hv.admits
        subst heq
        exact String.le_refl _
      | le => simpa using hv.admits
      | lt => exact absurd rfl hnotStrict
      | ne | gt | ge | regex | notRegex => simpa [CompareOp.isUpperBound] using hv.side
    split at h
    · rename_i hcomplete
      cases h
      rw [hws hcomplete]
      exact ⟨rfl, rfl, by simpa using hle⟩
    · -- what follows the value may exceed the literal, but not the next one
      obtain ⟨next, hnext, h⟩ := bind_eq_ok.1 h
      cases h
      obtain ⟨a, ha, hincrement⟩ := stepUp_eq_ok hnext
      obtain ⟨hlen, -, hgreater, -⟩ := Alphabet.increment_eq_some hincrement
      have hbefore : value < next := Std.lt_of_le_of_lt hle hgreater
      have hjoin := m.joinValues_lt_of_lt (by rw [hlen, (hv.fixed a ha).1]) hbefore ws []
      exact ⟨rfl, rfl, by simpa using hjoin⟩

/-- The upper bound on joined values admits them when each bounded component in front
    satisfies its bound. The values `ws` of the components behind are arbitrary. -/
theorem accepts_of_upperValues (m : Mapping) :
    ∀ (bounds : List (String × ValueBound)) (vs ws : List String) (op : CompareOp)
      (xs : List String),
      upperValues alphabets complete bounds = .ok (op, xs) → bounds ≠ [] →
      List.Forall₂ (UpperWithin m alphabets complete) bounds vs → (complete = true → ws = []) →
      op.isUpperBound = true ∧ xs.length = bounds.length ∧
        op.accepts (m.joinValues (vs ++ ws)) (m.joinValues xs) = true
  | [], _, _, _, _, _, hne, _, _ => absurd rfl hne
  | (field, b) :: rest, v :: vs, ws, op, xs, h, _, .cons hv hvs, hws => by
    by_cases hrest : rest = []
    · subst hrest
      cases hvs
      exact hv.accepts_of_upperValues_last h hws
    · rw [upperValues_cons field b hrest] at h
      obtain ⟨x, hx, h⟩ := bind_eq_ok.1 h
      obtain ⟨⟨op', ys⟩, hys, h⟩ := bind_eq_ok.1 h
      cases h
      obtain ⟨hle, hlen⟩ := hv.le_upperValue hx
      obtain ⟨hop, hyslen, haccepts⟩ :=
        accepts_of_upperValues m rest vs ws op ys hys hrest hvs hws
      refine ⟨hop, by simp [hyslen], ?_⟩
      have hvs' : vs ++ ws ≠ [] :=
        List.append_ne_nil_of_left_ne_nil (ne_nil_of_length_eq hvs.length_eq hrest) ws
      have hys' : ys ≠ [] := ne_nil_of_length_eq hyslen.symm hrest
      exact m.accepts_joinValues_of_ge hop hle hlen hvs' hys' haccepts

/-! ## The bounds of a conjunction -/

/-- The components with the bounds on them, as `ofBounds` sees them. -/
def aligned (components : List String) (bounds : List (Option ComponentBound)) :
    List (String × Option ComponentBound) :=
  components.zipIdx.map fun (field, i) => (field, bounds[i]?.join)

/-- The bounds of the components from one side. -/
def sideOf (side : ComponentBound → Option ValueBound)
    (components : List (String × Option ComponentBound)) : Side :=
  components.map fun (field, b) => (field, b.bind side)

/-- Whether every component of a side is bounded. -/
def covers (m : Mapping) (side : Side) : Bool := (bounded side).length == m.components.length

theorem aligned_cons_cons (field : String) (fields : List String) (b : Option ComponentBound)
    (bounds : List (Option ComponentBound)) :
    aligned (field :: fields) (b :: bounds) = (field, b) :: aligned fields bounds := by
  simp [aligned, List.zipIdx_cons, List.zipIdx_succ, Function.comp_def]

theorem aligned_nil_right (fields : List String) :
    aligned fields [] = fields.map fun field => (field, none) := by
  induction fields with
  | nil => rfl
  | cons field fields ih =>
    simpa [aligned, List.zipIdx_cons, List.zipIdx_succ, Function.comp_def] using ih

/-- A side without a gap that has a bound has one in front. -/
theorem bounded_ne_nil {side : Side} (hbound : side.all (·.2.isNone) = false)
    (hgap : hasGap side = false) : bounded side ≠ [] := by
  match side with
  | [] => simp at hbound
  | (field, some b) :: rest => simp [bounded]
  | (field, none) :: rest =>
    rw [hasGap, List.any_eq_false] at hgap
    have hnone : rest.all (·.2.isNone) = true := by
      rw [List.all_eq_true]
      intro c hc
      simpa using hgap c hc
    simp [hnone] at hbound

/-- A term is exact or a range. It is a range where plain values of the first component are
    to be found too, and these have a lower bound of their own. -/
theorem ofBounds_eq_ok {m : Mapping} {bounds : List (Option ComponentBound)} {legacy : Bool}
    {term : CompositeTerm} (h : ofBounds m bounds alphabets legacy = .ok term) :
    let components := aligned m.components bounds
    let lowers := sideOf ComponentBound.lower components
    let uppers := sideOf ComponentBound.upper components
    (term = .exact (m.joinValues ((bounded lowers).map (·.2.value))) ∧
      components.all (fun (_, b) => b.any ComponentBound.isEquality) = true) ∨
    (bounded uppers ≠ [] ∧ ∃ lower uop us,
      (if legacy then legacyLower alphabets lowers = .ok lower
        else ∃ lop ls, lowerValues alphabets (covers m lowers) (bounded lowers) = .ok (lop, ls) ∧
          lower = ⟨lop, m.joinValues ls⟩) ∧
      upperValues alphabets (covers m uppers) (bounded uppers) = .ok (uop, us) ∧
      term = .range lower ⟨uop, m.joinValues us⟩) := by
  intro components lowers uppers
  unfold ofBounds at h
  simp only at h
  split at h
  · cases h
  · rename_i hbounded
    change ¬(lowers.all (·.2.isNone) || uppers.all (·.2.isNone)) = true at hbounded
    rw [Bool.or_eq_true, not_or, Bool.not_eq_true, Bool.not_eq_true] at hbounded
    split at h
    · cases h
    · rename_i hgap
      change ¬(hasGap lowers || hasGap uppers) = true at hgap
      rw [Bool.or_eq_true, not_or, Bool.not_eq_true, Bool.not_eq_true] at hgap
      have hne := bounded_ne_nil hbounded.2 hgap.2
      -- either side has bounds and no gaps: what is left is an exact term or a range
      split at h
      · cases h
      · split at h
        · rename_i hexact
          cases h
          rw [Bool.and_eq_true] at hexact
          exact .inl ⟨rfl, hexact.2⟩
        · cases legacy with
          | true =>
            obtain ⟨lower, hlower, h⟩ := bind_eq_ok.1 h
            obtain ⟨⟨uop, us⟩, hus, h⟩ := bind_eq_ok.1 h
            cases h
            exact .inr ⟨hne, lower, uop, us, hlower, hus, rfl⟩
          | false =>
            obtain ⟨⟨lop, ls⟩, hls, h⟩ := bind_eq_ok.1 h
            obtain ⟨lower, hlower, h⟩ := bind_eq_ok.1 h
            obtain ⟨⟨uop, us⟩, hus, h⟩ := bind_eq_ok.1 h
            cases hlower
            cases h
            exact .inr ⟨hne, _, uop, us, ⟨lop, ls, hls, rfl⟩, hus, rfl⟩

/-- Whether a joined value satisfies a term. -/
def admits (term : CompositeTerm) (joined : String) : Bool :=
  match term with
  | .exact value => joined == value
  | .range lower upper => lower.admits joined && upper.admits joined

/-- A value of a component that satisfies the bounds on it, if there are any. -/
structure ComponentMeets (alphabets : Alphabets) (component : String × Option ComponentBound)
    (value : String) : Prop where
  lower : ∀ b, component.2.bind ComponentBound.lower = some b →
    Fits CompareOp.isLowerBound alphabets (component.1, b) value
  upper : ∀ b, component.2.bind ComponentBound.upper = some b →
    Fits CompareOp.isUpperBound alphabets (component.1, b) value

/-- The same where a strict bound from above needs an alphabet. Without one a value may be
    smaller than the literal where the joined value is not. -/
structure ComponentFits (alphabets : Alphabets) (component : String × Option ComponentBound)
    (value : String) : Prop extends ComponentMeets alphabets component value where
  strict : ∀ b, component.2.bind ComponentBound.upper = some b → b.op = .lt →
    ∃ a, alphabets component.1 = some a

/-- With an alphabet, no value overruns a strict bound. -/
theorem ComponentFits.upperWithin (m : Mapping) {component : String × Option ComponentBound}
    {value : String} (h : ComponentFits alphabets component value) {b : ValueBound}
    (hb : component.2.bind ComponentBound.upper = some b) :
    UpperWithin m alphabets complete (component.1, b) value := by
  refine ⟨h.upper b hb, .inr ?_⟩
  rintro ⟨hstrict, hnone, -⟩
  obtain ⟨a, ha⟩ := h.strict b hb hstrict
  simp [ha] at hnone

/-- The values of the components fall into those of the bounded ones in front and the
    others. -/
theorem forall₂_bounded {side : ComponentBound → Option ValueBound}
    {C : String × Option ComponentBound → String → Prop} {R : String × ValueBound → String → Prop}
    {components : List (String × Option ComponentBound)} {vs : List String}
    (h : List.Forall₂ C components vs)
    (hR : ∀ c v, C c v → ∀ b, c.2.bind side = some b → R (c.1, b) v) :
    ∃ us ws, vs = us ++ ws ∧ List.Forall₂ R (bounded (sideOf side components)) us := by
  induction h with
  | nil => exact ⟨[], [], rfl, .nil⟩
  | @cons c v components vs hc _ ih =>
    cases hb : c.2.bind side with
    | none => exact ⟨[], v :: vs, rfl, by simp [sideOf, hb, bounded]⟩
    | some b =>
      obtain ⟨us, ws, rfl, hus⟩ := ih
      refine ⟨v :: us, ws, rfl, ?_⟩
      simp only [sideOf, List.map_cons, hb, bounded]
      exact .cons (hR c v hc b hb) hus

/-- Where every component is bounded, no value is left over. -/
theorem eq_nil_of_covers {m : Mapping} {side : Side} {us ws : List String}
    (hlength : (us ++ ws).length = m.components.length) (hus : (bounded side).length = us.length)
    (hcovers : covers m side = true) : ws = [] := by
  rw [covers, beq_iff_eq] at hcovers
  rw [List.length_append] at hlength
  exact List.length_eq_zero_iff.1 (by omega)

/-- The lower bound on joined values, where each component satisfies its bound from below. -/
theorem accepts_joinValues_of_lowerValues {m : Mapping}
    {components : List (String × Option ComponentBound)} {vs : List String} {op : CompareOp}
    {xs : List String} (hlength : vs.length = m.components.length)
    (h : lowerValues alphabets (covers m (sideOf ComponentBound.lower components))
      (bounded (sideOf ComponentBound.lower components)) = .ok (op, xs))
    (hvs : List.Forall₂ (fun c v => ∀ b, c.2.bind ComponentBound.lower = some b →
      Fits CompareOp.isLowerBound alphabets (c.1, b) v) components vs) :
    op.isLowerBound = true ∧ op.accepts (m.joinValues vs) (m.joinValues xs) = true := by
  obtain ⟨us, ws, rfl, hus⟩ := forall₂_bounded hvs fun _ _ hc => hc
  obtain ⟨hop, -, haccepts⟩ := accepts_of_lowerValues m _ us ws op xs h hus
    (eq_nil_of_covers hlength hus.length_eq)
  exact ⟨hop, haccepts⟩

/-- The upper bound on joined values, where each component satisfies its bound from above and
    stays within it. -/
theorem accepts_joinValues_of_upperValues {m : Mapping}
    {components : List (String × Option ComponentBound)} {vs : List String} {op : CompareOp}
    {xs : List String} (hlength : vs.length = m.components.length)
    (h : upperValues alphabets (covers m (sideOf ComponentBound.upper components))
      (bounded (sideOf ComponentBound.upper components)) = .ok (op, xs))
    (hne : bounded (sideOf ComponentBound.upper components) ≠ [])
    (hvs : List.Forall₂ (fun c v => ∀ b, c.2.bind ComponentBound.upper = some b →
      UpperWithin m alphabets (covers m (sideOf ComponentBound.upper components)) (c.1, b) v)
      components vs) :
    op.isUpperBound = true ∧ op.accepts (m.joinValues vs) (m.joinValues xs) = true := by
  obtain ⟨us, ws, rfl, hus⟩ := forall₂_bounded hvs fun _ _ hc => hc
  obtain ⟨hop, -, haccepts⟩ := accepts_of_upperValues m _ us ws op xs h hne hus
    (eq_nil_of_covers hlength hus.length_eq)
  exact ⟨hop, haccepts⟩

/-- A component with an exact value. -/
def Exactly (component : String × Option ComponentBound) (value : String) : Prop :=
  ∃ b, component.2 = some b ∧ b.lower = some ⟨.eq, value⟩ ∧ ∃ upper, b.upper = some ⟨.eq, upper⟩

/-- Where every component has an exact value, the lower bounds are these values. -/
theorem forall₂_exactly {components : List (String × Option ComponentBound)}
    (h : components.all (fun (_, b) => b.any ComponentBound.isEquality) = true) :
    List.Forall₂ Exactly components
      ((bounded (sideOf ComponentBound.lower components)).map (·.2.value)) := by
  induction components with
  | nil => exact .nil
  | cons c components ih =>
    obtain ⟨field, b⟩ := c
    simp only [List.all_cons, Bool.and_eq_true, Option.any_eq_true] at h
    obtain ⟨⟨⟨lower, upper⟩, rfl, hb⟩, hrest⟩ := h
    match lower, upper, hb with
    | some ⟨lop, l⟩, some ⟨uop, u⟩, hb =>
      simp only [ComponentBound.isEquality, Bool.and_eq_true, beq_iff_eq] at hb
      obtain ⟨rfl, rfl⟩ := hb
      exact .cons ⟨_, rfl, rfl, u, rfl⟩ (ih hrest)

theorem eq_of_exactly {components : List (String × Option ComponentBound)} {vs xs : List String}
    (hvs : List.Forall₂ (ComponentFits alphabets) components vs)
    (hxs : List.Forall₂ Exactly components xs) : vs = xs := by
  induction hvs generalizing xs with
  | nil =>
    cases hxs
    rfl
  | cons hv _ ih =>
    cases hxs with
    | cons hx hxs =>
      obtain ⟨b, hb, hlower, -⟩ := hx
      have hadmits := (hv.lower _ (by rw [hb]; exact hlower)).admits
      have heq := by simpa using hadmits
      rw [heq, ih hxs]

/-- An exact term is the join of the exact values of all components. -/
theorem eq_of_ofBounds_exact {m : Mapping} {bounds : List (Option ComponentBound)} {value : String}
    (h : ofBounds m bounds alphabets false = .ok (.exact value)) :
    ∃ xs, value = m.joinValues xs ∧ List.Forall₂ Exactly (aligned m.components bounds) xs := by
  rcases ofBounds_eq_ok h with ⟨hterm, hall⟩ | ⟨-, _, _, _, -, -, hterm⟩
  · cases hterm
    exact ⟨_, rfl, forall₂_exactly hall⟩
  · cases hterm

/-- A term admits the joined value when each component satisfies the bounds on it. -/
theorem admits_of_ofBounds {m : Mapping} {bounds : List (Option ComponentBound)}
    {term : CompositeTerm} {vs : List String} (h : ofBounds m bounds alphabets false = .ok term)
    (hvs : List.Forall₂ (ComponentFits alphabets) (aligned m.components bounds) vs) :
    term.admits (m.joinValues vs) = true := by
  have hlength : vs.length = m.components.length := by
    rw [← hvs.length_eq]
    simp [aligned]
  rcases ofBounds_eq_ok h with ⟨rfl, hall⟩ | ⟨hne, _, uop, us, ⟨lop, ls, hls, rfl⟩, hus, rfl⟩
  -- an exact term is the join of the very values, a range is bounded from either side
  · rw [eq_of_exactly hvs (forall₂_exactly hall)]
    simp [admits]
  · obtain ⟨-, hlower⟩ := accepts_joinValues_of_lowerValues hlength hls
      (hvs.imp fun _ _ hc => hc.lower)
    obtain ⟨-, hupper⟩ := accepts_joinValues_of_upperValues hlength hus hne
      (hvs.imp fun _ _ hc _ => hc.upperWithin m)
    simp [admits, ValueBound.admits, hlower, hupper]

end CompositeTerm

end IndexQuery
