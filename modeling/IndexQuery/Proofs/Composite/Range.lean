import IndexQuery.Proofs.Composite.Term

/-! # Composite ranges hold every match

    A range on a composite field is to hold the joined values of all records whose
    components satisfy their bounds and, where records without composite values are to be
    found too, the plain values of the first component.

    * `CompositeTerm.admits_of_ofBounds_range`: it does, unless a value overruns a strict
      bound from above while other components are open.
-/

namespace IndexQuery

/-! ## Bounds from one side -/

namespace ValueBound

variable {b : ValueBound} {v w : String}

theorem admits_of_le (hop : b.op.isLowerBound = true) (hle : v ≤ w) (h : b.admits v = true) :
    b.admits w = true := by
  obtain ⟨op, literal⟩ := b
  cases op with
  | gt =>
    have hlt : literal < v := by simpa using h
    simpa using Std.lt_of_lt_of_le hlt hle
  | ge =>
    have hge : literal ≤ v := by simpa using h
    simpa using Std.le_trans hge hle
  | eq | ne | lt | le | regex | notRegex => simp [CompareOp.isLowerBound] at hop

theorem admits_of_ge (hop : b.op.isUpperBound = true) (hle : v ≤ w) (h : b.admits w = true) :
    b.admits v = true := by
  obtain ⟨op, literal⟩ := b
  cases op with
  | lt =>
    have hlt : w < literal := by simpa using h
    simpa using Std.lt_of_le_of_lt hle hlt
  | le =>
    have hle' : w ≤ literal := by simpa using h
    simpa using Std.le_trans hle hle'
  | eq | ne | gt | ge | regex | notRegex => simp [CompareOp.isUpperBound] at hop

end ValueBound

namespace CompositeTerm

variable {alphabets : Alphabets} {m : Mapping} {bounds : List (Option ComponentBound)}
  {components : List (String × Option ComponentBound)} {legacy : Bool} {lower upper : ValueBound}
  {vs : List String}

/-! ## The values of the components -/

/-- A value of a component does not overrun the bound on it. -/
def StaysWithin (m : Mapping) (alphabets : Alphabets)
    (component : String × Option ComponentBound) (value : String) : Prop :=
  ∀ b, component.2.bind ComponentBound.upper = some b →
    ¬ Overruns m alphabets (component.1, b) value

/-! ## Either side of a range -/

/-- The lower bound for plain values admits the first value. -/
theorem Fits.admits_of_legacyLower {field v : String} {b : ValueBound} {rest : Side}
    (hv : Fits CompareOp.isLowerBound alphabets (field, b) v)
    (h : legacyLower alphabets ((field, some b) :: rest) = .ok lower) :
    lower.op.isLowerBound = true ∧ lower.admits v = true := by
  obtain ⟨op, literal⟩ := b
  cases op with
  | gt =>
    rw [legacyLower, if_pos rfl] at h
    cases ha : alphabets field with
    | none =>
      rw [ha] at h
      cases h
      exact ⟨rfl, hv.admits⟩
    | some a =>
      rw [ha] at h
      obtain ⟨next, hnext, h⟩ := bind_eq_ok.1 h
      cases h
      have hle := (hv.stepUp_le hnext).1
      exact ⟨rfl, by simpa using hle⟩
  | ge =>
    cases h
    exact ⟨rfl, hv.admits⟩
  | eq =>
    cases h
    have heq : v = literal := by simpa using hv.admits
    exact ⟨rfl, by simp [heq]⟩
  | ne | lt | le | regex | notRegex => simpa [CompareOp.isLowerBound] using hv.side

/-- Where there is a lower bound for plain values, the first component has a value, and the
    bound admits it. -/
theorem admits_of_legacyLower
    (h : legacyLower alphabets (sideOf ComponentBound.lower components) = .ok lower)
    (hvs : List.Forall₂ (ComponentMeets alphabets) components vs) :
    ∃ v ws, vs = v :: ws ∧ lower.op.isLowerBound = true ∧ lower.admits v = true := by
  cases hvs with
  | nil => cases h
  | @cons component v components ws hv _ =>
    refine ⟨v, ws, rfl, ?_⟩
    change legacyLower alphabets ((component.1, component.2.bind ComponentBound.lower) ::
      sideOf ComponentBound.lower components) = _ at h
    cases hbound : component.2.bind ComponentBound.lower with
    | none =>
      rw [hbound] at h
      cases h
    | some b =>
      rw [hbound] at h
      exact (hv.lower b hbound).admits_of_legacyLower h

/-- What the bounds on all components need of the values, and what the open ones need, taken
    together. -/
theorem forall₂_upperWithin {complete : Bool}
    (hvs : List.Forall₂ (ComponentMeets alphabets) components vs)
    (hwithin : complete = true ∨ List.Forall₂ (StaysWithin m alphabets) components vs) :
    List.Forall₂ (fun component v => ∀ b, component.2.bind ComponentBound.upper = some b →
      UpperWithin m alphabets complete (component.1, b) v) components vs := by
  rcases hwithin with hcomplete | hwithin
  · exact hvs.imp fun component v hv b hb => ⟨hv.upper b hb, .inl hcomplete⟩
  · induction hvs with
    | nil => exact .nil
    | cons hv _ ih =>
      cases hwithin with
      | cons hw hws => exact .cons (fun b hb => ⟨hv.upper b hb, .inr (hw b hb)⟩) (ih hws)

/-! ## Ranges -/

/-- A range admits the joined value when each component satisfies the bounds on it, and no
    value overruns a strict bound from above while other components are open. Where records
    without composite values are to be found too, it admits the plain value of the first
    component as well. -/
theorem admits_of_ofBounds_range
    (h : ofBounds m bounds alphabets legacy = .ok (.range lower upper))
    (hvs : List.Forall₂ (ComponentMeets alphabets) (aligned m.components bounds) vs)
    (hwithin : covers m (sideOf ComponentBound.upper (aligned m.components bounds)) = true ∨
      List.Forall₂ (StaysWithin m alphabets) (aligned m.components bounds) vs) :
    (lower.admits (m.joinValues vs) = true ∧ upper.admits (m.joinValues vs) = true) ∧
      (legacy = true → ∃ v ws, vs = v :: ws ∧ lower.admits v = true ∧ upper.admits v = true) := by
  have hlength : vs.length = m.components.length := by
    rw [← hvs.length_eq]
    simp [aligned]
  rcases ofBounds_eq_ok h with ⟨hterm, -⟩ | ⟨hne, _, uop, us, hlower, hus, hterm⟩
  · cases hterm
  cases hterm
  -- the upper bound does not depend on whether plain values are to be found
  obtain ⟨hop, hbelow⟩ :=
    accepts_joinValues_of_upperValues hlength hus hne (forall₂_upperWithin hvs hwithin)
  cases legacy with
  | true =>
    -- the plain value comes before the joined one
    obtain ⟨v, ws, rfl, hlop, habove⟩ := admits_of_legacyLower hlower hvs
    have hle := m.le_joinValues_cons v ws
    exact ⟨⟨ValueBound.admits_of_le hlop hle habove, hbelow⟩,
      fun _ => ⟨v, ws, rfl, habove, ValueBound.admits_of_ge hop hle hbelow⟩⟩
  | false =>
    obtain ⟨lop, ls, hls, rfl⟩ := hlower
    obtain ⟨-, habove⟩ := accepts_joinValues_of_lowerValues hlength hls
      (hvs.imp fun _ _ hc => hc.lower)
    exact ⟨⟨habove, hbelow⟩, fun hlegacy => absurd hlegacy Bool.false_ne_true⟩

/-! ### Plain values and open components -/

/-- A composite field that is its own first component. -/
def areaMapping : Mapping := ⟨"AREA", ["AREA", "SIZE"], ',', none⟩

/-- The areas have values of one width. -/
def areaAlphabets : Alphabets := fun field => if field = "AREA" then some .hex else none

/-- `AREA > '0100' && AREA < '0103'`, and any size. -/
def areaBounds : List (Option ComponentBound) :=
  [some ⟨some ⟨.gt, "0100"⟩, some ⟨.lt, "0103"⟩⟩, none]

/-- The range from `0101` on and before `0103` holds `0102,7` and `0102`. -/
theorem admits_of_ofBounds_areaBounds :
    ofBounds areaMapping areaBounds areaAlphabets true =
        .ok (.range ⟨.ge, "0101"⟩ ⟨.lt, "0103"⟩) ∧
      List.Forall₂ (ComponentMeets areaAlphabets) (aligned areaMapping.components areaBounds)
        ["0102", "7"] ∧
      List.Forall₂ (StaysWithin areaMapping areaAlphabets)
        (aligned areaMapping.components areaBounds) ["0102", "7"] ∧
      ∀ value ∈ [areaMapping.joinValues ["0102", "7"], "0102"],
        ValueBound.admits ⟨.ge, "0101"⟩ value = true ∧
          ValueBound.admits ⟨.lt, "0103"⟩ value = true := by
  have hterm : ofBounds areaMapping areaBounds areaAlphabets true =
      .ok (.range ⟨.ge, "0101"⟩ ⟨.lt, "0103"⟩) := rfl
  have hfixed : ∀ literal : String, literal.length = 4 → ∀ a, areaAlphabets "AREA" = some a →
      "0102".length = literal.length ∧ a.isOver "0102" = true := by
    rintro literal hlength a ⟨⟩
    exact ⟨hlength.symm, by decide⟩
  have harea : ComponentMeets areaAlphabets
      ("AREA", some ⟨some ⟨.gt, "0100"⟩, some ⟨.lt, "0103"⟩⟩) "0102" := by
    constructor
    · rintro b ⟨⟩
      exact ⟨by decide, hfixed _ rfl, .inr rfl⟩
    · rintro b ⟨⟩
      exact ⟨by decide, hfixed _ rfl, .inr rfl⟩
  have hmeets : List.Forall₂ (ComponentMeets areaAlphabets)
      (aligned areaMapping.components areaBounds) ["0102", "7"] :=
    .cons harea (.cons ⟨nofun, nofun⟩ .nil)
  have hwithin : List.Forall₂ (StaysWithin areaMapping areaAlphabets)
      (aligned areaMapping.components areaBounds) ["0102", "7"] := by
    refine .cons ?_ (.cons nofun .nil)
    rintro b ⟨⟩ ⟨-, hnone, -⟩
    cases hnone
  obtain ⟨hjoined, hplain⟩ := admits_of_ofBounds_range hterm hmeets (.inr hwithin)
  obtain ⟨_, _, ⟨⟩, hfirst⟩ := hplain rfl
  exact ⟨hterm, hmeets, hwithin,
    List.forall_mem_cons.2 ⟨hjoined, List.forall_mem_singleton.2 hfirst⟩⟩

/-- Three components whose values vary in width. -/
def openMapping : Mapping := ⟨"ABC", ["A", "B", "C"], Mapping.defaultSeparator, none⟩

/-- `A == 'x' && B >= 'a' && B < 'ab'`, and any value of `C`. -/
def openBounds : List (Option ComponentBound) :=
  [some (.equality "x"), some ⟨some ⟨.ge, "a"⟩, some ⟨.lt, "ab"⟩⟩, none]

/-- The value `a` of `B` is smaller than `ab`, but the joined value of `x`, `a` and `c` lies
    behind that of `x` and `ab`. -/
theorem not_forall_admits_of_ofBounds_range :
    ¬ ∀ (m : Mapping) (bounds : List (Option ComponentBound)) (alphabets : Alphabets)
        (legacy : Bool) (lower upper : ValueBound) (vs : List String),
      2 ≤ m.components.length → m.components.Nodup →
      ofBounds m bounds alphabets legacy = .ok (.range lower upper) →
      List.Forall₂ (ComponentMeets alphabets) (aligned m.components bounds) vs →
      (∀ v ∈ vs, m.separator ∉ v.toList) →
        (lower.admits (m.joinValues vs) = true ∧ upper.admits (m.joinValues vs) = true) ∧
          (legacy = true → ∃ v ws, vs = v :: ws ∧ lower.admits v = true ∧ upper.admits v = true) := by
  intro hall
  let alphabets : Alphabets := fun _ => none
  have hterm : ofBounds openMapping openBounds alphabets false =
      .ok (.range ⟨.ge, openMapping.joinValues ["x", "a"]⟩
        ⟨.lt, openMapping.joinValues ["x", "ab"]⟩) := rfl
  have hfirst : ComponentMeets alphabets ("A", some (.equality "x")) "x" := by
    constructor
    · rintro b ⟨⟩
      exact ⟨by decide, nofun, .inl rfl⟩
    · rintro b ⟨⟩
      exact ⟨by decide, nofun, .inl rfl⟩
  have hsecond : ComponentMeets alphabets ("B", some ⟨some ⟨.ge, "a"⟩, some ⟨.lt, "ab"⟩⟩) "a" := by
    constructor
    · rintro b ⟨⟩
      exact ⟨by decide, nofun, .inr rfl⟩
    · rintro b ⟨⟩
      exact ⟨by decide, nofun, .inr rfl⟩
  have hmeets : List.Forall₂ (ComponentMeets alphabets)
      (aligned openMapping.components openBounds) ["x", "a", "c"] :=
    .cons hfirst (.cons hsecond (.cons ⟨nofun, nofun⟩ .nil))
  obtain ⟨⟨-, hbelow⟩, -⟩ :=
    hall _ _ _ _ _ _ _ (by decide) (by decide) hterm hmeets (by decide)
  have hoverrun : ValueBound.admits ⟨.lt, openMapping.joinValues ["x", "ab"]⟩
      (openMapping.joinValues ["x", "a", "c"]) = false := by decide
  exact Bool.false_ne_true (hoverrun.symm.trans hbelow)

end CompositeTerm

end IndexQuery
