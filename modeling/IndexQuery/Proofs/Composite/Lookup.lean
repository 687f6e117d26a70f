import IndexQuery.Composite.Fold
import IndexQuery.Proofs.Composite.Term
import IndexQuery.Proofs.Query.Truth

/-! # Look-ups on composite fields

    Within a conjunction, bounds on the components of a composite field make way for
    a look-up on that field. What the look-up says follows from the bounds where the
    record has the composite value, and the look-up says all that they said.

    * `Valuation.ofRecord`: the truth of a query on a record.
    * `Folder.Candidate.Gathers.truth_iff`: what is found of the bounds on a field is
      what the children of the conjunction say.
    * `Folder.exists_joined`: the look-up finds the joined value.
    * `Folder.allTrue_of_all_lookup`: what the look-up finds satisfies the bounds.
-/

namespace IndexQuery

/-! ## Records -/

/-- The value that a record has for each field, if it has one. -/
abbrev FieldValues := String → Option String

/-- Whether a comparison holds on a record. It does not where the field has no value
    or the literal no text. -/
def Comparison.holdsOn (value? : FieldValues) (c : Comparison) : Bool :=
  match value? c.field, c.literal.text? with
  | some value, some literal => c.op.accepts value literal
  | _, _ => false

/-- The truth of leaves on a record. That of patterns and calls is given. -/
def Valuation.ofRecord (value? : FieldValues) (pattern : Comparison → Bool) (call : Call → Bool)
    (checksDelayed : Bool) : Valuation where
  compare c := if c.op.isRegex then pattern c else c.holdsOn value?
  call := call
  checksDelayed := checksDelayed

/-- The values of a record that has composite values beside those they are joined of.
    The values of a component do not hold the separator. Those of a fixed-length field
    are over its alphabet and have one width. -/
structure JoinedValues (mappings : List Mapping) (alphabets : CompositeTerm.Alphabets)
    (width : String → Nat) (value? : FieldValues) : Prop where
  joined : ∀ m ∈ mappings, value? m.name = (m.components.mapM value?).map m.joinValues
  separated : ∀ m ∈ mappings, ∀ field ∈ m.components, ∀ value, value? field = some value →
    m.separator ∉ value.toList
  fixed : ∀ field a value, alphabets field = some a → value? field = some value →
    value.length = width field ∧ a.isOver value = true

/-- A comparison whose literal is like the values of its field. Values of a component
    without an alphabet must not be compared by `<`, since a joined value may be
    greater than the literal where the value itself is smaller. -/
structure Comparison.Fits (mappings : List Mapping) (alphabets : CompositeTerm.Alphabets)
    (width : String → Nat) (c : Comparison) : Prop where
  separated : ∀ m ∈ mappings, c.field ∈ m.components → m.separator ∉ c.literal.text.toList
  fixed : ∀ a, alphabets c.field = some a →
    c.literal.text.length = width c.field ∧ a.isOver c.literal.text = true
  strict : c.op = .lt → ∀ m ∈ mappings, c.field ∈ m.components → ∃ a, alphabets c.field = some a

/-- A query whose comparisons with text fit. Patterns and missing values need not. -/
def Query.Fits (mappings : List Mapping) (alphabets : CompositeTerm.Alphabets)
    (width : String → Nat) (q : Query) : Prop :=
  ∀ c, .compare c ∈ q.subtrees → c.op.isRegex = false → c.literal.isNull = false →
    c.Fits mappings alphabets width

namespace Folder

variable {value? : FieldValues} {pattern : Comparison → Bool} {call : Call → Bool} {checks : Bool}

/-! ## Contributions -/

/-- A comparison that bounds a field from below, from above or, when it is exact, from
    both sides. -/
theorem ofComparison_eq_some {c : Comparison} {k : Contribution} (h : ofComparison c = some k) :
    ∃ value, c.literal.text? = some value ∧ k.field = c.field ∧
      (c.op = .eq ∧ k.bound = .equality value ∨
        c.op.isLowerBound = true ∧ k.bound = ⟨some ⟨c.op, value⟩, none⟩ ∨
        c.op.isUpperBound = true ∧ k.bound = ⟨none, some ⟨c.op, value⟩⟩) := by
  obtain ⟨op, field, literal⟩ := c
  cases hvalue : literal.text? with
  | none => simp [ofComparison, hvalue] at h
  | some value =>
    refine ⟨value, rfl, ?_⟩
    cases op <;> simp [ofComparison, hvalue] at h <;> subst h <;>
      simp [ComponentBound.equality, CompareOp.isLowerBound, CompareOp.isUpperBound]

/-- A child contributes the bounds of its range or of its comparison. -/
theorem contribution?_eq_some {q : Query} {k : Contribution} (h : contribution? q = some k) :
    (∃ b lower upper, q.ungrouped.bounds? = some b ∧ b.lower.literal.text? = some lower ∧
      b.upper.literal.text? = some upper ∧ k.field = b.lower.field ∧
      k.bound = ⟨some ⟨b.lower.op, lower⟩, some ⟨b.upper.op, upper⟩⟩) ∨
    ∃ c, q.ungrouped = .compare c ∧ ofComparison c = some k := by
  unfold contribution? at h
  split at h
  · rename_i b hb
    left
    have hwell := Query.wellFormed_of_bounds? hb
    have text : ∀ l : Literal, l.isNull = false → ∃ value, l.text? = some value := by
      intro l hl
      cases l <;> simp_all [Literal.isNull, Literal.text?]
    obtain ⟨lower, hlower⟩ := text _ hwell.lower_text
    obtain ⟨upper, hupper⟩ := text _ hwell.upper_text
    cases h
    exact ⟨b, lower, upper, hb, hlower, hupper, rfl, by simp [hlower, hupper]⟩
  · right
    cases hq : q.ungrouped <;> simp [hq, Query.comparison?] at h
    exact ⟨_, rfl, h⟩

theorem ne_eq_of_isLowerBound {op : CompareOp} (h : op.isLowerBound = true) : op ≠ .eq := by
  cases op <;> simp_all [CompareOp.isLowerBound]

/-- On a record, a comparison with text is a bound on the value of its field. -/
theorem ofRecord_compare {c : Comparison} {literal : String} (hop : c.op.isRegex = false)
    (htext : c.literal.text? = some literal) :
    (Valuation.ofRecord value? pattern call checks).compare c
      = (value? c.field).any (ValueBound.admits ⟨c.op, literal⟩) := by
  unfold Valuation.ofRecord Comparison.holdsOn
  cases hvalue : value? c.field <;> simp [hop, hvalue, htext, ValueBound.admits]

/-- What a child contributes is what it says. -/
theorem truth_of_contribution? {q : Query} {k : Contribution} (h : contribution? q = some k) :
    (Valuation.ofRecord value? pattern call checks).truth q
      = (value? k.field).any k.bound.admits := by
  rw [← Valuation.truth_ungrouped]
  rcases contribution?_eq_some h with
    ⟨b, lower, upper, hb, hlower, hupper, hfield, hbound⟩ | ⟨c, hq, hc⟩
  · have hwell := Query.wellFormed_of_bounds? hb
    have hl := CompareOp.isRegex_of_isLowerBound hwell.lower
    have hu := CompareOp.isRegex_of_isUpperBound hwell.upper
    rw [Valuation.truth_of_bounds? _ hb, ofRecord_compare hl hlower, ofRecord_compare hu hupper,
      hwell.field, hfield, hbound]
    cases value? b.lower.field <;> simp [ComponentBound.admits]
  · obtain ⟨literal, htext, hfield, hbound⟩ := ofComparison_eq_some hc
    rw [hq, Valuation.truth_compare, hfield]
    rcases hbound with ⟨hop, hbound⟩ | ⟨hop, hbound⟩ | ⟨hop, hbound⟩
    · rw [ofRecord_compare (by rw [hop]; rfl) htext, hbound, hop]
      cases value? c.field <;> simp [ComponentBound.equality, ComponentBound.admits]
    · rw [ofRecord_compare (CompareOp.isRegex_of_isLowerBound hop) htext, hbound]
      cases value? c.field <;> simp [ComponentBound.admits]
    · rw [ofRecord_compare (CompareOp.isRegex_of_isUpperBound hop) htext, hbound]
      cases value? c.field <;> simp [ComponentBound.admits]

/-- A lower bound comes from a comparison in the child. An exact one is the upper bound
    as well. -/
theorem lower_of_contribution? {q : Query} {k : Contribution} {b : ValueBound}
    (h : contribution? q = some k) (hb : k.bound.lower = some b) :
    (b.op = .eq ∨ b.op.isLowerBound = true) ∧ (b.op = .eq → k.bound.upper = some b) ∧
      ∃ c, .compare c ∈ q.subtrees ∧ c.field = k.field ∧ c.op = b.op ∧
        c.literal.text? = some b.value := by
  rcases contribution?_eq_some h with
    ⟨bounds, lower, upper, hq, hlower, -, hfield, hbound⟩ | ⟨c, hq, hc⟩
  · have hwell := Query.wellFormed_of_bounds? hq
    have hmem := Query.mem_subtrees_of_ungrouped (Query.mem_subtrees_of_bounds? hq).1
    rw [hbound] at hb
    cases hb
    exact ⟨.inr hwell.lower, fun heq => absurd heq (ne_eq_of_isLowerBound hwell.lower),
      bounds.lower, hmem, hfield.symm, rfl, hlower⟩
  · obtain ⟨literal, htext, hfield, hbound⟩ := ofComparison_eq_some hc
    have hmem : .compare c ∈ q.subtrees :=
      Query.mem_subtrees_of_ungrouped (by rw [hq]; exact Query.self_mem_subtrees _)
    rcases hbound with ⟨hop, hbound⟩ | ⟨hop, hbound⟩ | ⟨hop, hbound⟩
    · rw [hbound] at hb ⊢
      cases hb
      exact ⟨.inl rfl, fun _ => rfl, c, hmem, hfield.symm, hop, htext⟩
    · rw [hbound] at hb
      cases hb
      exact ⟨.inr hop, fun heq => absurd heq (ne_eq_of_isLowerBound hop), c, hmem,
        hfield.symm, rfl, htext⟩
    · rw [hbound] at hb
      cases hb

/-- An upper bound comes from a comparison in the child. -/
theorem upper_of_contribution? {q : Query} {k : Contribution} {b : ValueBound}
    (h : contribution? q = some k) (hb : k.bound.upper = some b) :
    (b.op = .eq ∨ b.op.isUpperBound = true) ∧
      ∃ c, .compare c ∈ q.subtrees ∧ c.field = k.field ∧ c.op = b.op ∧
        c.literal.text? = some b.value := by
  rcases contribution?_eq_some h with
    ⟨bounds, lower, upper, hq, -, hupper, hfield, hbound⟩ | ⟨c, hq, hc⟩
  · have hwell := Query.wellFormed_of_bounds? hq
    have hmem := Query.mem_subtrees_of_ungrouped (Query.mem_subtrees_of_bounds? hq).2
    rw [hbound] at hb
    cases hb
    exact ⟨.inr hwell.upper, bounds.upper, hmem, by rw [hwell.field, hfield], rfl, hupper⟩
  · obtain ⟨literal, htext, hfield, hbound⟩ := ofComparison_eq_some hc
    have hmem : .compare c ∈ q.subtrees :=
      Query.mem_subtrees_of_ungrouped (by rw [hq]; exact Query.self_mem_subtrees _)
    rcases hbound with ⟨hop, hbound⟩ | ⟨hop, hbound⟩ | ⟨hop, hbound⟩
    · rw [hbound] at hb
      cases hb
      exact ⟨.inl rfl, c, hmem, hfield.symm, hop, htext⟩
    · rw [hbound] at hb
      cases hb
    · rw [hbound] at hb
      cases hb
      exact ⟨.inr hop, c, hmem, hfield.symm, rfl, htext⟩

/-! ## Candidates -/

/-- The bounds on a field together with the children they come from. Each child at one
    of the places contributes, and no bound comes from elsewhere. -/
structure Candidate.Gathers (c : Candidate) (children : List Query) (field : String) : Prop where
  nonempty : c.places ≠ []
  places : ∀ i ∈ c.places, ∃ child k, children[i]? = some child ∧ contribution? child = some k ∧
    k.field = field ∧ (∀ b, k.bound.lower = some b → c.bound.lower = some b) ∧
      ∀ b, k.bound.upper = some b → c.bound.upper = some b
  lower : ∀ b, c.bound.lower = some b → ∃ i ∈ c.places, ∃ child k, children[i]? = some child ∧
    contribution? child = some k ∧ k.field = field ∧ k.bound.lower = some b
  upper : ∀ b, c.bound.upper = some b → ∃ i ∈ c.places, ∃ child k, children[i]? = some child ∧
    contribution? child = some k ∧ k.field = field ∧ k.bound.upper = some b

/-- In a list of at most one item, every item is the first. -/
theorem head?_eq_of_mem {α : Type} {items : List α} {a : α} (hlen : ¬1 < items.length)
    (ha : a ∈ items) : items.head? = some a := by
  match items, ha with
  | [b], ha => rw [List.mem_singleton.1 ha, List.head?_cons]
  | b :: c :: rest, _ => simp at hlen

theorem gathers_of_candidate? {children : List Query} {field : String} {c : Candidate}
    (h : candidate? children field = some c) : c.Gathers children field := by
  unfold candidate? at h
  dsimp only at h
  -- all four parts of the claim speak of the found bounds, each with its place
  generalize hfound : List.filterMap _ children.zipIdx = found at h
  have mem_found : ∀ b i, (b, i) ∈ found ↔ ∃ child k, children[i]? = some child ∧
      contribution? child = some k ∧ k.field = field ∧ k.bound = b := by
    intro b i
    rw [← hfound]
    simp only [List.mem_filterMap, Prod.exists, List.mem_zipIdx_iff_getElem?]
    constructor
    · rintro ⟨child, j, hj, hk⟩
      split at hk
      · rename_i k hcontribution
        split at hk
        · rename_i hfield
          cases hk
          exact ⟨child, k, hj, hcontribution, hfield, rfl⟩
        · cases hk
      · cases hk
    · rintro ⟨child, k, hi, hk, hfield, rfl⟩
      exact ⟨child, i, hi, by simp [hk, hfield]⟩
  split at h
  · cases h
  · rename_i hsingle
    simp only [Bool.or_eq_true, decide_eq_true_eq, not_or, List.isEmpty_iff] at hsingle
    obtain ⟨⟨hne, hlowers⟩, huppers⟩ := hsingle
    cases h
    constructor
    · simpa using hne
    · intro i hi
      obtain ⟨⟨b, j⟩, hb, rfl⟩ := List.mem_map.1 hi
      obtain ⟨child, k, hchild, hk, hfield, rfl⟩ := (mem_found b j).1 hb
      refine ⟨child, k, hchild, hk, hfield, ?_, ?_⟩
      · intro l hl
        exact head?_eq_of_mem hlowers (List.mem_filterMap.2 ⟨_, hb, hl⟩)
      · intro u hu
        exact head?_eq_of_mem huppers (List.mem_filterMap.2 ⟨_, hb, hu⟩)
    · intro l hl
      obtain ⟨⟨b, i⟩, hb, hbl⟩ := List.mem_filterMap.1 (List.mem_of_head? hl)
      obtain ⟨child, k, hchild, hk, hfield, rfl⟩ := (mem_found b i).1 hb
      exact ⟨i, List.mem_map.2 ⟨_, hb, rfl⟩, child, k, hchild, hk, hfield, hbl⟩
    · intro u hu
      obtain ⟨⟨b, i⟩, hb, hbu⟩ := List.mem_filterMap.1 (List.mem_of_head? hu)
      obtain ⟨child, k, hchild, hk, hfield, rfl⟩ := (mem_found b i).1 hb
      exact ⟨i, List.mem_map.2 ⟨_, hb, rfl⟩, child, k, hchild, hk, hfield, hbu⟩

/-- What is found of the bounds on a field is what the children at the places say. -/
theorem Candidate.Gathers.truth_iff {children : List Query} {field : String} {c : Candidate}
    (h : c.Gathers children field) :
    (∀ i ∈ c.places, ∀ child, children[i]? = some child →
      (Valuation.ofRecord value? pattern call checks).truth child = true) ↔
    ∃ value, value? field = some value ∧ c.bound.admits value = true := by
  constructor
  · intro htrue
    have admitted : ∀ i ∈ c.places, ∀ child k, children[i]? = some child →
        contribution? child = some k → k.field = field →
        ∃ value, value? field = some value ∧ k.bound.admits value = true := by
      intro i hi child k hchild hk hfield
      have := htrue i hi child hchild
      rwa [truth_of_contribution? hk, hfield, Option.any_eq_true] at this
    -- some child is true, so there is a value; each bound comes from one that is true of it
    obtain ⟨i, hi⟩ := List.exists_mem_of_ne_nil _ h.nonempty
    obtain ⟨child, k, hchild, hk, hfield, -, -⟩ := h.places i hi
    obtain ⟨value, hvalue, -⟩ := admitted i hi child k hchild hk hfield
    refine ⟨value, hvalue, ?_⟩
    rw [ComponentBound.admits, Bool.and_eq_true, Option.all_eq_true, Option.all_eq_true]
    constructor
    · intro b hb
      obtain ⟨j, hj, child, k, hchild, hk, hfield, hkb⟩ := h.lower b hb
      obtain ⟨value', hvalue', hadmits⟩ := admitted j hj child k hchild hk hfield
      cases hvalue.symm.trans hvalue'
      simp only [ComponentBound.admits, hkb, Option.all_some, Bool.and_eq_true] at hadmits
      exact hadmits.1
    · intro b hb
      obtain ⟨j, hj, child, k, hchild, hk, hfield, hkb⟩ := h.upper b hb
      obtain ⟨value', hvalue', hadmits⟩ := admitted j hj child k hchild hk hfield
      cases hvalue.symm.trans hvalue'
      simp only [ComponentBound.admits, hkb, Option.all_some, Bool.and_eq_true] at hadmits
      exact hadmits.2
  · rintro ⟨value, hvalue, hadmits⟩ i hi child hchild
    obtain ⟨child', k, hchild', hk, rfl, hlower, hupper⟩ := h.places i hi
    cases hchild.symm.trans hchild'
    rw [truth_of_contribution? hk, hvalue, Option.any_some]
    rw [ComponentBound.admits, Bool.and_eq_true, Option.all_eq_true, Option.all_eq_true]
      at hadmits ⊢
    exact ⟨fun b hb => hadmits.1 b (hlower b hb), fun b hb => hadmits.2 b (hupper b hb)⟩

/-- An exact value is the bound from either side. -/
theorem Candidate.Gathers.upper_eq_of_exact {children : List Query} {field value : String}
    {c : Candidate} (h : c.Gathers children field) (hlower : c.bound.lower = some ⟨.eq, value⟩) :
    c.bound.upper = some ⟨.eq, value⟩ := by
  obtain ⟨i, hi, child, k, hchild, hk, hfield, hkb⟩ := h.lower _ hlower
  -- the child of the lower bound contributes its upper bound too
  obtain ⟨child', k', hchild', hk', -, -, hupper⟩ := h.places i hi
  cases hchild.symm.trans hchild'
  cases hk.symm.trans hk'
  exact hupper _ ((lower_of_contribution? hk hkb).2.1 rfl)

section

variable {mappings : List Mapping} {alphabets : CompositeTerm.Alphabets} {width : String → Nat}
  {m : Mapping} {children : List Query}

/-- A bound on a component, from a comparison that fits, fits the values. -/
theorem boundFits (hrecord : JoinedValues mappings alphabets width value?) {field value : String}
    (hvalue : value? field = some value) {b : ValueBound} (hadmits : b.admits value = true)
    {side : CompareOp → Bool} (hside : b.op = .eq ∨ side b.op = true) {c : Comparison}
    (hfield : c.field = field) (htext : c.literal.text? = some b.value)
    (hc : c.Fits mappings alphabets width) :
    CompositeTerm.Fits side alphabets (field, b) value := by
  refine ⟨hadmits, ?_, hside⟩
  intro a ha
  obtain ⟨hlen, hover⟩ := hrecord.fixed field a value ha hvalue
  have hliteral := (hc.fixed a (by rw [hfield]; exact ha)).1
  rw [hfield, Literal.text, htext, Option.getD_some] at hliteral
  exact ⟨by rw [hlen, hliteral], hover⟩

/-- A comparison that a child bounds a field by fits when the child does. -/
theorem fits_of_bound {child : Query} {c : Comparison} {b : ValueBound}
    (hfits : child.Fits mappings alphabets width) (hmem : .compare c ∈ child.subtrees)
    (hop : c.op = b.op) (hregex : b.op.isRegex = false) (htext : c.literal.text? = some b.value) :
    c.Fits mappings alphabets width := by
  refine hfits c hmem (by rw [hop]; exact hregex) ?_
  cases hliteral : c.literal <;> simp_all [Literal.text?, Literal.isNull]

/-- The bounds that are found on a component fit every value that they admit. -/
theorem Candidate.Gathers.componentFits (hrecord : JoinedValues mappings alphabets width value?)
    (hfits : ∀ child ∈ children, child.Fits mappings alphabets width) (hm : m ∈ mappings)
    {field : String} (hfield : field ∈ m.components) {c : Candidate}
    (h : c.Gathers children field) {value : String} (hvalue : value? field = some value)
    (hadmits : c.bound.admits value = true) :
    CompositeTerm.ComponentFits alphabets (field, some c.bound) value := by
  rw [ComponentBound.admits, Bool.and_eq_true, Option.all_eq_true, Option.all_eq_true] at hadmits
  -- a bound from above comes from a comparison that fits
  have hupper : ∀ b, c.bound.upper = some b → (b.op = .eq ∨ b.op.isUpperBound = true) ∧
      ∃ leaf : Comparison, leaf.op = b.op ∧ leaf.field = field ∧
        leaf.literal.text? = some b.value ∧ leaf.Fits mappings alphabets width := by
    intro b hb
    obtain ⟨i, -, child, k, hchild, hk, rfl, hkb⟩ := h.upper b hb
    obtain ⟨hside, leaf, hmem, hleaf, hop, htext⟩ := upper_of_contribution? hk hkb
    have hregex : b.op.isRegex = false := by
      rcases hside with heq | hside
      · rw [heq]
        rfl
      · exact CompareOp.isRegex_of_isUpperBound hside
    exact ⟨hside, leaf, hop, hleaf, htext,
      fits_of_bound (hfits child (List.mem_of_getElem? hchild)) hmem hop hregex htext⟩
  refine ⟨⟨?_, ?_⟩, ?_⟩
  · intro b hb
    obtain ⟨i, -, child, k, hchild, hk, rfl, hkb⟩ := h.lower b hb
    obtain ⟨hside, -, leaf, hmem, hleaf, hop, htext⟩ := lower_of_contribution? hk hkb
    have hregex : b.op.isRegex = false := by
      rcases hside with heq | hside
      · rw [heq]
        rfl
      · exact CompareOp.isRegex_of_isLowerBound hside
    have hleafFits := fits_of_bound (hfits child (List.mem_of_getElem? hchild)) hmem hop hregex htext
    exact boundFits hrecord hvalue (hadmits.1 b hb) hside hleaf htext hleafFits
  · intro b hb
    obtain ⟨hside, leaf, -, hleaf, htext, hleafFits⟩ := hupper b hb
    exact boundFits hrecord hvalue (hadmits.2 b hb) hside hleaf htext hleafFits
  · intro b hb hlt
    obtain ⟨-, leaf, hop, hleaf, -, hleafFits⟩ := hupper b hb
    have hstrict := hleafFits.strict (by rw [hop]; exact hlt) m hm (by rw [hleaf]; exact hfield)
    rwa [hleaf] at hstrict

/-- The exact value that is found for a component does not hold the separator. -/
theorem Candidate.Gathers.separated (hfits : ∀ child ∈ children, child.Fits mappings alphabets width)
    (hm : m ∈ mappings) {field value : String} (hfield : field ∈ m.components) {c : Candidate}
    (h : c.Gathers children field) (hlower : c.bound.lower = some ⟨.eq, value⟩) :
    m.separator ∉ value.toList := by
  obtain ⟨i, -, child, k, hchild, hk, rfl, hkb⟩ := h.lower _ hlower
  obtain ⟨-, -, leaf, hmem, hleaf, hop, htext⟩ := lower_of_contribution? hk hkb
  have hleafFits := fits_of_bound (hfits child (List.mem_of_getElem? hchild)) hmem hop rfl htext
  have hseparated := hleafFits.separated m hm (by rw [hleaf]; exact hfield)
  rwa [Literal.text, htext] at hseparated

/-! ## Leading components -/

/-- The components in front with the bounds found on them. -/
abbrev Leading (children : List Query) (front : List String) (candidates : List Candidate) : Prop :=
  List.Forall₂ (fun field c => c.Gathers children field) front candidates

theorem leading_leadingCandidates (children : List Query) (consumed : List Nat) :
    ∀ fields : List String, ∃ front rest, fields = front ++ rest ∧
      Leading children front (leadingCandidates children consumed fields) ∧
      ∀ c ∈ leadingCandidates children consumed fields, ∀ i ∈ c.places, i ∉ consumed
  | [] => ⟨[], [], rfl, .nil, by simp [leadingCandidates]⟩
  | field :: fields => by
    rw [leadingCandidates]
    split
    · rename_i c hc
      split
      · exact ⟨[], field :: fields, rfl, .nil, by simp⟩
      · rename_i hfree
        obtain ⟨front, rest, rfl, hleading, hrest⟩ :=
          leading_leadingCandidates children consumed fields
        refine ⟨field :: front, rest, rfl, .cons (gathers_of_candidate? hc) hleading, ?_⟩
        intro c' hc'
        rcases List.mem_cons.1 hc' with rfl | hc'
        · intro i hi hconsumed
          exact hfree (List.any_eq_true.2 ⟨i, hi, by simpa using hconsumed⟩)
        · exact hrest c' hc'
    · exact ⟨[], field :: fields, rfl, .nil, by simp⟩

/-- Whether the children at the places of some candidates are true. -/
def AllTrue (v : Valuation) (children : List Query) (candidates : List Candidate) : Prop :=
  ∀ c ∈ candidates, ∀ i ∈ c.places, ∀ child, children[i]? = some child → v.truth child = true

theorem allTrue_cons {v : Valuation} {c : Candidate} {candidates : List Candidate} :
    AllTrue v children (c :: candidates) ↔
      (∀ i ∈ c.places, ∀ child, children[i]? = some child → v.truth child = true) ∧
        AllTrue v children candidates :=
  List.forall_mem_cons

/-- The bounds of the conjunction fit the values of the components, where the children
    they come from are true. -/
theorem forall₂_componentFits (hrecord : JoinedValues mappings alphabets width value?)
    (hfits : ∀ child ∈ children, child.Fits mappings alphabets width) (hm : m ∈ mappings)
    {front rest : List String} {candidates : List Candidate}
    (h : Leading children front candidates) (hfields : ∀ field ∈ front, field ∈ m.components)
    (htrue : AllTrue (.ofRecord value? pattern call checks) children candidates)
    {vs : List String}
    (hvs : List.Forall₂ (fun field v => value? field = some v) (front ++ rest) vs) :
    List.Forall₂ (CompositeTerm.ComponentFits alphabets)
      (CompositeTerm.aligned (front ++ rest) (candidates.map fun c => some c.bound)) vs := by
  induction h generalizing vs with
  | nil =>
    -- no bound is on the components that are left
    rw [List.map_nil, CompositeTerm.aligned_nil_right, List.forall₂_map_left_iff]
    exact hvs.imp fun field v _ => ⟨⟨nofun, nofun⟩, nofun⟩
  | @cons field c front candidates hc _ ih =>
    rw [List.cons_append] at hvs ⊢
    cases hvs with
    | @cons _ v _ vs hv hvs =>
      obtain ⟨hctrue, htrue⟩ := allTrue_cons.1 htrue
      obtain ⟨value, hvalue, hadmits⟩ := hc.truth_iff.1 hctrue
      cases hv.symm.trans hvalue
      rw [List.map_cons, CompositeTerm.aligned_cons_cons]
      exact .cons (hc.componentFits hrecord hfits hm (hfields field List.mem_cons_self) hv hadmits)
        (ih (fun f hf => hfields f (List.mem_cons_of_mem _ hf)) htrue hvs)

/-- Exact values do not hold the separator. -/
theorem separated_of_exactly (hfits : ∀ child ∈ children, child.Fits mappings alphabets width)
    (hm : m ∈ mappings) {front rest : List String} {candidates : List Candidate}
    (h : Leading children front candidates) (hfields : ∀ field ∈ front, field ∈ m.components)
    {xs : List String}
    (hxs : List.Forall₂ CompositeTerm.Exactly
      (CompositeTerm.aligned (front ++ rest) (candidates.map fun c => some c.bound)) xs) :
    ∀ x ∈ xs, m.separator ∉ x.toList := by
  induction h generalizing xs with
  | nil =>
    rw [List.map_nil, CompositeTerm.aligned_nil_right, List.forall₂_map_left_iff] at hxs
    cases hxs with
    | nil => simp
    | cons hx _ =>
      obtain ⟨b, hb, -⟩ := hx
      cases hb
  | @cons field c front candidates hc _ ih =>
    rw [List.cons_append, List.map_cons, CompositeTerm.aligned_cons_cons] at hxs
    cases hxs with
    | cons hx hxs =>
      obtain ⟨b, hb, hlower, -⟩ := hx
      cases hb
      exact List.forall_mem_cons.2
        ⟨hc.separated hfits hm (hfields field List.mem_cons_self) hlower,
          ih (fun f hf => hfields f (List.mem_cons_of_mem _ hf)) hxs⟩

/-- Where the components have the exact values, the children they come from are true. -/
theorem allTrue_of_exactly {front rest : List String} {candidates : List Candidate}
    (h : Leading children front candidates) {xs : List String}
    (hvs : List.Forall₂ (fun field v => value? field = some v) (front ++ rest) xs)
    (hxs : List.Forall₂ CompositeTerm.Exactly
      (CompositeTerm.aligned (front ++ rest) (candidates.map fun c => some c.bound)) xs) :
    AllTrue (.ofRecord value? pattern call checks) children candidates := by
  induction h generalizing xs with
  | nil => exact nofun
  | @cons field c front candidates hc _ ih =>
    rw [List.cons_append] at hvs
    rw [List.cons_append, List.map_cons, CompositeTerm.aligned_cons_cons] at hxs
    cases hxs with
    | @cons _ x _ xs hx hxs =>
      cases hvs with
      | cons hv hvs =>
        obtain ⟨b, hb, hlower, -⟩ := hx
        cases hb
        have hadmits : c.bound.admits x = true := by
          rw [ComponentBound.admits, hlower, hc.upper_eq_of_exact hlower]
          simp
        exact allTrue_cons.2 ⟨hc.truth_iff.2 ⟨_, hv, hadmits⟩, ih hvs hxs⟩

/-! ## Look-ups -/

theorem isRegex_of_accepts {op : CompareOp} {value literal : String}
    (h : op.accepts value literal = true) : op.isRegex = false := by
  cases op <;> simp_all [CompareOp.accepts, CompareOp.isRegex]

/-- A bound on a composite field holds when the joined value satisfies it. -/
theorem ofRecord_bound {op : CompareOp} {field joined literal : String}
    (hvalue : value? field = some joined) (haccepts : op.accepts joined literal = true) :
    (Valuation.ofRecord value? pattern call checks).compare ⟨op, field, .string literal⟩ = true := by
  have hregex : op.isRegex = false := isRegex_of_accepts haccepts
  rw [ofRecord_compare hregex rfl, hvalue, Option.any_some]
  exact haccepts

/-- A look-up finds the records whose joined value satisfies the term. -/
theorem all_lookup {consumed : List Query} {term : CompositeTerm} {joined : String}
    (hvalue : value? m.name = some joined) (hadmits : term.admits joined = true)
    (hconsumed : consumed.all (Valuation.ofRecord value? pattern call checks).truth = true) :
    (lookup m consumed term).all (Valuation.ofRecord value? pattern call checks).truth = true := by
  cases term with
  | exact value =>
    have haccepts : CompareOp.eq.accepts joined value = true := hadmits
    simp [lookup, Query.compareWith, ofRecord_bound hvalue haccepts]
  | range lower upper =>
    rw [CompositeTerm.admits, Bool.and_eq_true] at hadmits
    obtain ⟨hlower, hupper⟩ := hadmits
    have hconj : ∀ q ∈ consumed, (Valuation.ofRecord value? pattern call checks).truth q = true := by
      simpa using hconsumed
    simp only [ValueBound.admits] at hlower hupper
    simp [lookup, Query.range, Query.mark, Valuation.truth_marked, ofRecord_bound hvalue hlower,
      ofRecord_bound hvalue hupper]
    exact .inr hconj

/-- Several fields have values when each of them has one. -/
theorem mapM_eq_some_iff {fields vs : List String} :
    fields.mapM value? = some vs ↔ List.Forall₂ (fun field v => value? field = some v) fields vs := by
  induction fields generalizing vs with
  | nil => simp [eq_comm]
  | cons field fields ih =>
    rw [List.mapM_cons]
    constructor
    · intro h
      simp only [Option.bind_eq_bind, Option.bind_eq_some_iff, Option.pure_def,
        Option.some.injEq] at h
      obtain ⟨v, hv, vs, hvs, rfl⟩ := h
      exact .cons hv (ih.1 hvs)
    · rintro (_ | ⟨hv, hvs⟩)
      simp [hv, ih.2 hvs]

/-- A record that has all components of a composite field or not even the first `k`. -/
def Complete (value? : FieldValues) (m : Mapping) (k : Nat) : Prop :=
  (∀ field ∈ m.components.take k, (value? field).isSome = true) →
    ∀ field ∈ m.components, (value? field).isSome = true

/-- All components are nothing but all components. -/
theorem complete_of_length_le {k : Nat} (h : m.components.length ≤ k) : Complete value? m k := by
  rw [Complete, List.take_of_length_le h]
  exact id

theorem exists_forall₂_of_isSome {fields : List String}
    (h : ∀ field ∈ fields, (value? field).isSome = true) :
    ∃ vs, List.Forall₂ (fun field v => value? field = some v) fields vs := by
  induction fields with
  | nil => exact ⟨[], .nil⟩
  | cons field fields ih =>
    obtain ⟨hfield, hrest⟩ := List.forall_mem_cons.1 h
    obtain ⟨v, hv⟩ := Option.isSome_iff_exists.1 hfield
    obtain ⟨vs, hvs⟩ := ih hrest
    exact ⟨v :: vs, .cons hv hvs⟩

theorem exists_field_of_mem {fields vs : List String} {v : String}
    (h : List.Forall₂ (fun field v => value? field = some v) fields vs) (hv : v ∈ vs) :
    ∃ field ∈ fields, value? field = some v := by
  induction h with
  | nil => simp at hv
  | @cons field w _ _ hfield _ ih =>
    rcases List.mem_cons.1 hv with rfl | hv
    · exact ⟨field, List.mem_cons_self, hfield⟩
    · obtain ⟨field', hmem, hvalue⟩ := ih hv
      exact ⟨field', List.mem_cons_of_mem _ hmem, hvalue⟩

/-- A component in front has a value where the children that bound it are true. -/
theorem isSome_of_allTrue {front : List String} {candidates : List Candidate}
    (h : Leading children front candidates)
    (htrue : AllTrue (.ofRecord value? pattern call checks) children candidates) :
    ∀ field ∈ front, (value? field).isSome = true := by
  induction h with
  | nil => simp
  | cons hc _ ih =>
    obtain ⟨hctrue, htrue⟩ := allTrue_cons.1 htrue
    obtain ⟨value, hvalue, -⟩ := hc.truth_iff.1 hctrue
    exact List.forall_mem_cons.2 ⟨by rw [hvalue]; rfl, ih htrue⟩

/-- A look-up made of true bounds finds a record that has all components. -/
theorem exists_joined (hrecord : JoinedValues mappings alphabets width value?)
    (hfits : ∀ child ∈ children, child.Fits mappings alphabets width) (hm : m ∈ mappings)
    {front rest : List String} {candidates : List Candidate}
    (hcomplete : Complete value? m candidates.length)
    (hcomponents : m.components = front ++ rest) (h : Leading children front candidates)
    {term : CompositeTerm}
    (hterm : CompositeTerm.ofBounds m (candidates.map fun c => some c.bound) alphabets false
      = .ok term)
    (htrue : AllTrue (.ofRecord value? pattern call checks) children candidates) :
    ∃ joined, value? m.name = some joined ∧ term.admits joined = true := by
  -- the bounds are on the first components, which have values
  have hfront : ∀ field ∈ m.components.take candidates.length, (value? field).isSome = true := by
    rw [hcomponents, ← h.length_eq, List.take_left]
    exact isSome_of_allTrue h htrue
  obtain ⟨vs, hvs⟩ := exists_forall₂_of_isSome (hcomplete hfront)
  have hfields : ∀ field ∈ front, field ∈ m.components := by
    intro field hfield
    rw [hcomponents]
    exact List.mem_append_left _ hfield
  refine ⟨m.joinValues vs, ?_, ?_⟩
  · rw [hrecord.joined m hm, mapM_eq_some_iff.2 hvs, Option.map_some]
  · apply CompositeTerm.admits_of_ofBounds hterm
    rw [hcomponents] at hvs ⊢
    exact forall₂_componentFits hrecord hfits hm h hfields htrue hvs

/-- What a look-up finds satisfies the bounds it was made of: an exact joined value tells
    the values of the components, and a range comes with the bounds themselves. -/
theorem allTrue_of_all_lookup (hrecord : JoinedValues mappings alphabets width value?)
    (hfits : ∀ child ∈ children, child.Fits mappings alphabets width) (hm : m ∈ mappings)
    {front rest : List String} {candidates : List Candidate}
    (hcomponents : m.components = front ++ rest) (h : Leading children front candidates)
    (hlen : 2 ≤ candidates.length) {term : CompositeTerm}
    (hterm : CompositeTerm.ofBounds m (candidates.map fun c => some c.bound) alphabets false
      = .ok term)
    {consumed : List Query}
    (hconsumed : ∀ c ∈ candidates, ∀ i ∈ c.places, ∀ child, children[i]? = some child →
      child ∈ consumed)
    (hlookup : (lookup m consumed term).all (Valuation.ofRecord value? pattern call true).truth
      = true) :
    AllTrue (.ofRecord value? pattern call true) children candidates := by
  cases term with
  | range lower upper =>
    -- other joined values may lie in the range: only the delayed check tells
    have hchecked : ∀ q ∈ consumed, (Valuation.ofRecord value? pattern call true).truth q = true := by
      have hdelayed : (Valuation.ofRecord value? pattern call true).checksDelayed = true := rfl
      simp [lookup, Query.mark, hdelayed] at hlookup
      exact hlookup.2
    exact fun c hc i hi child hchild => hchecked child (hconsumed c hc i hi child hchild)
  | exact value =>
    have hjoined : value? m.name = some value := by
      have hfound : (Valuation.ofRecord value? pattern call true).compare
          ⟨.eq, m.name, .string value⟩ = true := by
        simpa [lookup, Query.compareWith] using hlookup
      rw [ofRecord_compare rfl rfl, Option.any_eq_true] at hfound
      obtain ⟨joined, hjoined, hadmits⟩ := hfound
      have heq : joined = value := by simpa using hadmits
      rw [hjoined, heq]
    obtain ⟨xs, rfl, hxs⟩ := CompositeTerm.eq_of_ofBounds_exact hterm
    rw [hrecord.joined m hm, Option.map_eq_some_iff] at hjoined
    obtain ⟨vs, hvs, hjoin⟩ := hjoined
    rw [mapM_eq_some_iff] at hvs
    have hfields : ∀ field ∈ front, field ∈ m.components := by
      intro field hfield
      rw [hcomponents]
      exact List.mem_append_left _ hfield
    have hcomponentsNe : m.components ≠ [] := by
      intro hnil
      rw [hcomponents, List.append_eq_nil_iff] at hnil
      have := h.length_eq
      rw [hnil.1, List.length_nil] at this
      omega
    have hvsNe : vs ≠ [] := CompositeTerm.ne_nil_of_length_eq hvs.length_eq hcomponentsNe
    have hxsNe : xs ≠ [] := by
      refine CompositeTerm.ne_nil_of_length_eq hxs.length_eq ?_
      simpa [CompositeTerm.aligned] using hcomponentsNe
    rw [hcomponents] at hxs
    -- neither the values nor the literals hold the separator
    have hvsSeparated : ∀ v ∈ vs, m.separator ∉ v.toList := by
      intro v hv
      obtain ⟨field, hfield, hvalue⟩ := exists_field_of_mem hvs hv
      exact hrecord.separated m hm field hfield v hvalue
    have hxsSeparated := separated_of_exactly hfits hm h hfields hxs
    have heq := m.joinValues_inj hvsNe hxsNe hvsSeparated hxsSeparated hjoin
    rw [heq, hcomponents] at hvs
    exact allTrue_of_exactly h hvs hxs

end

end Folder

end IndexQuery
