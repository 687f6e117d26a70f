import IndexQuery.Proofs.Expansion.Form
import IndexQuery.Proofs.Expansion.Join

/-! # Expansion within its range

    Normalizers in stock compute with the digits of a text, and only digits of other scripts
    can make them leave their range. A query without such digits is expanded within it, and
    so is what becomes of the query, since no normalizer writes one.

    * `Normalizer.overflow_ofValue`, `Normalizer.overflow_ofPattern`: normalizers stay within
      their range.
    * `Normalizer.asciiDigits_normalize`, `Normalizer.asciiDigits_normalizeRegex`: what they
      write has no digits of other scripts.
    * `Query.overflow_expansion`: expansion stays within its range.
    * `Query.asciiTexts_expand`: an expanded query has no digits of other scripts.
-/

namespace IndexQuery

namespace Normalizer

variable {n : Normalizer} {text value name : String}
  {form : List Char → Noted (Option (List Char))}

/-! ## Normalizers -/

theorem overflow_ofValue_ofForm :
    ((ofForm name form).ofValue text).overflow = (form text.toList).overflow := by
  simp only [ofForm, Noted.overflow_bind]
  cases (form text.toList).value <;> simp

theorem overflow_ofPattern_ofForm
    (h : ∀ fixed, fixedText? text.toList = some fixed → (form fixed).overflow = false) :
    ((ofForm name form).ofPattern text).overflow = false := by
  simp only [ofForm]
  cases hfixed : fixedText? text.toList with
  | none => rfl
  | some fixed =>
    simp only [Noted.overflow_bind, h fixed hfixed, Bool.false_or]
    cases (form fixed).value <;> rfl

/-- The text of a pattern has no digits beyond those of the pattern. -/
theorem isDigit_of_fixedText? (hascii : AsciiDigits text) {fixed : List Char}
    (h : fixedText? text.toList = some fixed) :
    ∀ c ∈ fixed, Unicode.isDecimalDigit c = true → c.isDigit = true :=
  fun c hc => hascii c (mem_of_fixedText? h c hc)

/-- A normalizer in stock stays within its range on values. -/
theorem overflow_ofValue (hn : n ∈ stock) (hascii : AsciiDigits text) :
    (n.ofValue text).overflow = false := by
  rcases mem_stock.1 hn with rfl | rfl | rfl | rfl
  · rfl
  · rfl
  · rw [number, overflow_ofValue_ofForm]
    exact Numeral.overflow_normalize hascii
  · rw [ip, overflow_ofValue_ofForm]
    rfl

/-- A normalizer in stock stays within its range on patterns. -/
theorem overflow_ofPattern (hn : n ∈ stock) (hascii : AsciiDigits text) :
    (n.ofPattern text).overflow = false := by
  rcases mem_stock.1 hn with rfl | rfl | rfl | rfl
  · rfl
  · rfl
  · exact overflow_ofPattern_ofForm fun fixed hfixed =>
      Numeral.overflow_normalize (isDigit_of_fixedText? hascii hfixed)
  · exact overflow_ofPattern_ofForm fun _ _ => rfl

/-! ## What normalizers write -/

/-- A padded address has digits of ASCII, and dots. -/
theorem isDigit_of_pad? {cs padded : List Char} (h : Address.pad? cs = some padded) :
    ∀ c ∈ padded, Unicode.isDecimalDigit c = true → c.isDigit = true := by
  obtain ⟨⟨_, _, _, _, ha, hb, hc, hd, rfl⟩, -⟩ := Address.pad?_eq_some h
  intro x hx hdigit
  rcases Address.mem_octets ha hb hc hd hx with hascii | rfl
  · exact hascii
  · exact absurd hdigit (by decide)

/-- Protecting characters adds no digit. -/
theorem mem_of_mem_escapePattern {cs : List Char} {c : Char} (hc : c ∈ escapePattern cs)
    (hdigit : Unicode.isDecimalDigit c = true) : c ∈ cs := by
  obtain ⟨d, hd, hcd⟩ := List.mem_flatMap.1 hc
  split at hcd
  · simp only [List.mem_cons, List.not_mem_nil, or_false] at hcd
    rcases hcd with rfl | rfl
    · exact absurd hdigit (by decide)
    · exact hd
  · rwa [List.mem_singleton.1 hcd]

/-- A digit in the lower case of a pattern stood in the pattern. -/
theorem mem_of_mem_lowercasePattern {pattern : List Char} {x : Char}
    (hx : x ∈ lowercasePattern pattern) (hdigit : Unicode.isDecimalDigit x = true) :
    x ∈ pattern := by
  fun_induction lowercasePattern pattern with
  | case1 => exact hx
  | case2 => exact hx
  | case3 next rest ih =>
    simp only [List.mem_cons] at hx ⊢
    exact hx.imp_right (Or.imp_right ih)
  | case4 c rest _ ih =>
    rcases List.mem_append.1 hx with himage | hrest
    · rw [Unicode.eq_of_mem_lowerChar himage hdigit]
      exact List.mem_cons_self
    · exact List.mem_cons_of_mem _ (ih hrest)

/-- What a normalizer in stock makes of a value has no digits of other scripts. -/
theorem asciiDigits_normalize (hn : n ∈ stock) (hascii : AsciiDigits text)
    (h : n.normalize text = .ok value) : AsciiDigits value := by
  rcases mem_stock.1 hn with rfl | rfl | rfl | rfl
  · cases h
    exact hascii
  · rw [← normalize_lowercase.1 h, AsciiDigits, Unicode.lowercase, String.toList_ofList]
    exact fun c hc hdigit => hascii c (Unicode.mem_of_mem_lowerFrom hc hdigit) hdigit
  · exact Numeral.isDigit_of_normalize? hascii (normalize_number.1 h)
  · exact isDigit_of_pad? (normalize_ip.1 h)

/-- What a normalizer in stock makes of a pattern has no digits of other scripts. -/
theorem asciiDigits_normalizeRegex (hn : n ∈ stock) (hascii : AsciiDigits text)
    (h : n.normalizeRegex text = .ok value) : AsciiDigits value := by
  rcases mem_stock.1 hn with rfl | rfl | rfl | rfl
  · cases h
    exact hascii
  · cases h
    rw [AsciiDigits, String.toList_ofList]
    exact fun c hc hdigit => hascii c (mem_of_mem_lowercasePattern hc hdigit) hdigit
  · obtain ⟨fixed, w, hfixed, hw, hvalue⟩ := normalizeRegex_number.1 h
    have hdigits := Numeral.isDigit_of_normalize? (isDigit_of_fixedText? hascii hfixed) hw
    rw [AsciiDigits, ← hvalue]
    exact fun c hc hdigit => hdigits c (mem_of_mem_escapePattern hc hdigit) hdigit
  · obtain ⟨fixed, w, -, hw, hvalue⟩ := normalizeRegex_ip.1 h
    rw [AsciiDigits, ← hvalue]
    exact fun c hc hdigit => isDigit_of_pad? hw c (mem_of_mem_escapePattern hc hdigit) hdigit

end Normalizer

/-! ## Clauses -/

namespace Clause

variable {clause : Clause} {n : Normalizer} {normalizers : List Normalizer}
  (hascii : ∀ text ∈ clause.values, AsciiDigits text)

include hascii

theorem overflow_normalization (hn : n ∈ Normalizer.stock) :
    (clause.normalization n).overflow = false := by
  cases clause with
  | leaf c =>
    have hc := hascii _ List.mem_cons_self
    rw [normalization]
    split
    · simp [Normalizer.overflow_ofPattern hn hc]
    · simp [Normalizer.overflow_ofValue hn hc]
  | range b =>
    have hlower := Normalizer.overflow_ofValue hn (hascii _ List.mem_cons_self)
    have hupper := Normalizer.overflow_ofValue hn
      (hascii _ (List.mem_cons_of_mem _ List.mem_cons_self))
    simp [normalization, hlower, hupper]

theorem overflow_variants (hstock : ∀ n ∈ normalizers, n ∈ Normalizer.stock) :
    (clause.variants normalizers).overflow = false := by
  rw [variants, Noted.overflow_map]
  exact Noted.overflow_each fun n hn => overflow_normalization hascii (hstock n hn)

/-- What a normalizer in stock makes of a clause has no digits of other scripts. -/
theorem asciiDigits_normalized? (hn : n ∈ Normalizer.stock) {values : List String}
    (h : clause.normalized? n = some values) : ∀ text ∈ values, AsciiDigits text := by
  cases clause with
  | leaf c =>
    obtain ⟨w, hw, rfl⟩ := normalized?_leaf.1 h
    rw [List.forall_mem_singleton]
    have hc := hascii _ List.mem_cons_self
    split at hw
    · exact Normalizer.asciiDigits_normalizeRegex hn hc hw
    · exact Normalizer.asciiDigits_normalize hn hc hw
  | range b =>
    obtain ⟨lo, hi, hlo, hhi, rfl⟩ := normalized?_range.1 h
    have hlower := Normalizer.asciiDigits_normalize hn (hascii _ List.mem_cons_self) hlo
    have hupper := Normalizer.asciiDigits_normalize hn
      (hascii _ (List.mem_cons_of_mem _ List.mem_cons_self)) hhi
    simp [hlower, hupper]

/-- The forms of a clause have no digits of other scripts. -/
theorem asciiDigits_of_variants? (hstock : ∀ n ∈ normalizers, n ∈ Normalizer.stock)
    {forms : List (List String)} (h : clause.variants? normalizers = some forms) :
    ∀ values ∈ forms, ∀ text ∈ values, AsciiDigits text := by
  intro values hvalues
  rcases (forms_of_variants? h).sound values hvalues with rfl | ⟨n, hn, hmade⟩
  · exact hascii
  · exact asciiDigits_normalized? hascii (hstock n hn) hmade

end Clause

/-! ## Queries -/

namespace Query

/-- Whether the literals of a leaf have no digits of other scripts. -/
def AsciiNode : Query → Prop
  | .compare c => AsciiDigits c.literal.text
  | .call c => c.Ascii
  | _ => True

/-- Whether no literal in a query has digits of other scripts. -/
def AsciiTexts (q : Query) : Prop := ∀ r ∈ q.subtrees, r.AsciiNode

theorem asciiTexts_iff {q : Query} :
    q.AsciiTexts ↔ q.AsciiNode ∧ ∀ c ∈ q.children, c.AsciiTexts :=
  forall_subtrees_iff

theorem AsciiTexts.child {q c : Query} (h : q.AsciiTexts) (hc : c ∈ q.children) : c.AsciiTexts :=
  (asciiTexts_iff.1 h).2 c hc

theorem AsciiTexts.ascii {q : Query} (h : q.AsciiTexts) : q.Ascii := fun c hc => h (.compare c) hc

/-- Of a leaf only its own literals count. -/
theorem asciiTexts_leaf {q : Query} (h : q.children = []) : q.AsciiTexts ↔ q.AsciiNode := by
  rw [asciiTexts_iff, h]
  simp

namespace AsciiTexts

variable {q : Query}

theorem joinDistinct {kind : Junction} {cs : List Query} (h : ∀ c ∈ cs, c.AsciiTexts) :
    (Query.joinDistinct kind cs).AsciiTexts :=
  forall_subtrees_joinDistinct (fun _ _ => trivial) h

theorem not (h : q.AsciiTexts) : (Query.not q).AsciiTexts :=
  asciiTexts_iff.2 ⟨trivial, List.forall_mem_singleton.2 h⟩

theorem group (h : q.AsciiTexts) : (Query.group q).AsciiTexts :=
  asciiTexts_iff.2 ⟨trivial, List.forall_mem_singleton.2 h⟩

theorem marked (h : q.AsciiTexts) (m : Marker) (note : Option DropNote) :
    (Query.marked m note q).AsciiTexts :=
  asciiTexts_iff.2 ⟨trivial, List.forall_mem_singleton.2 h⟩

theorem range {b : Bounds} (hlower : AsciiDigits b.lower.literal.text)
    (hupper : AsciiDigits b.upper.literal.text) : (Query.range b).AsciiTexts := by
  have hbounds : (Query.junction .and [.compare b.lower, .compare b.upper]).AsciiTexts :=
    asciiTexts_iff.2 ⟨trivial, List.forall_mem_cons.2 ⟨(asciiTexts_leaf rfl).2 hlower,
      List.forall_mem_singleton.2 ((asciiTexts_leaf rfl).2 hupper)⟩⟩
  exact hbounds.marked _ _

end AsciiTexts

end Query

theorem Clause.asciiTexts_withValues {clause : Clause} {values : List String}
    (hlength : values.length = clause.values.length) (h : ∀ text ∈ values, AsciiDigits text) :
    (clause.withValues values).toQuery.AsciiTexts := by
  obtain ⟨c, w, rfl, rfl, heq⟩ | ⟨b, lo, hi, rfl, rfl, heq⟩ := clause.withValues_eq hlength
  · rw [heq]
    exact (Query.asciiTexts_leaf rfl).2 (h w List.mem_cons_self)
  · rw [heq]
    obtain ⟨hlower, hupper⟩ := List.forall_mem_cons.1 h
    exact .range hlower (List.forall_mem_singleton.1 hupper)

namespace Expander

variable {e : Expander} {p : Policy} {q : Query} {clause : Clause}

/-! ### Staying within the range -/

theorem overflow_coverage {siblings : List Clause}
    (h : ∀ s ∈ siblings, (e.variants s).overflow = false) :
    (e.coverage siblings).overflow = false := by
  rw [coverage, Noted.overflow_bind, Noted.overflow_pure, Bool.or_false]
  apply Noted.overflow_each
  intro s hs
  rw [coverageBy, Noted.overflow_bind, Noted.overflow_pure, Bool.or_false, h s hs]

/-- The children of a junction stay within the range if each of them does on its own. -/
theorem overflow_expansions (kind : Junction) (covered : Std.HashSet Clause.Content)
    {cs : List Query} (h : ∀ c ∈ cs, (e.expansion p c).overflow = false) :
    (e.expansions p kind covered cs).overflow = false := by
  induction cs with
  | nil => rw [expansions, Noted.overflow_pure]
  | cons c cs ih =>
    obtain ⟨hc, hcs⟩ := List.forall_mem_cons.1 h
    rw [expansions, Noted.overflow_bind, Noted.overflow_bind, Noted.overflow_pure, ih hcs,
      Bool.or_false, Bool.or_false]
    split
    · rename_i clause hclause
      rw [expansion_of_clause? (Option.filter_eq_some_iff.1 hclause).1] at hc
      split
      · rfl
      · exact hc
    · exact hc

section Arguments

variable {normalizers : List Normalizer} (hstock : ∀ n ∈ normalizers, n ∈ Normalizer.stock)
  {arg : Argument} (hascii : ∀ l, arg = .literal l → AsciiDigits l.text)

include hstock hascii

theorem overflow_argumentExpansion : (argumentExpansion normalizers arg).overflow = false := by
  cases arg with
  | field name | identifier name => rfl
  | literal l =>
    have hl := hascii l rfl
    rw [argumentExpansion]
    split
    · rename_i text htext
      rw [Literal.text, htext] at hl
      have heach : (Noted.each (·.ofValue text) normalizers).overflow = false :=
        Noted.overflow_each fun n hn => Normalizer.overflow_ofValue (hstock n hn) hl
      simp [textExpansion, heach]
    · rfl

/-- What an argument becomes has no digits of other scripts. -/
theorem asciiDigits_of_expandArgument {l : Literal}
    (h : expandArgument normalizers arg = .literal l) : AsciiDigits l.text := by
  cases arg with
  | field name | identifier name => cases h
  | literal l₀ =>
    have hl₀ := hascii l₀ rfl
    rw [expandArgument_literal] at h
    split at h
    · rename_i text htext
      rw [Literal.text, htext] at hl₀
      cases h
      split
      · rwa [Literal.text, htext]
      · -- the text is a normal form, or stays
        rcases expandText_cases normalizers text with ⟨n, hn, hform⟩ | ⟨hself, -⟩
        · exact Normalizer.asciiDigits_normalize (hstock n hn) hl₀ hform
        · rwa [hself]
    · cases h
      exact hl₀

end Arguments

section Stock

variable (hstock : e.catalog.Stock)

include hstock

theorem overflow_callExpansion {c : Call} (hascii : c.Ascii) :
    (e.callExpansion c).overflow = false := by
  rw [callExpansion]
  split
  · rfl
  · rw [Noted.overflow_bind, Noted.overflow_pure, Bool.or_false]
    apply Noted.overflow_each
    intro arg harg
    apply overflow_argumentExpansion (stock_of_mem_normalizersOf hstock)
    rintro l rfl
    exact hascii l harg

/-- The forms of a clause without digits of other scripts stay within the range. -/
theorem overflow_variants (h : q.AsciiTexts) (hclause : e.clause? q = some clause) :
    (e.variants clause).overflow = false :=
  Clause.overflow_variants (asciiDigits_of_clause? h.ascii hclause) (hstock _)

/-- Expansion of a query without digits of other scripts stays within the range. -/
theorem overflow_expansion (q : Query) (p : Policy) (h : q.AsciiTexts) :
    (e.expansion p q).overflow = false := by
  have hclause : ∀ {q : Query} {clause : Clause} (p : Policy), q.AsciiTexts →
      e.clause? q = some clause → (e.expansion p q).overflow = false := by
    intro q clause p h hclause
    rw [expansion_of_clause? hclause, clauseExpansion, Noted.overflow_map]
    exact overflow_variants hstock h hclause
  induction q using Query.induction generalizing p with
  | junction kind cs ih =>
    rw [expansion, Noted.overflow_bind, Noted.overflow_bind, Noted.overflow_pure]
    have hcovered : (e.coverage (e.clausesOf kind cs)).overflow = false := by
      apply overflow_coverage
      intro s hs
      obtain ⟨c, hc, hs, -⟩ := mem_clausesOf.1 hs
      exact overflow_variants hstock (h.child hc) hs
    rw [hcovered, overflow_expansions kind _ fun c hc => ih c hc p (h.child hc)]
    rfl
  | not c ih | group c ih =>
    rw [expansion, Noted.overflow_map]
    exact ih p (h.child List.mem_cons_self)
  | compare leaf =>
    cases hleaf : e.clause? (.compare leaf) with
    | some clause => exact hclause p h hleaf
    | none => rw [expansion_compare hleaf, Noted.overflow_pure]
  | call c =>
    rw [expansion, Noted.overflow_map]
    exact overflow_callExpansion hstock ((Query.asciiTexts_leaf rfl).1 h)
  | marked m note c ih =>
    cases hsealed : isSealed m with
    | true => rw [expansion_sealed hsealed, Noted.overflow_pure]
    | false =>
      cases hmarked : e.clause? (.marked m note c) with
      | some clause => exact hclause p h hmarked
      | none =>
        rw [expansion_marked hsealed hmarked, Noted.overflow_map]
        exact ih (p.beneath m) (h.child List.mem_cons_self)

/-! ### Expanded queries -/

theorem asciiTexts_expandClause (h : q.AsciiTexts) (hclause : e.clause? q = some clause) :
    (e.expandClause p q clause).AsciiTexts := by
  have hform : ∀ forms, e.variants? clause = some forms → ∀ values ∈ forms,
      (clause.withValues values).toQuery.AsciiTexts := by
    intro forms hforms values hvalues
    apply Clause.asciiTexts_withValues ((Clause.forms_of_variants? hforms).length hvalues)
    exact Clause.asciiDigits_of_variants? (asciiDigits_of_clause? h.ascii hclause) (hstock _)
      hforms values hvalues
  apply expandClause_cases (motive := Query.AsciiTexts) h
  case marked => exact h.marked _ _
  case dropped => exact fun _ => h.marked _ _
  case form => exact hform
  case joined => exact fun forms hforms => .joinDistinct (List.forall_mem_map.2 (hform forms hforms))

theorem ascii_expandCall {c : Call} (hascii : c.Ascii) : (e.expandCall c).Ascii := by
  rw [expandCall_eq]
  split
  · exact hascii
  · intro l hl
    obtain ⟨arg, harg, hform⟩ := List.mem_map.1 hl
    refine asciiDigits_of_expandArgument (stock_of_mem_normalizersOf hstock) ?_ hform
    rintro l₀ rfl
    exact hascii l₀ harg

/-- An expanded query has no digits of other scripts if the query has none. -/
theorem asciiTexts_expandWith (q : Query) (p : Policy) (h : q.AsciiTexts) :
    (e.expandWith p q).AsciiTexts := by
  revert h
  apply e.expandWith_induction (motive := fun _ q r => q.AsciiTexts → r.AsciiTexts)
  case junction =>
    intro p kind cs ih h
    refine .joinDistinct (List.forall_mem_map.2 ?_)
    intro c hc
    split
    · exact h.child hc
    · exact ih c hc (h.child hc)
  case not =>
    intro p c ih h
    exact (ih (h.child List.mem_cons_self)).not
  case group =>
    intro p c ih h
    exact (ih (h.child List.mem_cons_self)).group
  case clause =>
    intro p q clause hclause h
    exact asciiTexts_expandClause hstock h hclause
  case compare =>
    intro p leaf _ h
    exact h
  case call =>
    intro p call h
    exact (Query.asciiTexts_leaf rfl).2
      (ascii_expandCall hstock ((Query.asciiTexts_leaf rfl).1 h))
  case closed =>
    intro p m note c _ h
    exact h
  case marked =>
    intro p m note c _ _ ih h
    exact (ih (h.child List.mem_cons_self)).marked m note

end Stock

end Expander

namespace Query

variable {catalog : Catalog} (hstock : catalog.Stock) {q : Query}

include hstock

/-- Expansion of a query without digits of other scripts stays within the range. -/
theorem overflow_expansion (h : q.AsciiTexts) (config : Config) :
    (q.expansion catalog config).overflow = false :=
  Expander.overflow_expansion (e := q.expander catalog config) hstock q {} h

theorem asciiTexts_expand (h : q.AsciiTexts) (config : Config) :
    (q.expand catalog config).AsciiTexts :=
  Expander.asciiTexts_expandWith (e := q.expander catalog config) hstock q {} h

end Query

end IndexQuery
