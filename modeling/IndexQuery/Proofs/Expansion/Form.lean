import IndexQuery.Proofs.Expansion.Node
import IndexQuery.Proofs.Normalizer.Basic

/-! # Forms are their own forms

    A form that stands alone is its own only form, since normalizers are idempotent
    and none takes what another one has written. Of the forms that stand together
    nothing of the kind holds: lower case changes encoded numbers.

    * `Clause.variants?_congr`: the forms depend on what the clause says.
    * `Clause.variants?_withValues`: a single form has itself as its single form.
    * `Expander.expandCall_expandCall`: arguments are brought into a form once.
-/

namespace IndexQuery

namespace Clause

variable {normalizers : List Normalizer} {clause : Clause} {values : List String} {n : Normalizer}
  (hstock : ∀ n ∈ normalizers, n ∈ Normalizer.stock)

/-- What a normalizer makes of a clause depends on what the clause says. -/
theorem normalized?_congr {other : Clause} (hcontent : clause.content = other.content) :
    clause.normalized? n = other.normalized? n := by
  obtain ⟨hkey, hvalues⟩ := Prod.mk.inj hcontent
  obtain ⟨c, d, rfl, rfl, -, hop⟩ | ⟨b, d, rfl, rfl, -⟩ := cases_of_key hkey
  · -- the operator decides whether the text is a pattern
    obtain ⟨op, field, literal⟩ := c
    simp only [values, List.cons.injEq, and_true] at hvalues
    subst hop
    simp only [normalized?, normalization, hvalues]
  · simp only [values, List.cons.injEq, and_true] at hvalues
    simp only [normalized?, normalization, hvalues.1, hvalues.2]

theorem isPattern_congr {other : Clause} (hkey : clause.key = other.key) :
    clause.isPattern = other.isPattern := by
  obtain ⟨c, d, rfl, rfl, -, hop⟩ | ⟨b, d, rfl, rfl, -⟩ := cases_of_key hkey
  · rw [isPattern, isPattern, hop]
  · rfl

/-- The forms depend on what the clause says. -/
theorem variants?_congr {other : Clause} (hcontent : clause.content = other.content) :
    clause.variants? normalizers = other.variants? normalizers := by
  obtain ⟨hkey, hvalues⟩ := Prod.mk.inj hcontent
  have hnormalized : ∀ n, clause.normalized? n = other.normalized? n :=
    fun n => normalized?_congr hcontent
  have hforms : clause.normalizedForms normalizers = other.normalizedForms normalizers := by
    obtain ⟨c, d, rfl, rfl, -⟩ | ⟨b, d, rfl, rfl, -⟩ := cases_of_key hkey
    · simp only [normalizedForms, hnormalized]
    · simp only [normalizedForms, hnormalized, hvalues]
  simp only [variants?_eq, hnormalized, hforms, isPattern_congr hkey, hvalues]

theorem normalized?_plain {c : Comparison} (hop : c.op.isRegex = false) :
    (leaf c).normalized? n = some values ↔
      ∃ w, n.normalize c.literal.text = .ok w ∧ values = [w] := by
  simp [normalized?_leaf, hop]

/-- What a normalizer makes of a clause, other than of a pattern, it leaves so. -/
theorem normalized?_withValues (hn : n ∈ Normalizer.stock) (hpattern : clause.isPattern = false)
    (hascii : ∀ text ∈ clause.values, AsciiDigits text) (h : clause.normalized? n = some values) :
    (clause.withValues values).normalized? n = some values := by
  cases clause with
  | leaf c =>
    obtain ⟨w, hw, rfl⟩ := (normalized?_plain hpattern).1 h
    have hsame := Normalizer.normalize_normalize hn (hascii _ List.mem_cons_self) hw
    have hop : (c.withValue w).op.isRegex = false := hpattern
    exact (normalized?_plain hop).2 ⟨w, hsame, rfl⟩
  | range b =>
    obtain ⟨lo, hi, hlo, hhi, rfl⟩ := normalized?_range.1 h
    have hlower := Normalizer.normalize_normalize hn (hascii _ List.mem_cons_self) hlo
    have hupper := Normalizer.normalize_normalize hn
      (hascii _ (List.mem_cons_of_mem _ List.mem_cons_self)) hhi
    exact normalized?_range.2 ⟨lo, hi, hlower, hupper, rfl⟩

/-- A clause has a single form if it is the only one that normalizers give it. -/
theorem variants?_eq_singleton (hpattern : clause.isPattern = false)
    (haccepted : ∃ n ∈ normalizers, clause.normalized? n = some values)
    (honly : ∀ form ∈ clause.normalizedForms normalizers, form = values) :
    clause.variants? normalizers = some [values] := by
  obtain ⟨n, hn, hvalues⟩ := haccepted
  have hmem : values ∈ clause.normalizedForms normalizers :=
    mem_normalizedForms.2 (.inl ⟨n, hn, hvalues⟩)
  have hforms : clause.normalizedForms normalizers = [values] :=
    eq_singleton_of_nodup (nodup_normalizedForms normalizers clause) hmem honly
  have hsome : ¬ (normalizers.map (normalized? · clause)).all Option.isNone = true := by
    simp only [List.all_map, List.all_eq_true, Function.comp_apply, Option.isNone_iff_eq_none,
      Classical.not_forall]
    exact ⟨n, hn, by simp [hvalues]⟩
  rw [variants?_eq, if_neg hsome, hforms, hpattern]
  rfl

include hstock in
/-- A single form has itself as its single form. -/
theorem variants?_withValues (hascii : ∀ text ∈ clause.values, AsciiDigits text)
    (h : clause.variants? normalizers = some [values]) :
    (clause.withValues values).variants? normalizers = some [values] := by
  have hforms := forms_of_variants? h
  have honly : ∀ form, form ∈ [values] → form = values := fun form => List.mem_singleton.1
  have hlength := hforms.length List.mem_cons_self
  have hvalues := values_withValues hlength
  by_cases hwritten : values = clause.values
  · -- the clause is its own form, and says the same with its own values
    rw [← h]
    apply variants?_congr
    rw [content, content, key_withValues, hvalues, hwritten]
  · have hpattern : clause.isPattern = false := by
      rw [Bool.eq_false_iff]
      intro hpattern
      exact hwritten (honly _ (hforms.pattern hpattern)).symm
    have hpattern' : (clause.withValues values).isPattern = false := by
      obtain ⟨c, w, rfl, rfl, heq⟩ | ⟨b, lo, hi, rfl, rfl, heq⟩ := clause.withValues_eq hlength
      · exact hpattern
      · rfl
    -- some normalizer `m` gave the form, and any other gives the same one or none
    obtain ⟨m, hm, form, hform⟩ := hforms.accepted
    have hform' := honly form (hforms.complete m hm form hform)
    subst hform'
    apply variants?_eq_singleton hpattern'
      ⟨m, hm, normalized?_withValues (hstock m hm) hpattern hascii hform⟩
    intro other hother
    rcases mem_normalizedForms.1 hother with ⟨n, hn, hmade⟩ | ⟨-, -, -, -, -, hsame⟩
    · cases hclause : clause.normalized? n with
      | some values' =>
        -- the normalizer gave the same form, and leaves it so
        have hvalues' := honly values' (hforms.complete n hn values' hclause)
        rw [hvalues'] at hclause
        rw [normalized?_withValues (hstock n hn) hpattern hascii hclause] at hmade
        exact (Option.some.inj hmade).symm
      | none =>
        -- a comparison that the normalizer refused it refuses in the other form, too
        obtain ⟨c, w, rfl, rfl, heq⟩ | ⟨b, lo, hi, rfl, rfl, heq⟩ := clause.withValues_eq hlength
        · obtain ⟨u, hu, hvalue⟩ := (normalized?_plain hpattern).1 hform
          obtain ⟨u', hu', -⟩ := (normalized?_plain hpattern').1 hmade
          have hrefused : ∀ v, n.normalize c.literal.text ≠ .ok v := by
            intro v hv
            rw [(normalized?_plain hpattern).2 ⟨v, hv, rfl⟩] at hclause
            cases hclause
          rw [← (List.cons.inj hvalue).1] at hu
          exact absurd hu' (Normalizer.refused_of_normalize (hstock n hn) (hstock m hm) hu
            hrefused u')
        · exact absurd (honly _ (hforms.refused b rfl n hn hclause)).symm hwritten
    · rw [hsame, hvalues]

/-- A normalizer accepts what it has made of a clause. -/
theorem accepts_withValues (hn : n ∈ Normalizer.stock) (hascii : ∀ text ∈ clause.values, AsciiDigits text)
    (h : clause.normalized? n = some values) :
    ∃ form, (clause.withValues values).normalized? n = some form := by
  by_cases hpattern : clause.isPattern = true
  · cases clause with
    | leaf c =>
      have hop : c.op.isRegex = true := hpattern
      obtain ⟨w, hw, rfl⟩ := normalized?_leaf.1 h
      rw [if_pos hop] at hw
      obtain ⟨u, hu⟩ := Normalizer.normalizeRegex_accepts hn (hascii _ List.mem_cons_self) hw
      refine ⟨[u], ?_⟩
      show (leaf (c.withValue w)).normalized? n = some [u]
      have hop' : (c.withValue w).op.isRegex = true := hop
      rw [normalized?_leaf, if_pos hop']
      exact ⟨u, hu, rfl⟩
    | range b => cases hpattern
  · rw [Bool.not_eq_true] at hpattern
    exact ⟨values, normalized?_withValues hn hpattern hascii h⟩

include hstock in
/-- What says the same as a form of a clause has forms. -/
theorem variants?_ne_none {other : Clause} {forms : List (List String)}
    (hascii : ∀ text ∈ clause.values, AsciiDigits text)
    (hforms : clause.variants? normalizers = some forms) (hvalues : values ∈ forms)
    (hcontent : (clause.key, values) = other.content) : other.variants? normalizers ≠ none := by
  have hforms' := forms_of_variants? hforms
  intro hnone
  rw [variants?_eq_none] at hnone
  -- the values are those as written, which some normalizer accepts, or made by one
  rcases hforms'.sound values hvalues with rfl | ⟨n, hn, hmade⟩
  · obtain ⟨n, hn, form, hform⟩ := hforms'.accepted
    have hsame : clause.content = other.content := hcontent
    rw [normalized?_congr hsame, hnone n hn] at hform
    cases hform
  · obtain ⟨form, hform⟩ := accepts_withValues (hstock n hn) hascii hmade
    have hsame : (clause.withValues values).content = other.content := by
      rw [← hcontent, content, key_withValues, values_withValues (hforms'.length hvalues)]
    rw [normalized?_congr hsame, hnone n hn] at hform
    cases hform

end Clause

/-- Whether the comparisons in a query have no digits of other scripts. -/
def Query.Ascii (q : Query) : Prop := ∀ c, .compare c ∈ q.subtrees → AsciiDigits c.literal.text

theorem Query.Ascii.child {q c : Query} (h : q.Ascii) (hc : c ∈ q.children) : c.Ascii :=
  fun d hd => h d (Query.mem_subtrees_of_child hc hd)

/-- The values of a clause have no digits of other scripts. -/
theorem Expander.asciiDigits_of_clause? {e : Expander} {q : Query} {clause : Clause}
    (hascii : q.Ascii) (h : e.clause? q = some clause) :
    ∀ text ∈ clause.values, AsciiDigits text := by
  obtain ⟨c, rfl, -, rfl⟩ | ⟨b, hb, rfl⟩ := Clause.of?_eq_some (clause?_eq_some.1 h).1
  · intro text htext
    rw [List.mem_singleton.1 htext]
    exact hascii c (Query.self_mem_subtrees _)
  · obtain ⟨hlower, hupper⟩ := Query.mem_subtrees_of_bounds? hb
    intro text htext
    simp only [Clause.values, List.mem_cons, List.not_mem_nil, or_false] at htext
    rcases htext with rfl | rfl
    · exact hascii _ hlower
    · exact hascii _ hupper

/-! ## Calls -/

/-- Whether the literals among the arguments have no digits of other scripts. -/
def Call.Ascii (c : Call) : Prop := ∀ l, .literal l ∈ c.args → AsciiDigits l.text

/-- Whether all normalizers of the fields are in stock. -/
def Catalog.Stock (catalog : Catalog) : Prop :=
  ∀ field, ∀ n ∈ catalog.normalizersFor field, n ∈ Normalizer.stock

/-- It suffices to look at the entries. -/
theorem Catalog.stock_of_entries {catalog : Catalog}
    (h : ∀ entry ∈ catalog.fields.entries, ∀ n ∈ entry.2.normalizers, n ∈ Normalizer.stock) :
    catalog.Stock := by
  intro field n hn
  unfold normalizersFor field? at hn
  split at hn
  · rename_i info hinfo
    exact h _ (mem_of_lookup_eq_some hinfo) n hn
  · cases hn

namespace Expander

/-! ### The normalizers of several fields -/

variable {n : Normalizer}

theorem mem_addNamed {items : List Normalizer} {item : Normalizer} (h : n ∈ addNamed items item) :
    n ∈ items ∨ n = item := by
  unfold addNamed at h
  split at h
  · exact .inl h
  · simpa using h

/-- A list of normalizers has one of each name that was added. -/
theorem exists_named_addNamed {items : List Normalizer} {item : Normalizer}
    (h : n ∈ items ∨ n = item) : ∃ m ∈ addNamed items item, m.name = n.name := by
  unfold addNamed
  split
  · rename_i hany
    rcases h with hn | rfl
    · exact ⟨n, hn, rfl⟩
    · simpa using hany
  · exact ⟨n, by simpa using h, rfl⟩

theorem mem_foldl_addNamed (added items : List Normalizer) (h : n ∈ added.foldl addNamed items) :
    n ∈ items ∨ n ∈ added := by
  induction added generalizing items with
  | nil => exact .inl h
  | cons item added ih =>
    rcases ih _ h with hmem | hmem
    · rcases mem_addNamed hmem with hmem | rfl
      · exact .inl hmem
      · exact .inr List.mem_cons_self
    · exact .inr (List.mem_cons_of_mem _ hmem)

theorem exists_named_foldl_addNamed (added items : List Normalizer) (h : n ∈ items ∨ n ∈ added) :
    ∃ m ∈ added.foldl addNamed items, m.name = n.name := by
  induction added generalizing items n with
  | nil => exact ⟨n, by simpa using h, rfl⟩
  | cons item added ih =>
    rw [List.mem_cons, ← or_assoc] at h
    rcases h with hitem | hadded
    · obtain ⟨m, hm, hname⟩ := exists_named_addNamed hitem
      obtain ⟨k, hk, hsame⟩ := ih (addNamed items item) (.inl hm)
      exact ⟨k, hk, hsame.trans hname⟩
    · exact ih _ (.inr hadded)

/-- The normalizers of several fields are those of one of them. -/
theorem normalizersFor_of_mem {e : Expander} {fields : List String}
    (h : n ∈ e.normalizersOf fields) : ∃ field ∈ fields, n ∈ e.catalog.normalizersFor field := by
  rcases mem_foldl_addNamed _ _ h with hnone | hmem
  · cases hnone
  · exact List.mem_flatMap.1 hmem

theorem stock_of_mem_normalizersOf {e : Expander} (hstock : e.catalog.Stock)
    {fields : List String} : ∀ n ∈ e.normalizersOf fields, n ∈ Normalizer.stock := by
  intro n hn
  obtain ⟨field, -, hn⟩ := normalizersFor_of_mem hn
  exact hstock field n hn

/-- Normalizers in stock are known by their names, so that none is left out. -/
theorem mem_normalizersOf {e : Expander} (hstock : e.catalog.Stock) {fields : List String} :
    n ∈ e.normalizersOf fields ↔ ∃ field ∈ fields, n ∈ e.catalog.normalizersFor field := by
  refine ⟨normalizersFor_of_mem, ?_⟩
  rintro ⟨field, hfield, hn⟩
  obtain ⟨m, hm, hname⟩ := exists_named_foldl_addNamed _ []
    (.inr (List.mem_flatMap.2 ⟨field, hfield, hn⟩))
  obtain ⟨field', -, hm'⟩ := normalizersFor_of_mem (e := e) hm
  rwa [← Normalizer.eq_of_name (hstock field' m hm') (hstock field n hn) hname]

/-! ### Arguments -/

variable {normalizers others : List Normalizer}
  (hstock : ∀ n ∈ normalizers, n ∈ Normalizer.stock)

include hstock in
/-- The form of an argument is its own form, whatever the order of the normalizers. -/
theorem expandText_expandText (hsame : ∀ n, n ∈ others ↔ n ∈ normalizers) {text : String}
    (hascii : AsciiDigits text) :
    expandText others (expandText normalizers text) = expandText normalizers text := by
  apply expandText_eq_self
  rcases expandText_cases normalizers text with ⟨n, hn, hform⟩ | ⟨hself, hrefused⟩
  · exact .inl ⟨n, (hsame n).2 hn, Normalizer.normalize_normalize (hstock n hn) hascii hform⟩
  · rw [hself]
    exact .inr fun n hn => hrefused n ((hsame n).1 hn)

include hstock in
theorem expandArgument_expandArgument (hsame : ∀ n, n ∈ others ↔ n ∈ normalizers) {arg : Argument}
    (hascii : ∀ l, arg = .literal l → AsciiDigits l.text) :
    expandArgument others (expandArgument normalizers arg) = expandArgument normalizers arg := by
  cases arg with
  | field name | identifier name => rfl
  | literal l =>
    rw [expandArgument_literal]
    cases htext : l.text? with
    | none => simp [htext]
    | some text =>
      have hascii : AsciiDigits text := by
        have hl := hascii l rfl
        rwa [Literal.text, htext] at hl
      have hform := expandText_expandText hstock hsame hascii
      dsimp only
      by_cases hself : expandText normalizers text = text
      · rw [hself] at hform
        simp [hself, htext, hform]
      · simp [hself, Literal.text?, hform]

/-- A call names the same fields when its literals are in their forms. -/
theorem fields_expandCall (e : Expander) (c : Call) : (e.expandCall c).fields = c.fields := by
  rw [expandCall_eq]
  split
  · rfl
  · unfold Call.fields
    rw [List.filterMap_map]
    congr 1
    funext arg
    cases arg with
    | field name | identifier name => rfl
    | literal l =>
      simp only [Function.comp_apply, expandArgument_literal]
      cases l.text? <;> rfl

/-- A call is brought into its form once, by whatever list of the same fields. -/
theorem expandCall_expandCall {e : Expander} (hstock : e.catalog.Stock) {fields : List String}
    (hsame : ∀ field, field ∈ fields ↔ field ∈ e.queryFields) {c : Call} (hascii : c.Ascii) :
    expandCall { e with queryFields := fields } (e.expandCall c) = e.expandCall c := by
  have hfields := fields_expandCall e c
  by_cases hfamily : c.family = "filter"
  · -- the literals of this family stand for values of events as they are
    have hself : ∀ e' : Expander, e'.expandCall c = c := by
      intro e'
      rw [expandCall_eq, if_pos hfamily]
    rw [hself, hself]
  · have hcall : ∀ (e' : Expander) (c' : Call), c'.family = c.family → e'.expandCall c' =
        { c' with args := c'.args.map (expandArgument (e'.normalizersOf
          (if c'.fields.isEmpty then e'.queryFields else c'.fields))) } := by
      intro e' c' hc'
      rw [← hc'] at hfamily
      rw [expandCall_eq, if_neg hfamily]
    rw [hcall _ (e.expandCall c) (by rw [hcall e c rfl]), hfields, hcall e c rfl]
    simp only [List.map_map, Call.mk.injEq, true_and]
    apply List.map_congr_left
    intro arg harg
    apply expandArgument_expandArgument
    · exact stock_of_mem_normalizersOf hstock
    · intro n
      have hother : Catalog.Stock { e with queryFields := fields }.catalog := hstock
      rw [mem_normalizersOf hother, mem_normalizersOf hstock]
      split
      · simp only [hsame]
      · rfl
    · rintro l rfl
      exact hascii l harg

end Expander

end IndexQuery
