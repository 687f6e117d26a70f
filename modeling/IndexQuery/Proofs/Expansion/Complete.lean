import IndexQuery.Proofs.Expansion.Idempotent

/-! # Expansion misses no form

    What the normalizers of a field make of a clause stands at the place of the clause after
    the expansion, alone or beside its other forms.

    * `Expander.At`: the parts of a query that expansion comes to, by their places.
    * `Expander.Fits`: what stands at these places afterwards, and how it is put together.
    * `Expander.exists_operand_expandClause`: a clause is replaced by all of its forms.
    * `Expander.found_or_kept`: the forms of a clause are found, unless it is left to a
      sibling.
    * `Query.found_expand`: no form is missing from an expanded query.
-/

namespace IndexQuery

namespace Expander

variable {e : Expander} {p : Policy} {q : Query} {clause : Clause} {forms : List (List String)}
  {values : List String}

/-! ## Operands -/

theorem isOperand_toQuery (clause : Clause) (kind : Junction) : clause.toQuery.IsOperand kind := by
  cases clause with
  | leaf c => simp [Clause.toQuery, Query.IsOperand]
  | range b => simp [Clause.toQuery, Query.range, Query.mark, Query.IsOperand]

theorem joined_toQuery (clause : Clause) : clause.toQuery.Joined :=
  Query.joined_of_forall_ne (isOperand_toQuery clause)

theorem joined_expandClause (hclause : e.clause? q = some clause) :
    (e.expandClause p q clause).Joined := by
  apply expandClause_cases (motive := Query.Joined)
  case self => exact Query.joined_of_forall_ne (isOperand_of_clause? hclause)
  case marked => exact Query.joined_of_forall_ne (by simp [Query.mark])
  case dropped => exact fun reason => Query.joined_of_forall_ne (by simp [Query.dropped])
  case form => exact fun _ _ _ _ => joined_toQuery _
  case joined =>
    exact fun _ _ => Query.joined_joinDistinct (List.forall_mem_map.2 fun _ _ => joined_toQuery _)

/-- What expansion leaves behind is joined. -/
theorem joined_expandWith (q : Query) (p : Policy) : (e.expandWith p q).Joined := by
  apply e.expandWith_induction (motive := fun _ _ r => r.Joined)
  case junction =>
    intro p kind cs ih
    apply Query.joined_joinDistinct
    intro r hr
    obtain ⟨c, hc, rfl⟩ := List.mem_map.1 hr
    split
    · rename_i hcovered
      exact joined_of_isCovered hcovered
    · exact ih c hc
  case clause =>
    intro p q clause hclause
    exact joined_expandClause hclause
  case not | group | compare | call | closed | marked =>
    intros
    exact Query.joined_of_forall_ne (by simp)

/-- A clause is replaced by all of its forms, be they one or several. -/
theorem exists_operand_expandClause (hclause : e.clause? q = some clause)
    (hforms : e.variants? clause = some forms) (hvalues : values ∈ forms) :
    ∃ x ∈ (e.expandClause p q clause).operands clause.junction,
      ∃ form, Clause.of? x = some form ∧ form.content = (clause.key, values) := by
  have hlength : values.length = clause.values.length :=
    (Clause.forms_of_variants? hforms).length hvalues
  have hform : Clause.of? (clause.withValues values).toQuery = some (clause.withValues values) :=
    (clause?_eq_some.1 (clause?_form hclause hlength)).1
  have hcontent : (clause.withValues values).content = (clause.key, values) := by
    rw [Clause.content, Clause.key_withValues, Clause.values_withValues hlength]
  rw [expandClause_eq, hforms]
  unfold replaced
  split
  · rename_i hnone
    cases hnone
  · -- a single form stands alone
    rename_i single hsingle
    cases hsingle
    obtain rfl := List.mem_singleton.1 hvalues
    split
    · rename_i hself
      rw [Query.operands_of_isOperand (isOperand_of_clause? hclause _)]
      exact ⟨q, List.mem_singleton_self q, clause, (clause?_eq_some.1 hclause).1,
        by rw [Clause.content, hself]⟩
    · rw [Query.operands_of_isOperand (isOperand_toQuery _ _)]
      exact ⟨_, List.mem_singleton_self _, _, hform, hcontent⟩
  · rename_i forms' _ hsome
    cases hsome
    refine ⟨_, (Query.mem_operands_joinDistinct ?_).2 ⟨_, List.mem_map_of_mem hvalues, ?_⟩, _,
      hform, hcontent⟩
    · intro r hr
      obtain ⟨values', -, rfl⟩ := List.mem_map.1 hr
      exact joined_toQuery _
    · rw [Query.operands_of_isOperand (isOperand_toQuery _ _)]
      exact List.mem_singleton_self _

/-! ## Places -/

/-- Whether expansion goes on to the children: the query is no clause, and it is not marked so
    that nothing is expanded in it. -/
def enters (e : Expander) (q : Query) : Bool :=
  (e.clause? q).isNone &&
    match q with
    | .marked m _ _ => !isSealed m
    | _ => true

/-- The parts of a query that expansion comes to. A place lists the numbers of the children on
    the way down. -/
inductive At (e : Expander) (root : Query) : List Nat → Query → Prop where
  | root : At e root [] root
  | child {t : List Nat} {w u : Query} {i : Nat} :
    At e root t w → e.enters w = true → w.children[i]? = some u → At e root (t ++ [i]) u

/-- What stands at the places of a query after expansion. A junction has the operands of all
    that stands at the places of its children, for these may have been merged into it. -/
structure Fits (e : Expander) (root : Query) (out : List Nat → Query) : Prop where
  junction : ∀ {t kind cs}, e.At root t (.junction kind cs) →
    ∀ x, x ∈ (out t).operands kind ↔ ∃ i < cs.length, x ∈ (out (t ++ [i])).operands kind
  not : ∀ {t c}, e.At root t (.not c) → out t = .not (out (t ++ [0]))
  group : ∀ {t c}, e.At root t (.group c) → out t = .group (out (t ++ [0]))
  marked : ∀ {t m note c}, e.At root t (.marked m note c) →
    e.enters (.marked m note c) = true → out t = .marked m note (out (t ++ [0]))

/-- Something that says the given content is found at a place: alone, or beside others in a
    junction of the given kind, which may be the one that the place is in. -/
def Found (e : Expander) (root : Query) (out : List Nat → Query) (t : List Nat) (kind : Junction)
    (content : Clause.Content) : Prop :=
  ∃ x form, Clause.of? x = some form ∧ form.content = content ∧
    (x ∈ (out t).operands kind ∨
      ∃ above i cs, t = above ++ [i] ∧ e.At root above (.junction kind cs) ∧
        x ∈ (out above).operands kind)

/-- A clause that is kept as it was written, for it is a form of another one among its
    siblings, all of whose forms are siblings. -/
def Kept (e : Expander) (root : Query) (out : List Nat → Query) (t : List Nat) (u : Query)
    (clause : Clause) : Prop :=
  ∃ above i cs s forms, t = above ++ [i] ∧ e.At root above (.junction clause.junction cs) ∧
    s ∈ e.clausesOf clause.junction cs ∧ s.key = clause.key ∧ s.values ≠ clause.values ∧
    e.variants? s = some forms ∧ clause.values ∈ forms ∧
    (∀ values ∈ forms, ∃ r ∈ e.clausesOf clause.junction cs, r.content = (s.key, values)) ∧
    out t = u

/-- The policy for the children of a query. -/
def within (p : Policy) : Query → Policy
  | .marked m _ _ => p.beneath m
  | _ => p

/-- Whether a child stays since it is covered by its siblings. -/
def stays (e : Expander) (w c : Query) : Bool :=
  match w with
  | .junction kind cs => e.isCovered kind cs c
  | _ => false

/-- What stands at a place after expansion. -/
def outputAt (e : Expander) (p : Policy) (q : Query) : List Nat → Query
  | [] => e.expandWith p q
  | i :: t =>
    match q.children[i]? with
    | some c => if e.stays q c then c else e.outputAt (within p q) c t
    | none => q

section

variable {root w u : Query} {t : List Nat}

theorem clause?_of_enters (h : e.enters q = true) : e.clause? q = none := by
  obtain ⟨hnone, -⟩ := Bool.and_eq_true_iff.1 h
  simpa using hnone

theorem isSome_of_stays (h : e.stays w u = true) : (e.clause? u).isSome = true := by
  unfold stays at h
  split at h
  · obtain ⟨clause, hclause, -⟩ := isCovered_iff.1 h
    rw [hclause]
    rfl
  · cases h

/-- What stands at a place below one that expansion goes on from. -/
theorem outputAt_append (h : e.At root t w) (hnone : e.clause? w = none) :
    ∃ p', ∀ rest, e.outputAt p root (t ++ rest) = e.outputAt p' w rest := by
  induction h with
  | root => exact ⟨p, fun rest => rfl⟩
  | @child t w u i _ henters hu ih =>
    obtain ⟨p', hp'⟩ := ih (clause?_of_enters henters)
    have hstays : e.stays w u = false := by
      rw [Bool.eq_false_iff]
      intro hstays
      have hsome := isSome_of_stays hstays
      rw [hnone] at hsome
      cases hsome
    refine ⟨within p' w, ?_⟩
    intro rest
    rw [List.append_assoc, hp', List.singleton_append, outputAt, hu]
    simp [hstays]

/-- What stands at a place and at those of the children there. -/
theorem exists_outputAt (h : e.At root t w) (henters : e.enters w = true) :
    ∃ p', e.outputAt p root t = e.expandWith p' w ∧
      ∀ i u, w.children[i]? = some u → e.outputAt p root (t ++ [i]) =
        if e.stays w u then u else e.expandWith (within p' w) u := by
  obtain ⟨p', hp'⟩ := outputAt_append (p := p) h (clause?_of_enters henters)
  refine ⟨p', ?_, ?_⟩
  · have hself := hp' []
    rwa [List.append_nil, outputAt] at hself
  · intro i u hu
    rw [hp', outputAt, hu]
    rfl

theorem enters_junction (kind : Junction) (cs : List Query) :
    e.enters (.junction kind cs) = true := rfl

/-- What stands at the places is put together as it should. -/
theorem fits_outputAt (e : Expander) (p : Policy) (root : Query) :
    e.Fits root (e.outputAt p root) := by
  constructor
  case junction =>
    intro t kind cs h x
    obtain ⟨p', hself, hchildren⟩ := exists_outputAt (p := p) h (enters_junction kind cs)
    rw [hself, expandWith_junction, Query.mem_operands_joinDistinct]
    · constructor
      · rintro ⟨r, hr, hx⟩
        obtain ⟨c, hc, rfl⟩ := List.mem_map.1 hr
        obtain ⟨i, hi, rfl⟩ := List.mem_iff_getElem.1 hc
        refine ⟨i, hi, ?_⟩
        rw [hchildren i cs[i] (List.getElem?_eq_getElem hi)]
        exact hx
      · rintro ⟨i, hi, hx⟩
        rw [hchildren i cs[i] (List.getElem?_eq_getElem hi)] at hx
        exact ⟨_, List.mem_map_of_mem (List.getElem_mem hi), hx⟩
    · intro r hr
      obtain ⟨c, -, rfl⟩ := List.mem_map.1 hr
      split
      · rename_i hcovered
        exact joined_of_isCovered hcovered
      · exact joined_expandWith c p'
  case not =>
    intro t c h
    obtain ⟨p', hself, hchildren⟩ := exists_outputAt (p := p) h rfl
    rw [hself, hchildren 0 c rfl, expandWith_not]
    rfl
  case group =>
    intro t c h
    obtain ⟨p', hself, hchildren⟩ := exists_outputAt (p := p) h rfl
    rw [hself, hchildren 0 c rfl, expandWith_group]
    rfl
  case marked =>
    intro t m note c h henters
    obtain ⟨p', hself, hchildren⟩ := exists_outputAt (p := p) h henters
    obtain ⟨-, hopen⟩ := Bool.and_eq_true_iff.1 henters
    have hsealed : isSealed m = false := by simpa using hopen
    rw [hself, hchildren 0 c rfl, expandWith_marked hsealed (clause?_of_enters henters)]
    rfl

/-! ## Forms -/

/-- What stands at the place of a clause. -/
theorem outputAt_of_clause? (h : e.At root t u) (hclause : e.clause? u = some clause) :
    (∃ p', e.outputAt p root t = e.expandClause p' u clause) ∨
      ∃ above i cs, t = above ++ [i] ∧ e.At root above (.junction clause.junction cs) ∧
        cs[i]? = some u ∧ e.isCovered clause.junction cs u = true ∧ e.outputAt p root t = u := by
  cases h with
  | root => exact .inl ⟨p, expandWith_of_clause? hclause⟩
  | @child t w _ i h henters hu =>
    obtain ⟨p', -, hchildren⟩ := exists_outputAt (p := p) h henters
    rw [hchildren i u hu]
    split
    · rename_i hstays
      unfold stays at hstays
      split at hstays
      · rename_i kind cs
        -- the siblings that cover a clause are joined as its own forms are
        obtain ⟨clause', hclause', rfl, -⟩ := isCovered_iff.1 hstays
        rw [hclause] at hclause'
        cases hclause'
        exact .inr ⟨t, i, cs, rfl, h, hu, hstays, rfl⟩
      · cases hstays
    · exact .inl ⟨_, expandWith_of_clause? hclause⟩

/-- What is covered by its siblings is among the operands of the junction. -/
theorem mem_operands_of_isCovered {kind : Junction} {cs : List Query} {c : Query}
    (h : e.At root t (.junction kind cs)) (hc : c ∈ cs) (hcovered : e.isCovered kind cs c = true) :
    c ∈ (e.outputAt p root t).operands kind := by
  obtain ⟨i, hi, rfl⟩ := List.mem_iff_getElem.1 hc
  obtain ⟨p', -, hchildren⟩ := exists_outputAt (p := p) h (enters_junction kind cs)
  have hstays : e.stays (.junction kind cs) cs[i] = true := hcovered
  refine ((fits_outputAt e p root).junction h cs[i]).2 ⟨i, hi, ?_⟩
  rw [hchildren i cs[i] (List.getElem?_eq_getElem hi), if_pos hstays,
    Query.operands_of_isOperand (isOperand_of_isCovered hcovered)]
  exact List.mem_singleton_self _

/-- The forms of a clause are found at its place, unless it is kept for a sibling. -/
theorem found_or_kept (h : e.At root t u) (hclause : e.clause? u = some clause) :
    (∀ forms, e.variants? clause = some forms → ∀ values ∈ forms,
        e.Found root (e.outputAt p root) t clause.junction (clause.key, values)) ∨
      e.Kept root (e.outputAt p root) t u clause := by
  rcases outputAt_of_clause? (p := p) h hclause with
    ⟨p', hout⟩ | ⟨above, i, cs, rfl, habove, hu, hcovered, hout⟩
  · left
    intro forms hforms values hvalues
    obtain ⟨x, hx, form, hform, hcontent⟩ :=
      exists_operand_expandClause (p := p') hclause hforms hvalues
    exact ⟨x, form, hform, hcontent, .inl (by rw [hout]; exact hx)⟩
  · obtain ⟨clause', hclause', -, hcovers⟩ := isCovered_iff.1 hcovered
    rw [hclause] at hclause'
    cases hclause'
    obtain ⟨s, hs, forms, hforms, hall, values, hvalues, hcontent⟩ := mem_covered.1 hcovers
    obtain ⟨hkey, rfl⟩ := Prod.mk.inj hcontent
    by_cases hself : s.values = clause.values
    · -- the sibling says the same, so the forms of the clause are kept, each at its place
      left
      have hvariants : e.variants? clause = some forms := by
        rw [← hforms, variants?_eq, variants?_eq, Clause.field_of_key hkey.symm]
        exact Clause.variants?_congr (by rw [Clause.content, Clause.content, hkey, hself])
      intro forms' hforms' values hvalues
      rw [hvariants] at hforms'
      cases hforms'
      obtain ⟨r, hr, hrcontent⟩ := hall values hvalues
      obtain ⟨d, hd, hdclause, hdkind⟩ := mem_clausesOf.1 hr
      have hdcovered : e.isCovered clause.junction cs d = true :=
        isCovered_iff.2 ⟨r, hdclause, hdkind, mem_covered.2
          ⟨s, hs, forms, hforms, hall, values, hvalues, hrcontent.symm⟩⟩
      exact ⟨d, r, (clause?_eq_some.1 hdclause).1, by rw [hrcontent, hkey],
        .inr ⟨above, i, cs, rfl, habove, mem_operands_of_isCovered habove hd hdcovered⟩⟩
    · exact .inr ⟨above, i, cs, s, forms, rfl, habove, hs, hkey, hself, hforms, hvalues, hall, hout⟩

end

end Expander

/-! ## Expanded queries -/

/-- Expansion misses no form. What a normalizer makes of a clause is found at the place of the
    clause, and so is the clause as it was written if there are several forms. The exception is
    a clause that is a form of another one among its siblings, all of whose forms are
    siblings; it is kept as it was written. -/
theorem Query.found_expand (q : Query) (catalog : Catalog) (config : Config) :
    let e := q.expander catalog config
    ∃ out : List Nat → Query, out [] = q.expand catalog config ∧ e.Fits q out ∧
      ∀ t u clause, e.At q t u → e.clause? u = some clause →
        ((∀ n ∈ catalog.normalizersFor clause.field, ∀ values,
              clause.normalized? n = some values →
                e.Found q out t clause.junction (clause.key, values)) ∧
            ∀ forms, e.variants? clause = some forms → 1 < forms.length →
              e.Found q out t clause.junction clause.content) ∨
          e.Kept q out t u clause := by
  intro e
  refine ⟨e.outputAt {} q, rfl, Expander.fits_outputAt e {} q, ?_⟩
  intro t u clause hat hclause
  rcases Expander.found_or_kept (p := {}) hat hclause with hfound | hkept
  · left
    constructor
    · intro n hn values hvalues
      cases hforms : e.variants? clause with
      | none =>
        -- some normalizer accepts the clause, so it has forms
        rw [Clause.variants?_eq_none.1 hforms n hn] at hvalues
        cases hvalues
      | some forms =>
        have hmem := (Clause.forms_of_variants? hforms).complete n hn values hvalues
        exact hfound forms hforms values hmem
    · intro forms hforms hlength
      exact hfound forms hforms clause.values ((Clause.forms_of_variants? hforms).written hlength)
  · exact .inr hkept

/-- `SIZE == '1E2'` -/
def numeralQuery : Query := .compare ⟨.eq, "SIZE", .string "1E2"⟩

/-- A numeral in capitals is found in lower case too, in the disjunction of its forms. -/
theorem found_expand_numeralQuery :
    ∃ x form, Clause.of? x = some form ∧ form.content = (("SIZE", [.eq]), ["1e2"]) ∧
      x ∈ (numeralQuery.expand sizeCatalog {}).operands .or := by
  obtain ⟨out, hout, -, hfound⟩ := numeralQuery.found_expand sizeCatalog {}
  rcases hfound [] numeralQuery (.leaf ⟨.eq, "SIZE", .string "1E2"⟩) .root rfl with
    ⟨hforms, -⟩ | ⟨above, i, -, -, -, hplace, -⟩
  · obtain ⟨x, form, hform, hcontent, hx | ⟨above, i, -, hplace, -⟩⟩ :=
      hforms .lowercase List.mem_cons_self ["1e2"] (by decide +kernel)
    · rw [hout] at hx
      exact ⟨x, form, hform, hcontent, hx⟩
    · simp at hplace
  · simp at hplace

end IndexQuery
