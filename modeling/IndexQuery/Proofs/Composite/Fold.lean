import IndexQuery.Proofs.Composite.Distribution

/-! # Folding keeps the truth of a query

    On a record that holds composite values beside those they are joined of, a query
    with look-ups on composite fields is as true as the query that it was made of.

    * `Folder.Folding.Sound`: a query beside its folded form, and all beneath it.
    * `Folder.sound_folding`: folding keeps soundness from the children upwards.
    * `Query.truth_fold`: a folded query on a record.
-/

namespace IndexQuery

namespace Folder

variable {f : Folder} {back : Bool} {width : String → Nat} {value? : FieldValues}
  {pattern : Comparison → Bool} {call : Call → Bool} {checks : Bool}

/-! ## Queries beside their folded forms -/

/-- A query that fits beside a folded form that is as true in one direction, if what is
    given of it holds, with children of which the same is true. -/
inductive Folding.Sound (back : Bool) (given : Folding → Prop) (ok : Query → Prop) (v : Valuation) :
    Folding → Prop where
  | mk {source folded : Query} {parts : List Folding} (hok : ok source)
      (hfolded : given (.mk source folded parts) → Follows back (v.truth source) (v.truth folded))
      (hparts : parts.map Folding.source = source.children)
      (hall : ∀ part ∈ parts, part.Sound back given ok v) :
      Folding.Sound back given ok v (.mk source folded parts)

namespace Folding.Sound

variable {given : Folding → Prop} {ok : Query → Prop} {v : Valuation} {F : Folding}

theorem fits (h : F.Sound back given ok v) : ok F.source := by
  cases h
  assumption

theorem follows (h : F.Sound back given ok v) (hgiven : given F) :
    Follows back (v.truth F.source) (v.truth F.folded) := by
  cases h with
  | mk _ hfolded => exact hfolded hgiven

/-- The groups around a query do not count. -/
theorem ungrouped (h : F.Sound back given ok v) :
    F.ungrouped.Sound back given ok v ∧ v.truth F.ungrouped.source = v.truth F.source := by
  fun_induction Folding.ungrouped F with
  | case1 child folded part ih =>
    cases h with
    | mk _ _ hparts hall =>
      obtain ⟨hpart, htruth⟩ := ih (hall part List.mem_cons_self)
      have hchild : part.source = child := by simpa [Query.children] using hparts
      exact ⟨hpart, by rw [htruth, hchild, source, Valuation.truth_group]⟩
  | case2 F _ => exact ⟨h, rfl⟩

/-- The operands of a disjunction are sound and make up the disjunction. -/
theorem disjuncts {disjuncts : List Folding} (h : F.Sound back given ok v)
    (hdisjuncts : F.disjuncts? = some disjuncts) :
    (∀ d ∈ disjuncts, d.Sound back given ok v) ∧
      v.truth F.source = disjuncts.any fun d => v.truth d.source := by
  obtain ⟨hungrouped, htruth⟩ := h.ungrouped
  rw [← htruth]
  unfold Folding.disjuncts? at hdisjuncts
  split at hdisjuncts
  · rename_i cs folded parts hmk
    cases hdisjuncts
    rw [hmk] at hungrouped ⊢
    cases hungrouped with
    | mk _ _ hparts hall =>
      rw [Query.children] at hparts
      refine ⟨hall, ?_⟩
      rw [source, ← hparts, Valuation.truth_junction, Junction.holds_or, List.any_map]
      rfl
  · cases hdisjuncts

/-- The operands of a conjunction are sound and make up the conjunction. -/
theorem conjuncts (h : F.Sound back given ok v) :
    (∀ c ∈ F.conjuncts, c.Sound back given ok v) ∧
      v.truth F.source = F.conjuncts.all fun c => v.truth c.source := by
  obtain ⟨hungrouped, htruth⟩ := h.ungrouped
  unfold Folding.conjuncts
  split
  · rename_i cs folded parts hmk
    rw [← htruth]
    rw [hmk] at hungrouped ⊢
    cases hungrouped with
    | mk _ _ hparts hall =>
      rw [Query.children] at hparts
      refine ⟨hall, ?_⟩
      rw [source, ← hparts, Valuation.truth_junction, Junction.holds_and, List.all_map]
      rfl
  · exact ⟨by simpa using h, by simp⟩

end Folding.Sound

/-- What is given of a query beside its folded form: what the direction needs of the
    look-ups in it. -/
abbrev Given (f : Folder) (back : Bool) (value? : FieldValues) (checks : Bool) (F : Folding) : Prop :=
  Direction back (f.CompleteIn value? F) checks

/-- What is given of a conjunction that is composed, and of its children. -/
structure GivenAll (f : Folder) (back : Bool) (value? : FieldValues) (checks : Bool)
    (children : List Folding) : Prop where
  takes : Direction back (f.CompleteOn value? (children.map Folding.source)) checks
  children : ∀ c ∈ children, f.Given back value? checks c

section

variable (hplain : Plain f.mappings)
  (hrecord : JoinedValues f.mappings f.alphabets width value?)

include hplain hrecord

/-- The composed conjunction of sound children. -/
theorem follows_compose {children : List Folding}
    (hgiven : f.GivenAll back value? checks children)
    (h : ∀ c ∈ children, c.Sound back (f.Given back value? checks)
      (·.Fits f.mappings f.alphabets width) (.ofRecord value? pattern call checks)) :
    Follows back
      (children.all fun c => (Valuation.ofRecord value? pattern call checks).truth c.source)
      ((Valuation.ofRecord value? pattern call checks).truth (f.compose children).1) :=
  truth_compose hplain hrecord hgiven.takes (fun c hc => (h c hc).fits)
    fun c hc => (h c hc).follows (hgiven.children c hc)

/-- Distributing the anchors into the disjuncts keeps the truth of all anchors and one of
    the disjuncts. -/
theorem follows_distributeInto {anchors disjuncts : List Folding} {q : Query}
    (hgiven : ∀ d ∈ disjuncts, f.GivenAll back value? checks (anchors ++ d.conjuncts))
    (hanchors : ∀ c ∈ anchors, c.Sound back (f.Given back value? checks)
      (·.Fits f.mappings f.alphabets width) (.ofRecord value? pattern call checks))
    (hdisjuncts : ∀ d ∈ disjuncts, d.Sound back (f.Given back value? checks)
      (·.Fits f.mappings f.alphabets width) (.ofRecord value? pattern call checks))
    (h : f.distributeInto anchors disjuncts = some q) :
    Follows back
      ((anchors.all fun c => (Valuation.ofRecord value? pattern call checks).truth c.source) &&
        disjuncts.any fun d => (Valuation.ofRecord value? pattern call checks).truth d.source)
      ((Valuation.ofRecord value? pattern call checks).truth q) := by
  unfold distributeInto at h
  dsimp only at h
  split at h
  · cases h
    rw [Valuation.truth_disj, List.any_map, List.any_map]
    have hinto : ∀ d ∈ disjuncts, Follows back
        ((anchors.all fun c => (Valuation.ofRecord value? pattern call checks).truth c.source) &&
          (Valuation.ofRecord value? pattern call checks).truth d.source)
        ((Valuation.ofRecord value? pattern call checks).truth
          (f.compose (anchors ++ d.conjuncts)).1) := by
      intro d hd
      obtain ⟨hconjuncts, htruth⟩ := (hdisjuncts d hd).conjuncts
      rw [htruth, ← List.all_append]
      apply follows_compose hplain hrecord (hgiven d hd)
      intro c hc
      rcases List.mem_append.1 hc with hc | hc
      · exact hanchors c hc
      · exact hconjuncts c hc
    -- the anchors stand beside each of the disjuncts, not beside the disjunction
    have hany : ∀ b : Bool, (b && disjuncts.any fun d =>
        (Valuation.ofRecord value? pattern call checks).truth d.source)
          = disjuncts.any fun d => b && (Valuation.ofRecord value? pattern call checks).truth d.source := by
      intro b
      cases b <;> simp
    rw [hany]
    exact Follows.any hinto
  · cases h

/-- Distributing the component bounds of a conjunction into one of its children keeps the
    truth of the conjunction. -/
theorem follows_distributeAt {children : List Folding} {i : Nat} {child : Folding}
    {disjuncts : List Folding} {q : Query} (hdisjuncts : child.disjuncts? = some disjuncts)
    (hgiven : ∀ d ∈ disjuncts,
      f.GivenAll back value? checks (f.anchorsOf children i ++ d.conjuncts))
    (hgivenOthers : ∀ j c, children[j]? = some c → j ≠ i → f.isComponentBound c.source = false →
      f.Given back value? checks c)
    (hchildren : ∀ c ∈ children, c.Sound back (f.Given back value? checks)
      (·.Fits f.mappings f.alphabets width) (.ofRecord value? pattern call checks))
    (hchild : children[i]? = some child) (h : f.distributeAt children i child = some q) :
    Follows back
      (children.all fun c => (Valuation.ofRecord value? pattern call checks).truth c.source)
      ((Valuation.ofRecord value? pattern call checks).truth q) := by
  obtain ⟨disjuncts', distributed, hdisjuncts', hinto, hq⟩ := distributeAt_eq_some hchild h
  cases hdisjuncts.symm.trans hdisjuncts'
  obtain ⟨hsound, htruth⟩ := (hchildren child (List.mem_of_getElem? hchild)).disjuncts hdisjuncts
  have hmem : ∀ c ∈ anchorsOf f children i, c ∈ children := by
    intro c hc
    obtain ⟨j, hj, -, -⟩ := mem_anchorsOf.1 hc
    exact List.mem_of_getElem? hj
  have hdistributed := follows_distributeInto hplain hrecord hgiven
    (fun c hc => hchildren c (hmem c hc)) hsound hinto
  rw [← htruth] at hdistributed
  cases back with
  | false =>
    intro hall
    rw [List.all_eq_true] at hall
    have hanchors : (anchorsOf f children i).all (fun c =>
        (Valuation.ofRecord value? pattern call checks).truth c.source) = true :=
      List.all_eq_true.2 fun c hc => hall c (hmem c hc)
    refine (hq _).2 ⟨hdistributed ?_, ?_⟩
    · rw [hanchors, hall child (List.mem_of_getElem? hchild)]
      rfl
    · intro j c hj hji hbound
      have hc := List.mem_of_getElem? hj
      exact (hchildren c hc).follows (hgivenOthers j c hj hji hbound) (hall c hc)
  | true =>
    intro htrue
    obtain ⟨htrue, hothers⟩ := (hq _).1 htrue
    obtain ⟨hanchors, hself⟩ := Bool.and_eq_true_iff.1 (hdistributed htrue)
    rw [List.all_eq_true] at hanchors ⊢
    intro c hc
    obtain ⟨j, hj⟩ := List.mem_iff_getElem?.1 hc
    -- each child is the distributed one, an anchor or one of the others
    by_cases hji : j = i
    · rw [hji, hchild] at hj
      cases hj
      exact hself
    · cases hbound : f.isComponentBound c.source with
      | true => exact hanchors c (mem_anchorsOf.2 ⟨j, hj, hji, hbound⟩)
      | false =>
        exact (hchildren c hc).follows (hgivenOthers j c hj hji hbound) (hothers j c hj hji hbound)

/-- The folded form of a conjunction. -/
theorem follows_foldConjunction {children : List Folding}
    (hgiven : ∀ composed ∈ f.compositions children, f.GivenAll back value? checks composed)
    (hgivenOthers : ∀ c ∈ f.bystanders children, f.Given back value? checks c)
    (hchildren : ∀ c ∈ children, c.Sound back (f.Given back value? checks)
      (·.Fits f.mappings f.alphabets width) (.ofRecord value? pattern call checks)) :
    Follows back
      (children.all fun c => (Valuation.ofRecord value? pattern call checks).truth c.source)
      ((Valuation.ofRecord value? pattern call checks).truth (f.foldConjunction children)) := by
  rcases f.foldConjunction_cases children with ⟨hcompositions, hfold⟩ |
    ⟨i, child, disjuncts, hchild, hdisjuncts, hfold, hcompositions, hbystanders⟩
  · rw [hcompositions] at hgiven
    rw [hfold]
    exact follows_compose hplain hrecord (hgiven children List.mem_cons_self) hchildren
  · rw [hcompositions, List.forall_mem_map] at hgiven
    exact follows_distributeAt hplain hrecord hdisjuncts hgiven
      (fun j c hj hji hbound => hgivenOthers c (hbystanders j c hj hji hbound)) hchildren hchild hfold

end

/-! ## Trees -/

/-- Where no composite field is overloaded, nothing is widened. -/
theorem widen_of_plain (hplain : Plain f.mappings) (q : Query) : f.widen q = q := by
  have hnone : ∀ field, f.overloadedAlphabet? field = none := by
    intro field
    unfold overloadedAlphabet?
    rw [if_neg]
    intro hany
    obtain ⟨m, hm, hoverloaded⟩ := List.any_eq_true.1 hany
    rw [(hplain m hm).1] at hoverloaded
    simp at hoverloaded
  unfold widen
  split
  · simp [hnone]
  · cases q.comparison? <;> simp [hnone]

@[simp] theorem source_folding (q : Query) : (f.folding q).source = q := by
  cases q with
  | junction kind cs => cases kind <;> rfl
  | _ => rfl

/-- A marked query is widened as a range, folded beneath its marker or left as it is. -/
theorem folding_marked (f : Folder) (m : Marker) (note : Option DropNote) (c : Query) :
    ∃ folded, f.folding (.marked m note c) = .mk (.marked m note c) folded [f.folding c] ∧
      (folded = f.widen (.marked m note c) ∨
        (entersMarker m = true ∧ folded = .marked m note (f.folding c).folded) ∨
        folded = .marked m note c) := by
  cases m with
  | bounded => exact ⟨_, rfl, .inl rfl⟩
  | lenient | strict | list | term => exact ⟨_, rfl, .inr (.inl ⟨rfl, rfl⟩)⟩
  | delayed | evaluationOnly | exceededValue | exceededTerm | exceededOr | indexHole | drop =>
    exact ⟨_, rfl, .inr (.inr rfl)⟩

theorem foldings_eq_map (cs : List Query) : f.foldings cs = cs.map f.folding := by
  induction cs with
  | nil => rfl
  | cons c cs ih => rw [foldings, ih, List.map_cons]

theorem map_source_foldings (cs : List Query) : (f.foldings cs).map Folding.source = cs := by
  simp [foldings_eq_map, Function.comp_def]

/-- The children of a junction are the sources of their foldings. -/
theorem holds_foldings (f : Folder) (kind : Junction) (p : Query → Bool) (cs : List Query) :
    kind.holds p cs = kind.holds (fun part => p part.source) (f.foldings cs) := by
  have hmap := Junction.holds_map kind p Folding.source (f.foldings cs)
  rwa [map_source_foldings] at hmap

/-- A query that fits has children that fit. -/
theorem fits_of_child {mappings : List Mapping} {alphabets : CompositeTerm.Alphabets} {q c : Query}
    (h : q.Fits mappings alphabets width) (hc : c ∈ q.children) :
    c.Fits mappings alphabets width :=
  fun leaf hleaf => h leaf (Query.mem_subtrees_of_child hc hleaf)

/-- Folding is sound for every query that fits. -/
theorem sound_folding (hplain : Plain f.mappings)
    (hrecord : JoinedValues f.mappings f.alphabets width value?)
    (q : Query) (h : q.Fits f.mappings f.alphabets width) :
    (f.folding q).Sound back (f.Given back value? checks) (·.Fits f.mappings f.alphabets width)
      (.ofRecord value? pattern call checks) := by
  induction q using Query.induction with
  | junction kind cs ih =>
    have hparts : ∀ part ∈ f.foldings cs, part.Sound back (f.Given back value? checks)
        (·.Fits f.mappings f.alphabets width) (.ofRecord value? pattern call checks) := by
      rw [foldings_eq_map, List.forall_mem_map]
      exact fun c hc => ih c hc (fits_of_child h hc)
    cases kind with
    | and =>
      rw [folding]
      refine .mk h ?_ (map_source_foldings cs) hparts
      intro hgiven
      rw [Valuation.truth_junction, holds_foldings f]
      refine follows_foldConjunction hplain hrecord ?_ ?_ hparts
      · intro composed hcomposed
        exact ⟨hgiven.imp (·.composed hcomposed), fun c hc => hgiven.imp (·.conjunct hcomposed hc)⟩
      · exact fun c hc => hgiven.imp (·.bystander hc)
    | or =>
      rw [folding]
      refine .mk h ?_ (map_source_foldings cs) hparts
      intro hgiven
      rw [Valuation.truth_junction, holds_foldings f, Valuation.truth_disj, List.any_map]
      exact Follows.any fun part hpart =>
        (hparts part hpart).follows (hgiven.imp (·.disjunct hpart))
  | group c ih =>
    have hpart := ih (fits_of_child h List.mem_cons_self)
    rw [folding]
    refine .mk h ?_ (by simp [Query.children]) (by simpa using hpart)
    intro hgiven
    rw [Valuation.truth_group, Valuation.truth_group]
    simpa using hpart.follows (hgiven.imp (·.group))
  | compare c =>
    rw [folding, widen_of_plain hplain]
    exact .mk h (fun _ => follows_rfl _ _) (by simp [Query.children]) (by simp)
  | marked m note c ih =>
    have hpart := ih (fits_of_child h List.mem_cons_self)
    obtain ⟨folded, hfolding, hfolded⟩ := f.folding_marked m note c
    rw [hfolding]
    refine .mk h ?_ (by simp [Query.children]) (by simpa using hpart)
    intro hgiven
    rcases hfolded with rfl | ⟨hmarker, rfl⟩ | rfl
    · rw [widen_of_plain hplain]
      exact follows_rfl _ _
    · obtain ⟨hdrop, hdelayed⟩ := ne_of_entersMarker hmarker
      rw [Valuation.truth_marked _ hdrop hdelayed, Valuation.truth_marked _ hdrop hdelayed]
      simpa using hpart.follows (hgiven.imp (·.marked hmarker))
    · exact follows_rfl _ _
  | not c ih =>
    have hpart := ih (fits_of_child h List.mem_cons_self)
    rw [folding]
    exact .mk h (fun _ => follows_rfl _ _) (by simp [Query.children]) (by simpa using hpart)
  | call c =>
    rw [folding]
    exact .mk h (fun _ => follows_rfl _ _) (by simp [Query.children]) (by simp)

end Folder

/-! ## Folded queries -/

theorem Folder.mem_mappings_ofConfig {config : Config} {m : Mapping} :
    m ∈ (Folder.ofConfig config).mappings ↔ m ∈ config.composites :=
  List.mem_mergeSort

/-- The truth of a folded query follows from that of the query or, going back, the other
    way round. -/
theorem Query.follows_fold {config : Config} {back checks : Bool} {width : String → Nat}
    {value? : FieldValues} {pattern : Comparison → Bool} {call : Call → Bool} {q : Query}
    (hgiven : (Folder.ofConfig config).Given back value? checks
      ((Folder.ofConfig config).folding q))
    (hplain : Folder.Plain config.composites)
    (hrecord : JoinedValues config.composites config.alphabet? width value?)
    (hfits : q.Fits config.composites config.alphabet? width) :
    Folder.Follows back ((Valuation.ofRecord value? pattern call checks).truth q)
      ((Valuation.ofRecord value? pattern call checks).truth (q.fold config)) := by
  -- the folder sorts the composite fields, so what is said of all of them carries over
  have hmem := @Folder.mem_mappings_ofConfig config
  unfold fold
  dsimp only
  split
  · exact Folder.follows_rfl _ _
  · have hrecord' : JoinedValues (Folder.ofConfig config).mappings
        (Folder.ofConfig config).alphabets width value? :=
      ⟨fun m hm => hrecord.joined m (hmem.1 hm), fun m hm => hrecord.separated m (hmem.1 hm),
        hrecord.fixed⟩
    have hfits' : q.Fits (Folder.ofConfig config).mappings (Folder.ofConfig config).alphabets
        width := by
      intro c hc hregex hnull
      obtain ⟨hseparated, hfixed, hstrict⟩ := hfits c hc hregex hnull
      exact ⟨fun m hm => hseparated m (hmem.1 hm), hfixed, fun hlt m hm => hstrict hlt m (hmem.1 hm)⟩
    have hsound : ((Folder.ofConfig config).folding q).Sound back
        ((Folder.ofConfig config).Given back value? checks)
        (·.Fits (Folder.ofConfig config).mappings (Folder.ofConfig config).alphabets width)
        (.ofRecord value? pattern call checks) :=
      Folder.sound_folding (fun m hm => hplain m (hmem.1 hm)) hrecord' q hfits'
    simpa using hsound.follows hgiven

/-- A folded query is true on a record only if the query is. Where the record has all
    components of a look-up on some of them, or lacks one of those, both are as true, and
    the look-ups alone find at least the records of the query. -/
theorem Query.truth_fold {config : Config} {width : String → Nat} {value? : FieldValues} (q : Query)
    (hplain : Folder.Plain config.composites)
    (hrecord : JoinedValues config.composites config.alphabet? width value?)
    (hfits : q.Fits config.composites config.alphabet? width)
    (pattern : Comparison → Bool) (call : Call → Bool) :
    ((Valuation.ofRecord value? pattern call true).truth (q.fold config) = true →
      (Valuation.ofRecord value? pattern call true).truth q = true) ∧
    ((Folder.ofConfig config).CompleteIn value? ((Folder.ofConfig config).folding q) →
      (Valuation.ofRecord value? pattern call true).truth (q.fold config)
          = (Valuation.ofRecord value? pattern call true).truth q ∧
        ((Valuation.ofRecord value? pattern call false).truth q = true →
          (Valuation.ofRecord value? pattern call false).truth (q.fold config) = true)) := by
  have hback : (Valuation.ofRecord value? pattern call true).truth (q.fold config) = true →
      (Valuation.ofRecord value? pattern call true).truth q = true := by
    have hgiven : (Folder.ofConfig config).Given true value? true
        ((Folder.ofConfig config).folding q) := rfl
    exact follows_fold hgiven hplain hrecord hfits
  refine ⟨hback, ?_⟩
  intro hcomplete
  have hforth : ∀ checks, (Valuation.ofRecord value? pattern call checks).truth q = true →
      (Valuation.ofRecord value? pattern call checks).truth (q.fold config) = true := by
    intro checks
    have hgiven : (Folder.ofConfig config).Given false value? checks
        ((Folder.ofConfig config).folding q) := hcomplete
    exact follows_fold hgiven hplain hrecord hfits
  exact ⟨Bool.eq_iff_iff.2 ⟨hback, hforth true⟩, hforth false⟩

/-! ### Two components of three -/

/-- Composite values of three fields, the second of which holds single digits. -/
def threeConfig : Config :=
  { composites := [⟨"ABC", ["A", "B", "C"], ',', none⟩]
    fixedLengthFields := .ofList [("B", .decimal)] }

/-- `A == '1' && B == '2'` -/
def twoOfThree : Query :=
  .conj [.compareWith .eq "A" (.string "1"), .compareWith .eq "B" (.string "2")]

/-- A record with all components. -/
def fullRecord : FieldValues :=
  fun field => List.lookup field [("A", "1"), ("B", "2"), ("C", "x"), ("ABC", "1,2,x")]

/-- A record without `C`, hence without a composite value. -/
def partialRecord : FieldValues := fun field => List.lookup field [("A", "1"), ("B", "2")]

/-- The first two components are looked up, and what they were is checked. -/
theorem fold_twoOfThree :
    twoOfThree.fold threeConfig =
      .conj [.range ⟨⟨.ge, "ABC", .string "1,2"⟩, ⟨.lt, "ABC", .string "1,3"⟩⟩,
        .mark .delayed twoOfThree] := by
  rw [Query.fold, Folder.ofConfig, threeConfig, List.mergeSort_singleton]
  rfl

theorem plain_threeConfig : Folder.Plain threeConfig.composites := by
  simp [threeConfig, Folder.Plain, Mapping.isOverloaded]

theorem fits_twoOfThree :
    twoOfThree.Fits threeConfig.composites threeConfig.alphabet? (fun _ => 1) := by
  intro c hc _ _
  have hsubtrees : twoOfThree.subtrees = [twoOfThree, .compare ⟨.eq, "A", .string "1"⟩,
    .compare ⟨.eq, "B", .string "2"⟩] := rfl
  rw [hsubtrees] at hc
  simp only [twoOfThree, Query.conj, List.mem_cons, List.not_mem_nil, or_false] at hc
  -- the field of the second comparison has an alphabet, that of the first has none
  obtain hc | hc | hc := hc
  · cases hc
  · cases hc
    refine ⟨by simp [threeConfig, Literal.text, Literal.text?], ?_, ?_⟩
    · intro a ha
      cases ha
    · intro hlt
      cases hlt
  · cases hc
    refine ⟨by simp [threeConfig, Literal.text, Literal.text?], ?_, ?_⟩
    · intro a ha
      cases ha
      exact ⟨rfl, rfl⟩
    · intro hlt
      cases hlt

/-- On a record whose values are listed, it suffices to look at these. -/
theorem joinedValues_threeConfig (values : List (String × String))
    (hjoined : List.lookup "ABC" values
      = (["A", "B", "C"].mapM fun field => List.lookup field values).map (",".intercalate ·))
    (hvalues : ∀ p ∈ values, (p.1 ≠ "ABC" → ',' ∉ p.2.toList) ∧
      (p.1 = "B" → p.2.length = 1 ∧ Alphabet.decimal.isOver p.2 = true)) :
    JoinedValues threeConfig.composites threeConfig.alphabet? (fun _ => 1)
      fun field => List.lookup field values where
  joined := by
    intro m hm
    rw [List.mem_singleton.1 hm]
    exact hjoined
  separated := by
    intro m hm field hfield value hvalue
    rw [List.mem_singleton.1 hm] at hfield ⊢
    refine (hvalues _ (mem_of_lookup_eq_some hvalue)).1 ?_
    rintro rfl
    simp at hfield
  fixed := by
    intro field a value ha hvalue
    have hmem : (field, a) ∈ [("B", Alphabet.decimal)] := mem_of_lookup_eq_some ha
    cases List.mem_singleton.1 hmem
    exact (hvalues _ (mem_of_lookup_eq_some hvalue)).2 rfl

/-- The look-up of two components finds a record that has the third. -/
theorem truth_fold_fullRecord :
    Folder.Plain threeConfig.composites ∧
    JoinedValues threeConfig.composites threeConfig.alphabet? (fun _ => 1) fullRecord ∧
    twoOfThree.Fits threeConfig.composites threeConfig.alphabet? (fun _ => 1) ∧
    (Folder.ofConfig threeConfig).CompleteIn fullRecord
      ((Folder.ofConfig threeConfig).folding twoOfThree) ∧
    (Valuation.ofRecord fullRecord (fun _ => false) (fun _ => false) true).truth
      (twoOfThree.fold threeConfig) = true := by
  have hrecord := joinedValues_threeConfig [("A", "1"), ("B", "2"), ("C", "x"), ("ABC", "1,2,x")]
    rfl (by decide)
  have hcomplete : (Folder.ofConfig threeConfig).CompleteIn fullRecord
      ((Folder.ofConfig threeConfig).folding twoOfThree) := by
    intro m k hlooks _ _
    rw [List.mem_singleton.1 (Folder.mem_mappings_ofConfig.1 hlooks.mem)]
    decide
  have htrue : (Valuation.ofRecord fullRecord (fun _ => false) (fun _ => false) true).truth
      twoOfThree = true := rfl
  obtain ⟨-, h⟩ := twoOfThree.truth_fold plain_threeConfig hrecord fits_twoOfThree (fun _ => false)
    (fun _ => false)
  exact ⟨plain_threeConfig, hrecord, fits_twoOfThree, hcomplete, (h hcomplete).1.trans htrue⟩

/-- A record without the third component is lost. -/
theorem not_forall_truth_fold :
    ¬ ∀ (config : Config) (width : String → Nat) (value? : FieldValues) (q : Query)
      (pattern : Comparison → Bool) (call : Call → Bool),
      config.fault? = none → Folder.Plain config.composites →
      JoinedValues config.composites config.alphabet? width value? →
      q.Fits config.composites config.alphabet? width →
      (Valuation.ofRecord value? pattern call true).truth (q.fold config)
        = (Valuation.ofRecord value? pattern call true).truth q := by
  intro h
  have hrecord := joinedValues_threeConfig [("A", "1"), ("B", "2")] rfl (by decide)
  have heq := h threeConfig (fun _ => 1) partialRecord twoOfThree (fun _ => false) (fun _ => false)
    rfl plain_threeConfig hrecord fits_twoOfThree
  have hlost : (Valuation.ofRecord partialRecord (fun _ => false) (fun _ => false) true).truth
      (twoOfThree.fold threeConfig) = false := by
    rw [fold_twoOfThree]
    rfl
  have htrue : (Valuation.ofRecord partialRecord (fun _ => false) (fun _ => false) true).truth
      twoOfThree = true := rfl
  rw [hlost, htrue] at heq
  cases heq

end IndexQuery
