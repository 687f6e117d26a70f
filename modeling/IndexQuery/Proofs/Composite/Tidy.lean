import IndexQuery.Proofs.Composite.Fold
import IndexQuery.Proofs.Query.Tidy

/-! # Folding rebuilds trees

    Folding puts look-ups in the place of bounds and distributes bounds into disjunctions.
    Neither leaves a junction without children: where a conjunction loses one, a look-up
    takes its place.

    * `Folder.Folding.Formed`: a query beside its folded form, both of a shape.
    * `Folder.operandsOf_ne_nil`: a composed conjunction is joined from something.
    * `Query.every_fold`: a folded query has the shape of the query, if comparisons of
      composite fields have it.
-/

namespace IndexQuery

open Query (Shape)

variable {p : Query → Bool}

/-- Comparisons of composite fields with text have a shape. -/
def Mapping.Named (p : Query → Bool) (m : Mapping) : Prop :=
  ∀ op text, p (.compareWith op m.name (.string text)) = true

namespace Folder

variable {f : Folder}

/-! ## Look-ups -/

/-- What a look-up puts in the place of children. -/
theorem every_lookup (hp : Shape p) {m : Mapping} (hm : m.Named p) {consumed : List Query}
    (hne : consumed ≠ []) (hconsumed : ∀ q ∈ consumed, q.Every p) (term : CompositeTerm) :
    lookup m consumed term ≠ [] ∧ ∀ q ∈ lookup m consumed term, q.Every p := by
  cases term with
  | exact value =>
    refine ⟨List.cons_ne_nil _ _, List.forall_mem_singleton.2 ?_⟩
    exact (Query.every_leaf rfl).2 (hm .eq value)
  | range lower upper =>
    refine ⟨List.cons_ne_nil _ _, List.forall_mem_cons.2 ⟨?_, List.forall_mem_singleton.2 ?_⟩⟩
    · exact hp.every_range (hm lower.op lower.value) (hm upper.op upper.value)
    · exact hp.every_mark (by decide) (hp.join hne hconsumed)

/-- The folding of a conjunction so far: every look-up stands at the place of a child, and
    something is consumed only for a look-up. -/
structure Progress.Formed (p : Query → Bool) (children : List Query) (progress : Progress) :
    Prop where
  place : ∀ e ∈ progress.lookups, e.1 < children.length
  filled : ∀ e ∈ progress.lookups, e.2 ≠ []
  every : ∀ e ∈ progress.lookups, ∀ q ∈ e.2, q.Every p
  consumed : progress.consumed ≠ [] → progress.lookups ≠ []

theorem formed_empty (children : List Query) : Progress.Formed p children {} where
  place := by simp
  filled := by simp
  every := by simp
  consumed := by simp

theorem Progress.Formed.foldMapping (hp : Shape p) {children : List Query}
    (hchildren : ∀ q ∈ children, q.Every p) {progress : Progress}
    (h : progress.Formed p children) {m : Mapping} (hm : m.Named p) :
    (f.foldMapping children progress m).Formed p children := by
  rcases foldMapping_cases f children progress m with
    heq | ⟨term, first, others, -, -, hplaces, heq⟩
  · rw [heq]
    exact h
  · rw [heq]
    have hfirst : first < children.length := by
      have hmem : first ∈ first :: others := List.mem_cons_self
      rw [← hplaces] at hmem
      exact (mem_placesOf.1 hmem).1
    -- the first of the places is that of a child, so that something is looked up
    have hne : (first :: others).filterMap (children[·]?) ≠ [] :=
      List.ne_nil_of_mem (List.mem_filterMap.2
        ⟨first, List.mem_cons_self, List.getElem?_eq_getElem hfirst⟩)
    have hconsumed : ∀ q ∈ (first :: others).filterMap (children[·]?), q.Every p := by
      intro q hq
      obtain ⟨i, -, hi⟩ := List.mem_filterMap.1 hq
      exact hchildren q (List.mem_of_getElem? hi)
    have hlookup := every_lookup hp hm hne hconsumed term
    constructor
    · exact List.forall_mem_cons.2 ⟨hfirst, h.place⟩
    · exact List.forall_mem_cons.2 ⟨hlookup.1, h.filled⟩
    · exact List.forall_mem_cons.2 ⟨hlookup.2, h.every⟩
    · exact fun _ => List.cons_ne_nil _ _

theorem formed_foldMappings (hp : Shape p) (hnamed : ∀ m ∈ f.mappings, m.Named p)
    {children : List Query} (hchildren : ∀ q ∈ children, q.Every p) :
    (f.foldMappings children).Formed p children := by
  -- each field in turn keeps what holds of the progress
  refine List.foldlRecOn f.mappings _ (formed_empty children) ?_
  intro progress h m hm
  exact h.foldMapping hp hchildren (hnamed m hm)

/-! ## Composed conjunctions -/

/-- A composed conjunction has operands: where a child is consumed there is a look-up. -/
theorem operandsOf_ne_nil {children : List Folding} (hne : children ≠ [])
    (h : (f.foldMappings (children.map Folding.source)).Formed p (children.map Folding.source)) :
    f.operandsOf children ≠ [] := by
  obtain ⟨child, hchild⟩ := List.exists_mem_of_ne_nil _ hne
  obtain ⟨i, hi⟩ := List.mem_iff_getElem?.1 hchild
  by_cases hconsumed : i ∈ (f.foldMappings (children.map Folding.source)).consumed
  · -- something is consumed, so there is a look-up, at the place of some child
    obtain ⟨⟨k, queries⟩, hentry⟩ :=
      List.exists_mem_of_ne_nil _ (h.consumed (List.ne_nil_of_mem hconsumed))
    have hk := h.place _ hentry
    rw [List.length_map] at hk
    -- another look-up at the same place would do as well
    cases hlookup : (f.foldMappings (children.map Folding.source)).lookups.lookup k with
    | none =>
      rw [List.lookup_eq_none_iff] at hlookup
      simpa using hlookup _ hentry
    | some queries' =>
      obtain ⟨q, hq⟩ := List.exists_mem_of_ne_nil _ (h.filled _ (mem_of_lookup_eq_some hlookup))
      exact List.ne_nil_of_mem
        (mem_operandsOf.2 ⟨k, _, List.getElem?_eq_getElem hk, .inl ⟨queries', hlookup, hq⟩⟩)
  · exact List.ne_nil_of_mem (mem_operandsOf.2 ⟨i, child, hi, .inr ⟨hconsumed, rfl⟩⟩)

theorem every_compose (hp : Shape p) (hnamed : ∀ m ∈ f.mappings, m.Named p)
    {children : List Folding} (hne : children ≠ [])
    (hsource : ∀ c ∈ children, c.source.Every p) (hfolded : ∀ c ∈ children, c.folded.Every p) :
    (f.compose children).1.Every p := by
  have hformed := formed_foldMappings (f := f) hp hnamed (List.forall_mem_map.2 hsource)
  rw [fst_compose]
  refine hp.join (operandsOf_ne_nil hne hformed) ?_
  intro q hq
  obtain ⟨i, child, hchild, ⟨queries, hqueries, hq⟩ | ⟨-, rfl⟩⟩ := mem_operandsOf.1 hq
  · exact hformed.every _ (mem_of_lookup_eq_some hqueries) q hq
  · exact hfolded child (List.mem_of_getElem? hchild)

/-! ## Widened comparisons -/

theorem stepPast_eq_some {a : Alphabet} {c c' : Comparison} (h : stepPast a c = some c') :
    ∃ op text, c' = ⟨op, c.field, .string text⟩ := by
  have hmoved : ∀ op, (do
      let value ← c.literal.text?
      let next ← a.increment value
      return (⟨op, c.field, .string next⟩ : Comparison)) = some c' →
      ∃ op text, c' = ⟨op, c.field, .string text⟩ := by
    intro op h
    simp only [Option.bind_eq_bind, Option.bind_eq_some_iff, Option.pure_def,
      Option.some.injEq] at h
    obtain ⟨-, -, next, -, rfl⟩ := h
    exact ⟨op, next, rfl⟩
  unfold stepPast at h
  dsimp only at h
  split at h
  · exact hmoved _ h
  · exact hmoved _ h
  · cases h

theorem every_stepPast (hp : Shape p) {a : Alphabet} {c c' : Comparison}
    (h : p (.compare c) = true) (hstep : stepPast a c = some c') : p (.compare c') = true := by
  obtain ⟨op, text, rfl⟩ := stepPast_eq_some hstep
  exact hp.value h op text

theorem every_widenComparison (hp : Shape p) {a : Alphabet} {c : Comparison} {q : Query}
    (h : p (.compare c) = true) (hwiden : widenComparison a c = some q) : q.Every p := by
  unfold widenComparison at hwiden
  split at hwiden
  · simp only [Option.bind_eq_bind, Option.bind_eq_some_iff, Option.pure_def,
      Option.some.injEq] at hwiden
    obtain ⟨-, -, next, -, rfl⟩ := hwiden
    exact hp.every_range (hp.operator h .ge) (hp.value h .lt next)
  · obtain ⟨c', hc', rfl⟩ := Option.map_eq_some_iff.1 hwiden
    exact (Query.every_leaf rfl).2 (every_stepPast hp h hc')

theorem every_widenRange (hp : Shape p) {a : Alphabet} {b : Bounds} {q : Query}
    (hlower : p (.compare b.lower) = true) (hupper : p (.compare b.upper) = true)
    (hwiden : widenRange a b = some q) : q.Every p := by
  have hbound : ∀ c : Comparison, p (.compare c) = true →
      p (.compare ((stepPast a c).getD c)) = true := by
    intro c hc
    cases hstep : stepPast a c with
    | none => exact hc
    | some c' => exact every_stepPast hp hc hstep
  unfold widenRange at hwiden
  split at hwiden
  · cases hwiden
  · cases hwiden
    exact hp.every_range (hbound _ hlower) (hbound _ hupper)

theorem every_widen (hp : Shape p) {q : Query} (h : q.Every p) : (f.widen q).Every p := by
  unfold widen
  dsimp only
  split
  · rename_i b hb
    obtain ⟨hlower, hupper⟩ := Query.mem_subtrees_of_bounds? hb
    cases halphabet : f.overloadedAlphabet? b.field with
    | none => exact h
    | some a =>
      cases hwiden : widenRange a b with
      | none => simpa [hwiden] using h
      | some q' =>
        simpa [hwiden] using every_widenRange hp (h _ hlower) (h _ hupper) hwiden
  · cases q with
    | compare c =>
      cases halphabet : f.overloadedAlphabet? c.field with
      | none => simpa [Query.comparison?, halphabet] using h
      | some a =>
        cases hwiden : widenComparison a c with
        | none => simpa [Query.comparison?, halphabet, hwiden] using h
        | some q' =>
          have hc := (Query.every_leaf rfl).1 h
          simpa [Query.comparison?, halphabet, hwiden] using every_widenComparison hp hc hwiden
    | junction kind cs | not c | call c | group c | marked m note c => exact h

/-! ## Trees -/

/-- A query beside its folded form, both of a shape, with children of which the same holds. -/
inductive Folding.Formed (p : Query → Bool) : Folding → Prop where
  | mk {source folded : Query} {parts : List Folding} (hsource : source.Every p)
      (hfolded : folded.Every p) (hparts : parts.map Folding.source = source.children)
      (hall : ∀ part ∈ parts, part.Formed p) : Folding.Formed p (.mk source folded parts)

namespace Folding.Formed

variable {F : Folding}

theorem source (h : F.Formed p) : F.source.Every p := by
  cases h
  assumption

theorem folded (h : F.Formed p) : F.folded.Every p := by
  cases h
  assumption

/-- There are no groups to look into. -/
theorem ungrouped (hp : Shape p) (h : F.Formed p) : F.ungrouped = F := by
  fun_cases Folding.ungrouped F with
  | case1 child folded part => exact (hp.not_every_group h.source).elim
  | case2 => rfl

/-- A disjunction has operands, and they have the shape. -/
theorem disjuncts (hp : Shape p) (h : F.Formed p) {disjuncts : List Folding}
    (hdisjuncts : F.disjuncts? = some disjuncts) :
    disjuncts ≠ [] ∧ ∀ d ∈ disjuncts, d.Formed p := by
  rw [Folding.disjuncts?, h.ungrouped hp] at hdisjuncts
  split at hdisjuncts
  · cases hdisjuncts
    cases h with
    | mk hsource _ hparts hall =>
      refine ⟨?_, hall⟩
      rintro rfl
      have hlength := (hp.of_junction hsource).1
      simp only [Query.children, List.map_nil] at hparts
      simp [← hparts] at hlength
  · cases hdisjuncts

theorem conjuncts (hp : Shape p) (h : F.Formed p) : ∀ c ∈ F.conjuncts, c.Formed p := by
  rw [Folding.conjuncts, h.ungrouped hp]
  split
  · cases h with
    | mk _ _ _ hall => exact hall
  · exact List.forall_mem_singleton.2 h

end Folding.Formed

/-! ## Distribution -/

variable (hp : Shape p) (hnamed : ∀ m ∈ f.mappings, m.Named p)

include hp hnamed

theorem every_distributeInto {anchors disjuncts : List Folding} {q : Query}
    (hanchors : ∀ c ∈ anchors, c.Formed p) (hne : anchors ≠ [])
    (hdisjuncts : ∀ d ∈ disjuncts, d.Formed p) (hsome : disjuncts ≠ [])
    (h : f.distributeInto anchors disjuncts = some q) : q.Every p := by
  unfold distributeInto at h
  dsimp only at h
  split at h
  · cases h
    refine hp.join ?_ ?_
    · simpa using hsome
    · rw [List.map_map, List.forall_mem_map]
      intro d hd
      have hparts : ∀ c ∈ anchors ++ d.conjuncts, c.Formed p := by
        intro c hc
        rcases List.mem_append.1 hc with hc | hc
        · exact hanchors c hc
        · exact (hdisjuncts d hd).conjuncts hp c hc
      exact every_compose hp hnamed (List.append_ne_nil_of_left_ne_nil hne _)
        (fun c hc => (hparts c hc).source) fun c hc => (hparts c hc).folded
  · cases h

theorem every_distributeAt {children : List Folding} {i : Nat} {child : Folding} {q : Query}
    (hchildren : ∀ c ∈ children, c.Formed p) (hchild : children[i]? = some child)
    (h : f.distributeAt children i child = some q) : q.Every p := by
  obtain ⟨disjuncts, distributed, operands, hdisjuncts, hne, hinto, rfl, hmem⟩ :=
    exists_operands_of_distributeAt hchild h
  have hformed := hchildren child (List.mem_of_getElem? hchild)
  obtain ⟨hsome, hall⟩ := hformed.disjuncts hp hdisjuncts
  have hanchors : ∀ c ∈ anchorsOf f children i, c.Formed p := by
    intro c hc
    obtain ⟨j, hj, -, -⟩ := mem_anchorsOf.1 hc
    exact hchildren c (List.mem_of_getElem? hj)
  have hdistributed : distributed.Every p :=
    every_distributeInto hp hnamed hanchors hne hall hsome hinto
  refine hp.join (List.ne_nil_of_mem ((hmem _).2 (.inl rfl))) ?_
  intro o ho
  obtain rfl | ⟨j, c, hc, -, -, rfl⟩ := (hmem o).1 ho
  · exact hdistributed
  · exact (hchildren c (List.mem_of_getElem? hc)).folded

theorem every_foldConjunction {children : List Folding} (hne : children ≠ [])
    (hchildren : ∀ c ∈ children, c.Formed p) : (f.foldConjunction children).Every p := by
  unfold foldConjunction
  cases hdistribute : f.distribute children with
  | none =>
    exact every_compose hp hnamed hne (fun c hc => (hchildren c hc).source)
      fun c hc => (hchildren c hc).folded
  | some q =>
    unfold distribute at hdistribute
    obtain ⟨⟨child, i⟩, hmem, hq⟩ := List.exists_of_findSome?_eq_some hdistribute
    exact every_distributeAt hp hnamed hchildren (List.mem_zipIdx_iff_getElem?.1 hmem) hq

/-! ## Queries -/

/-- Folding keeps a shape. -/
theorem formed_folding (q : Query) (h : q.Every p) : (f.folding q).Formed p := by
  induction q using Query.induction with
  | junction kind cs ih =>
    have hparts : ∀ part ∈ f.foldings cs, part.Formed p := by
      rw [foldings_eq_map, List.forall_mem_map]
      exact fun c hc => ih c hc (h.of_mem_children hc)
    have hne : f.foldings cs ≠ [] := by
      rw [foldings_eq_map, ne_eq, List.map_eq_nil_iff]
      exact hp.children_ne_nil h
    cases kind with
    | and =>
      rw [folding]
      exact .mk h (every_foldConjunction hp hnamed hne hparts) (map_source_foldings cs) hparts
    | or =>
      rw [folding]
      refine .mk h (hp.join ?_ ?_) (map_source_foldings cs) hparts
      · simpa using hne
      · exact List.forall_mem_map.2 fun part hpart => (hparts part hpart).folded
  | group c _ => exact (hp.not_every_group h).elim
  | not c ih =>
    have hpart := ih (h.of_mem_children List.mem_cons_self)
    rw [folding]
    exact .mk h h (by simp [Query.children]) (by simpa using hpart)
  | compare c =>
    rw [folding]
    exact .mk h (every_widen hp h) (by simp [Query.children]) (by simp)
  | call c =>
    rw [folding]
    exact .mk h h (by simp [Query.children]) (by simp)
  | marked m note c ih =>
    have hpart := ih (h.of_mem_children List.mem_cons_self)
    obtain ⟨folded, hfolding, hfolded⟩ := f.folding_marked m note c
    rw [hfolding]
    refine .mk h ?_ (by simp [Query.children]) (by simpa using hpart)
    rcases hfolded with rfl | ⟨hmarker, rfl⟩ | rfl
    · exact every_widen hp h
    · exact hp.every_remark (ne_of_entersMarker hmarker).1 h hpart.folded
    · exact h

end Folder

theorem Query.every_fold (hp : Shape p) {q : Query} (h : q.Every p) {config : Config}
    (hnamed : ∀ m ∈ config.composites, m.Named p) : (q.fold config).Every p := by
  unfold Query.fold
  dsimp only
  split
  · exact h
  · have hmappings : ∀ m ∈ (Folder.ofConfig config).mappings, m.Named p :=
      fun m hm => hnamed m (Folder.mem_mappings_ofConfig.1 hm)
    exact (Folder.formed_folding hp hmappings q h).folded

end IndexQuery
