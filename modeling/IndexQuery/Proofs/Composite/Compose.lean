import IndexQuery.Proofs.Composite.Lookup

/-! # Conjunctions with look-ups

    The composite fields of a configuration take bounds of a conjunction one after
    the other. No bound is lost and none is taken twice, so the conjunction of the
    look-ups and of what is left is as true as the one of all children.

    * `Folder.Takes`: which composite fields take bounds, and on how many components.
    * `Folder.Progress.Sound`: what each composite field preserves.
    * `Folder.sound_foldMappings`: it holds after all of them.
    * `Folder.truth_compose`: the composed conjunction.
-/

namespace IndexQuery.Folder

variable {f : Folder} {width : String → Nat} {value? : FieldValues}
  {pattern : Comparison → Bool} {call : Call → Bool} {checks : Bool}
  {children : List Query} {p : Progress} {m : Mapping}

/-! ## One composite field -/

/-- The places that candidates come from, in ascending order. -/
def placesOf (children : List Query) (candidates : List Candidate) : List Nat :=
  (List.range children.length).filter fun i => candidates.any (·.places.contains i)

theorem mem_placesOf {candidates : List Candidate} {i : Nat} :
    i ∈ placesOf children candidates ↔ i < children.length ∧ ∃ c ∈ candidates, i ∈ c.places := by
  simp [placesOf]

/-- The children that candidates come from stand at the places. -/
theorem mem_filterMap_placesOf {candidates : List Candidate} {c : Candidate} (hc : c ∈ candidates)
    {i : Nat} (hi : i ∈ c.places) {child : Query} (hchild : children[i]? = some child) :
    child ∈ (placesOf children candidates).filterMap (children[·]?) := by
  have hlt : i < children.length := (List.getElem?_eq_some_iff.1 hchild).1
  exact List.mem_filterMap.2 ⟨i, mem_placesOf.2 ⟨hlt, c, hc, hi⟩, hchild⟩

/-- A composite field takes nothing, or it takes the bounds on its components in front. -/
theorem foldMapping_cases (f : Folder) (children : List Query) (p : Progress) (m : Mapping) :
    f.foldMapping children p m = p ∨
      ∃ term first others,
        2 ≤ (leadingCandidates children p.consumed m.components).length ∧
        CompositeTerm.ofBounds m
          ((leadingCandidates children p.consumed m.components).map fun c => some c.bound)
          f.alphabets (m.reachesLegacy f.beginDate) = .ok term ∧
        placesOf children (leadingCandidates children p.consumed m.components) = first :: others ∧
        f.foldMapping children p m =
          { consumed := p.consumed ++ first :: others
            lookups := (first, lookup m ((first :: others).filterMap (children[·]?)) term) ::
              p.lookups } := by
  unfold foldMapping
  dsimp only
  split
  · exact .inl rfl
  · rename_i hlen
    split
    · exact .inl rfl
    · rename_i term hterm
      split
      · exact .inl rfl
      · rename_i first others hplaces
        refine .inr ⟨term, first, others, by omega, hterm, hplaces, ?_⟩
        rw [← hplaces]

/-- A composite field takes the bounds on its first `k` components, when it is its turn. -/
def Takes (f : Folder) (children : List Query) (m : Mapping) (k : Nat) : Prop :=
  ∃ before after, f.mappings = before ++ m :: after ∧
    let p := before.foldl (f.foldMapping children) {}
    f.foldMapping children p m ≠ p ∧
      (leadingCandidates children p.consumed m.components).length = k

theorem Takes.mem {k : Nat} (h : f.Takes children m k) : m ∈ f.mappings := by
  obtain ⟨before, after, hmappings, -⟩ := h
  rw [hmappings]
  exact List.mem_append_right _ List.mem_cons_self

/-- A record that has all components of a composite field that takes bounds on some of
    them, or not even those that they are on. -/
def CompleteOn (f : Folder) (value? : FieldValues) (children : List Query) : Prop :=
  ∀ m k, f.Takes children m k → k < m.components.length → Complete value? m k

theorem CompleteOn.complete {k : Nat} (h : f.CompleteOn value? children)
    (htakes : f.Takes children m k) : Complete value? m k := by
  rcases Nat.lt_or_ge k m.components.length with hlt | hge
  · exact h m k htakes hlt
  · exact complete_of_length_le hge

/-! ## What is preserved -/

/-- The folding of a conjunction so far, on a record. Every look-up has a place of its
    own among the consumed children, it is true where all children are, if the record is
    complete, and whatever was consumed follows from one of the look-ups. -/
structure Progress.Sound (complete : Prop) (value? : FieldValues)
    (pattern : Comparison → Bool) (call : Call → Bool) (checks : Bool) (children : List Query)
    (p : Progress) : Prop where
  keys_nodup : (p.lookups.map Prod.fst).Nodup
  keys_consumed : ∀ e ∈ p.lookups, e.1 ∈ p.consumed
  consumed_lt : ∀ i ∈ p.consumed, i < children.length
  found : complete →
    children.all (Valuation.ofRecord value? pattern call checks).truth = true →
    ∀ e ∈ p.lookups, e.2.all (Valuation.ofRecord value? pattern call checks).truth = true
  kept : checks = true → ∀ i ∈ p.consumed, ∃ e ∈ p.lookups,
    e.2.all (Valuation.ofRecord value? pattern call checks).truth = true →
    ∀ child, children[i]? = some child →
      (Valuation.ofRecord value? pattern call checks).truth child = true

theorem sound_empty (complete : Prop) :
    Progress.Sound complete value? pattern call checks children {} where
  keys_nodup := by simp
  keys_consumed := by simp
  consumed_lt := by simp
  found := by simp
  kept := by simp

/-- The composite fields are no first components of themselves, and all records have
    their values. -/
def Plain (mappings : List Mapping) : Prop :=
  ∀ m ∈ mappings, m.isOverloaded = false ∧ m.transition = none

theorem reachesLegacy_of_plain {mappings : List Mapping} (hplain : Plain mappings)
    (hm : m ∈ mappings) (start : Option Instant) : m.reachesLegacy start = false := by
  obtain ⟨-, htransition⟩ := hplain m hm
  simp only [Mapping.reachesLegacy, htransition]

section

variable (hrecord : JoinedValues f.mappings f.alphabets width value?)
  (hfits : ∀ child ∈ children, child.Fits f.mappings f.alphabets width) (hm : m ∈ f.mappings)
  {front rest : List String} {candidates : List Candidate} (hcomponents : m.components = front ++ rest)
  (hleading : Leading children front candidates) {term : CompositeTerm}
  (hterm : CompositeTerm.ofBounds m (candidates.map fun c => some c.bound) f.alphabets false
    = .ok term)

include hrecord hfits hm hcomponents hleading hterm

/-- The look-up of a composite field is true where all children are. -/
theorem all_lookup_placesOf (hcomplete : Complete value? m candidates.length)
    (hall : children.all (Valuation.ofRecord value? pattern call checks).truth = true) :
    (lookup m ((placesOf children candidates).filterMap (children[·]?)) term).all
      (Valuation.ofRecord value? pattern call checks).truth = true := by
  rw [List.all_eq_true] at hall
  have htrue : AllTrue (.ofRecord value? pattern call checks) children candidates := by
    intro c _ i _ child hchild
    exact hall child (List.mem_of_getElem? hchild)
  obtain ⟨joined, hvalue, hadmits⟩ :=
    exists_joined hrecord hfits hm hcomplete hcomponents hleading hterm htrue
  apply all_lookup hvalue hadmits
  rw [List.all_eq_true]
  intro q hq
  obtain ⟨i, -, hi⟩ := List.mem_filterMap.1 hq
  exact hall q (List.mem_of_getElem? hi)

/-- The children that a composite field takes are true where its look-up is. -/
theorem truth_of_all_lookup_placesOf (hlen : 2 ≤ candidates.length)
    (hlookup : (lookup m ((placesOf children candidates).filterMap (children[·]?)) term).all
      (Valuation.ofRecord value? pattern call true).truth = true)
    {i : Nat} (hi : i ∈ placesOf children candidates) {child : Query}
    (hchild : children[i]? = some child) :
    (Valuation.ofRecord value? pattern call true).truth child = true := by
  have htrue : AllTrue (.ofRecord value? pattern call true) children candidates :=
    allTrue_of_all_lookup hrecord hfits hm hcomponents hleading hlen hterm
      (fun c hc j hj child => mem_filterMap_placesOf hc hj) hlookup
  obtain ⟨-, c, hc, hplace⟩ := mem_placesOf.1 hi
  exact htrue c hc i hplace child hchild

end

/-- A composite field preserves soundness, if the record is complete for what it takes. -/
theorem Progress.Sound.foldMapping {complete : Prop} (hplain : Plain f.mappings)
    (hrecord : JoinedValues f.mappings f.alphabets width value?)
    (hfits : ∀ child ∈ children, child.Fits f.mappings f.alphabets width) (hm : m ∈ f.mappings)
    (hcomplete : f.foldMapping children p m ≠ p → complete →
      Complete value? m (leadingCandidates children p.consumed m.components).length)
    (hp : p.Sound complete value? pattern call checks children) :
    (f.foldMapping children p m).Sound complete value? pattern call checks children := by
  rcases foldMapping_cases f children p m with
    heq | ⟨term, first, others, hlen, hterm, hplaces, heq⟩
  · rw [heq]
    exact hp
  · have htaken : f.foldMapping children p m ≠ p := by
      intro hsame
      have hlength := congrArg (·.lookups.length) (heq.symm.trans hsame)
      simp at hlength
    have hcomplete := hcomplete htaken
    rw [heq]
    rw [reachesLegacy_of_plain hplain hm] at hterm
    obtain ⟨front, rest, hcomponents, hleading, hfree⟩ :=
      leading_leadingCandidates children p.consumed m.components
    have hmem : ∀ i, i ∈ first :: others ↔ i < children.length ∧
        ∃ c ∈ leadingCandidates children p.consumed m.components, i ∈ c.places := by
      intro i
      rw [← hplaces, mem_placesOf]
    constructor
    · -- the key of the look-up is new: what was consumed before is no longer in front
      rw [List.map_cons, List.nodup_cons]
      refine ⟨?_, hp.keys_nodup⟩
      intro hfirst
      obtain ⟨e, he, hkey⟩ := List.mem_map.1 hfirst
      obtain ⟨-, c, hc, hi⟩ := (hmem first).1 List.mem_cons_self
      have hconsumed := hp.keys_consumed e he
      rw [hkey] at hconsumed
      exact hfree c hc first hi hconsumed
    · intro e he
      rcases List.mem_cons.1 he with rfl | he
      · exact List.mem_append_right _ List.mem_cons_self
      · exact List.mem_append_left _ (hp.keys_consumed e he)
    · intro i hi
      rcases List.mem_append.1 hi with hi | hi
      · exact hp.consumed_lt i hi
      · exact ((hmem i).1 hi).1
    · intro hgiven hall e he
      rcases List.mem_cons.1 he with rfl | he
      · rw [← hplaces]
        exact all_lookup_placesOf hrecord hfits hm hcomponents hleading hterm (hcomplete hgiven)
          hall
      · exact hp.found hgiven hall e he
    · intro hchecks i hi
      rcases List.mem_append.1 hi with hi | hi
      · obtain ⟨e, he, hkept⟩ := hp.kept hchecks i hi
        exact ⟨e, List.mem_cons_of_mem _ he, hkept⟩
      · -- what the new look-up consumes follows from that look-up alone
        subst hchecks
        refine ⟨_, List.mem_cons_self, ?_⟩
        intro hlookup child hchild
        rw [← hplaces] at hlookup hi
        exact truth_of_all_lookup_placesOf hrecord hfits hm hcomponents hleading hterm hlen
          hlookup hi hchild

/-- All composite fields together preserve soundness. -/
theorem sound_foldMappings (hplain : Plain f.mappings)
    (hrecord : JoinedValues f.mappings f.alphabets width value?)
    (hfits : ∀ child ∈ children, child.Fits f.mappings f.alphabets width) :
    (f.foldMappings children).Sound (f.CompleteOn value? children) value? pattern call checks
      children := by
  -- each field in turn keeps what holds of the progress after those before it
  have hturns : ∀ after before, f.mappings = before ++ after →
      (before.foldl (f.foldMapping children) {}).Sound (f.CompleteOn value? children) value?
        pattern call checks children →
      (f.foldMappings children).Sound (f.CompleteOn value? children) value? pattern call checks
        children := by
    intro after
    induction after with
    | nil =>
      intro before hmappings hbefore
      rwa [foldMappings, hmappings, List.append_nil]
    | cons m after ih =>
      intro before hmappings hbefore
      apply ih (before ++ [m]) (by rw [hmappings, List.append_assoc, List.singleton_append])
      rw [List.foldl_append]
      have hm : m ∈ f.mappings := by
        rw [hmappings]
        exact List.mem_append_right _ List.mem_cons_self
      refine hbefore.foldMapping hplain hrecord hfits hm ?_
      exact fun htaken hcomplete => hcomplete.complete ⟨before, after, hmappings, htaken, rfl⟩
  exact hturns f.mappings [] rfl (sound_empty _)

/-! ## The composed conjunction -/

/-- What one truth owes to another: the truth after a rewriting follows from that before
    it or, when going back, the other way round. -/
def Follows (back before after : Bool) : Prop :=
  if back then after = true → before = true else before = true → after = true

theorem follows_rfl (back b : Bool) : Follows back b b := by
  cases back <;> simp [Follows]

theorem Follows.any {α : Type} {back : Bool} {before after : α → Bool} {items : List α}
    (h : ∀ a ∈ items, Follows back (before a) (after a)) :
    Follows back (items.any before) (items.any after) := by
  cases back with
  | false =>
    intro hany
    obtain ⟨a, ha, htrue⟩ := List.any_eq_true.1 hany
    exact List.any_eq_true.2 ⟨a, ha, h a ha htrue⟩
  | true =>
    intro hany
    obtain ⟨a, ha, htrue⟩ := List.any_eq_true.1 hany
    exact List.any_eq_true.2 ⟨a, ha, h a ha htrue⟩

/-- What the direction needs: forwards, that the record is complete for the look-ups;
    backwards, that what is delayed is checked. -/
def Direction (back : Bool) (complete : Prop) (checks : Bool) : Prop :=
  if back then checks = true else complete

theorem Direction.imp {back : Bool} {complete complete' : Prop}
    (h : Direction back complete checks) (himp : complete → complete') :
    Direction back complete' checks := by
  cases back with
  | true => exact h
  | false => exact himp h

/-- What a composed conjunction is joined from. -/
def operandsOf (f : Folder) (children : List Folding) : List Query :=
  let progress := f.foldMappings (children.map Folding.source)
  children.zipIdx.flatMap fun (child, i) =>
    (progress.lookups.lookup i).getD [] ++
      if progress.consumed.contains i then [] else [child.folded]

theorem fst_compose (f : Folder) (children : List Folding) :
    (f.compose children).1 = .conj (f.operandsOf children) := rfl

theorem mem_operandsOf {children : List Folding} {q : Query} :
    q ∈ f.operandsOf children ↔ ∃ i child, children[i]? = some child ∧
      ((∃ queries, (f.foldMappings (children.map Folding.source)).lookups.lookup i = some queries ∧
          q ∈ queries) ∨
        i ∉ (f.foldMappings (children.map Folding.source)).consumed ∧ q = child.folded) := by
  unfold operandsOf
  rw [List.mem_flatMap]
  constructor
  · rintro ⟨⟨child, i⟩, hchild, hq⟩
    refine ⟨i, child, List.mem_zipIdx_iff_getElem?.1 hchild, ?_⟩
    rcases List.mem_append.1 hq with hq | hq
    · left
      cases hqueries : (f.foldMappings (children.map Folding.source)).lookups.lookup i with
      | none => simp [hqueries] at hq
      | some queries => exact ⟨queries, rfl, by simpa [hqueries] using hq⟩
    · right
      by_cases hi : i ∈ (f.foldMappings (children.map Folding.source)).consumed
      · simp [hi] at hq
      · exact ⟨hi, by simpa [hi] using hq⟩
  · rintro ⟨i, child, hchild, hq⟩
    refine ⟨(child, i), List.mem_zipIdx_iff_getElem?.2 hchild, ?_⟩
    rcases hq with ⟨queries, hqueries, hq⟩ | ⟨hi, rfl⟩
    · exact List.mem_append_left _ (by simpa [hqueries] using hq)
    · exact List.mem_append_right _ (by simp [hi])

/-- The composed conjunction is true when the look-ups are, and the children that were
    not consumed. -/
theorem truth_compose_iff (v : Valuation) (children : List Folding) :
    v.truth (f.compose children).1 = true ↔
      ∀ i child, children[i]? = some child →
        (∀ queries, (f.foldMappings (children.map Folding.source)).lookups.lookup i = some queries →
          queries.all v.truth = true) ∧
        (i ∉ (f.foldMappings (children.map Folding.source)).consumed →
          v.truth child.folded = true) := by
  rw [fst_compose, Valuation.truth_conj, List.all_eq_true]
  constructor
  · intro h i child hchild
    constructor
    · intro queries hqueries
      rw [List.all_eq_true]
      exact fun q hq => h q (mem_operandsOf.2 ⟨i, child, hchild, .inl ⟨queries, hqueries, hq⟩⟩)
    · exact fun hi => h _ (mem_operandsOf.2 ⟨i, child, hchild, .inr ⟨hi, rfl⟩⟩)
  · intro h q hq
    obtain ⟨i, child, hchild, ⟨queries, hqueries, hq⟩ | ⟨hi, rfl⟩⟩ := mem_operandsOf.1 hq
    · exact List.all_eq_true.1 ((h i child hchild).1 queries hqueries) q hq
    · exact (h i child hchild).2 hi

/-- A composed conjunction is as true as its children, in either direction. -/
theorem truth_compose {back : Bool} (hplain : Plain f.mappings)
    (hrecord : JoinedValues f.mappings f.alphabets width value?) {children : List Folding}
    (hdirection : Direction back (f.CompleteOn value? (children.map Folding.source)) checks)
    (hfits : ∀ c ∈ children, c.source.Fits f.mappings f.alphabets width)
    (hfolded : ∀ c ∈ children,
      Follows back ((Valuation.ofRecord value? pattern call checks).truth c.source)
        ((Valuation.ofRecord value? pattern call checks).truth c.folded)) :
    Follows back (children.all fun c => (Valuation.ofRecord value? pattern call checks).truth c.source)
      ((Valuation.ofRecord value? pattern call checks).truth (f.compose children).1) := by
  have hsound : (f.foldMappings (children.map Folding.source)).Sound
      (f.CompleteOn value? (children.map Folding.source)) value? pattern call checks
      (children.map Folding.source) :=
    sound_foldMappings hplain hrecord (List.forall_mem_map.2 hfits)
  cases back with
  | false =>
    -- all children are true, hence every look-up and every child that is left
    intro hall
    rw [truth_compose_iff]
    intro i child hchild
    have hmem := List.mem_of_getElem? hchild
    constructor
    · intro queries hqueries
      exact hsound.found hdirection (by simpa using hall) _ (mem_of_lookup_eq_some hqueries)
    · intro _
      exact hfolded child hmem (List.all_eq_true.1 hall child hmem)
  | true =>
    intro htrue
    rw [truth_compose_iff] at htrue
    rw [List.all_eq_true]
    intro child hmem
    obtain ⟨i, hchild⟩ := List.mem_iff_getElem?.1 hmem
    by_cases hi : i ∈ (f.foldMappings (children.map Folding.source)).consumed
    · -- it was consumed: some look-up that it follows from stands at a place of its own
      obtain ⟨⟨k, queries⟩, he, hkept⟩ := hsound.kept hdirection i hi
      have hk := hsound.consumed_lt k (hsound.keys_consumed _ he)
      rw [List.length_map] at hk
      have hqueries := (htrue k children[k] (List.getElem?_eq_getElem hk)).1 queries
        ((lookup_eq_some_iff_mem hsound.keys_nodup).2 he)
      exact hkept hqueries child.source (by rw [List.getElem?_map, hchild]; rfl)
    · exact hfolded child hmem ((htrue i child hchild).2 hi)

end IndexQuery.Folder
