import IndexQuery.Proofs.Composite.Compose

/-! # Which look-ups folding makes

    A conjunction is folded as a whole, or its component bounds are distributed into one
    of its children and folded with each of the disjuncts. Every look-up of a folded
    query comes from a conjunction that was composed in this way.

    * `Folder.foldConjunction_cases`: what a conjunction is folded to.
    * `Folder.LooksUp`: the look-ups in a folded query, with the number of the components
      that they bound.
    * `Folder.CompleteIn`: a record that has all components of a look-up or lacks one of
      those that it bounds.
-/

namespace IndexQuery.Folder

variable {f : Folder} {value? : FieldValues} {m : Mapping} {k : Nat}

/-! ## Distribution -/

/-- The component bounds of a conjunction beside its child at place `i`. -/
def anchorsOf (f : Folder) (children : List Folding) (i : Nat) : List Folding :=
  (children.zipIdx.filter fun (c, j) => j != i && f.isComponentBound c.source).map (·.1)

theorem mem_anchorsOf {children : List Folding} {i : Nat} {c : Folding} :
    c ∈ anchorsOf f children i ↔
      ∃ j, children[j]? = some c ∧ j ≠ i ∧ f.isComponentBound c.source = true := by
  simp [anchorsOf, List.mem_zipIdx_iff_getElem?]

/-- What takes the place of a conjunction is joined from the distributed child and those
    children that are neither distributed nor an anchor, of which there is at least one. -/
theorem exists_operands_of_distributeAt {children : List Folding} {i : Nat} {child : Folding}
    {q : Query} (hchild : children[i]? = some child) (h : f.distributeAt children i child = some q) :
    ∃ disjuncts distributed operands, child.disjuncts? = some disjuncts ∧
      anchorsOf f children i ≠ [] ∧
      f.distributeInto (anchorsOf f children i) disjuncts = some distributed ∧
      q = .conj operands ∧
      ∀ o, o ∈ operands ↔ o = distributed ∨ ∃ j c, children[j]? = some c ∧ j ≠ i ∧
        f.isComponentBound c.source = false ∧ o = c.folded := by
  unfold distributeAt at h
  simp only [Option.bind_eq_bind, Option.bind_eq_some_iff] at h
  obtain ⟨disjuncts, hdisjuncts, h⟩ := h
  split at h
  · cases h
  rename_i hanchors
  simp only [Option.bind_eq_some_iff, Option.pure_def, Option.some.injEq] at h
  obtain ⟨distributed, hinto, rfl⟩ := h
  refine ⟨disjuncts, distributed, _, hdisjuncts, by simpa [anchorsOf] using hanchors, hinto, rfl, ?_⟩
  -- the operands are the distributed child at its place and the others at theirs
  intro o
  rw [List.mem_filterMap]
  constructor
  · rintro ⟨⟨c, j⟩, hc, ho⟩
    have hc : children[j]? = some c := List.mem_zipIdx_iff_getElem?.1 hc
    dsimp only at ho
    split at ho
    · cases ho
      exact .inl rfl
    · rename_i hj
      split at ho
      · cases ho
      · rename_i hbound
        cases ho
        exact .inr ⟨j, c, hc, hj, by simpa [hj] using hbound, rfl⟩
  · rintro (rfl | ⟨j, c, hc, hj, hbound, rfl⟩)
    · exact ⟨(child, i), List.mem_zipIdx_iff_getElem?.2 hchild, by simp⟩
    · exact ⟨(c, j), List.mem_zipIdx_iff_getElem?.2 hc, by simp [hj, hbound]⟩

theorem distributeAt_eq_some {children : List Folding} {i : Nat} {child : Folding} {q : Query}
    (hchild : children[i]? = some child) (h : f.distributeAt children i child = some q) :
    ∃ disjuncts distributed, child.disjuncts? = some disjuncts ∧
      f.distributeInto (anchorsOf f children i) disjuncts = some distributed ∧
      ∀ v : Valuation, v.truth q = true ↔ v.truth distributed = true ∧
        ∀ j c, children[j]? = some c → j ≠ i → f.isComponentBound c.source = false →
          v.truth c.folded = true := by
  obtain ⟨disjuncts, distributed, operands, hdisjuncts, -, hinto, rfl, hmem⟩ :=
    exists_operands_of_distributeAt hchild h
  refine ⟨disjuncts, distributed, hdisjuncts, hinto, ?_⟩
  intro v
  rw [Valuation.truth_conj, List.all_eq_true]
  constructor
  · intro h
    refine ⟨h _ ((hmem _).2 (.inl rfl)), ?_⟩
    exact fun j c hc hj hbound => h _ ((hmem _).2 (.inr ⟨j, c, hc, hj, hbound, rfl⟩))
  · rintro ⟨hdistributed, hothers⟩ o ho
    obtain rfl | ⟨j, c, hc, hj, hbound, rfl⟩ := (hmem o).1 ho
    · exact hdistributed
    · exact hothers j c hc hj hbound

/-- The first child into which the component bounds of a conjunction are distributed, with
    its place. -/
def distributed? (f : Folder) (children : List Folding) : Option (Folding × Nat) :=
  children.zipIdx.find? fun (child, i) => (f.distributeAt children i child).isSome

theorem findSome?_eq_bind_find? {α β : Type} (g : α → Option β) (l : List α) :
    l.findSome? g = (l.find? fun a => (g a).isSome).bind g := by
  induction l with
  | nil => rfl
  | cons a l ih => cases h : g a <;> simp [h, ih]

/-- The conjunctions that are composed where one is folded: itself or, where its component
    bounds are distributed, these with each of the disjuncts. -/
def compositions (f : Folder) (children : List Folding) : List (List Folding) :=
  match f.distributed? children with
  | none => [children]
  | some (child, i) =>
    (child.disjuncts?.getD []).map fun d => f.anchorsOf children i ++ d.conjuncts

/-- The children that stay outside where component bounds are distributed. -/
def bystanders (f : Folder) (children : List Folding) : List Folding :=
  match f.distributed? children with
  | none => []
  | some (_, i) =>
    (children.zipIdx.filter fun (c, j) => j != i && !f.isComponentBound c.source).map (·.1)

/-- A conjunction is composed of its children, or distributed into one of them. -/
theorem foldConjunction_cases (f : Folder) (children : List Folding) :
    (f.compositions children = [children] ∧
      f.foldConjunction children = (f.compose children).1) ∨
    ∃ i child disjuncts, children[i]? = some child ∧ child.disjuncts? = some disjuncts ∧
      f.distributeAt children i child = some (f.foldConjunction children) ∧
      f.compositions children = disjuncts.map (fun d => f.anchorsOf children i ++ d.conjuncts) ∧
      ∀ j c, children[j]? = some c → j ≠ i → f.isComponentBound c.source = false →
        c ∈ f.bystanders children := by
  have hdistribute : f.distribute children =
      (f.distributed? children).bind fun (child, i) => f.distributeAt children i child :=
    findSome?_eq_bind_find? _ _
  unfold foldConjunction compositions bystanders
  rw [hdistribute]
  cases hdistributed : f.distributed? children with
  | none => exact .inl ⟨rfl, rfl⟩
  | some found =>
    obtain ⟨child, i⟩ := found
    rw [distributed?] at hdistributed
    have hchild : children[i]? = some child :=
      List.mem_zipIdx_iff_getElem?.1 (List.mem_of_find?_eq_some hdistributed)
    have hsome := List.find?_some hdistributed
    obtain ⟨q, hq⟩ := Option.isSome_iff_exists.1 hsome
    obtain ⟨disjuncts, -, hdisjuncts, -⟩ := distributeAt_eq_some hchild hq
    refine .inr ⟨i, child, disjuncts, hchild, hdisjuncts, ?_, ?_, ?_⟩
    · simp only [Option.bind_some, hq, Option.getD_some]
    · simp only [hdisjuncts, Option.getD_some]
    · intro j c hc hj hbound
      refine List.mem_map.2 ⟨(c, j), List.mem_filter.2 ⟨List.mem_zipIdx_iff_getElem?.2 hc, ?_⟩, rfl⟩
      simp [hj, hbound]

/-! ## Look-ups -/

/-- The markers beneath which queries are folded. -/
def entersMarker : Marker → Bool
  | .lenient | .strict | .list | .term => true
  | _ => false

/-- Such markers keep the truth of a query. -/
theorem ne_of_entersMarker {m : Marker} (h : entersMarker m = true) : m ≠ .drop ∧ m ≠ .delayed := by
  constructor <;>
    · rintro rfl
      cases h

/-- The folded form of a query has a look-up on a composite field `m`, made of bounds on
    the first `k` components. -/
inductive LooksUp (f : Folder) (m : Mapping) (k : Nat) : Folding → Prop where
  | composed {cs : List Query} {folded : Query} {parts children : List Folding}
      (hchildren : children ∈ f.compositions parts)
      (htakes : f.Takes (children.map Folding.source) m k) :
      LooksUp f m k (.mk (.junction .and cs) folded parts)
  | conjunct {cs : List Query} {folded : Query} {parts children : List Folding} {c : Folding}
      (hchildren : children ∈ f.compositions parts) (hc : c ∈ children) (h : LooksUp f m k c) :
      LooksUp f m k (.mk (.junction .and cs) folded parts)
  | bystander {cs : List Query} {folded : Query} {parts : List Folding} {c : Folding}
      (hc : c ∈ f.bystanders parts) (h : LooksUp f m k c) :
      LooksUp f m k (.mk (.junction .and cs) folded parts)
  | disjunct {cs : List Query} {folded : Query} {parts : List Folding} {c : Folding}
      (hc : c ∈ parts) (h : LooksUp f m k c) : LooksUp f m k (.mk (.junction .or cs) folded parts)
  | group {q folded : Query} {part : Folding} (h : LooksUp f m k part) :
      LooksUp f m k (.mk (.group q) folded [part])
  | marked {marker : Marker} {note : Option DropNote} {q folded : Query} {part : Folding}
      (hmarker : entersMarker marker = true) (h : LooksUp f m k part) :
      LooksUp f m k (.mk (.marked marker note q) folded [part])

/-- Look-ups are on composite fields. -/
theorem LooksUp.mem {F : Folding} (h : f.LooksUp m k F) : m ∈ f.mappings := by
  induction h with
  | composed _ htakes => exact htakes.mem
  | _ => assumption

/-- A record that has all components of a look-up on some of them, or not even those that
    it bounds. -/
def CompleteIn (f : Folder) (value? : FieldValues) (F : Folding) : Prop :=
  ∀ m k, f.LooksUp m k F → k < m.components.length → Complete value? m k

namespace CompleteIn

variable {q folded : Query} {cs : List Query} {parts children : List Folding} {part : Folding}

theorem composed (h : f.CompleteIn value? (.mk (.junction .and cs) folded parts))
    (hchildren : children ∈ f.compositions parts) :
    f.CompleteOn value? (children.map Folding.source) :=
  fun m k htakes => h m k (.composed hchildren htakes)

theorem conjunct (h : f.CompleteIn value? (.mk (.junction .and cs) folded parts))
    (hchildren : children ∈ f.compositions parts) (hpart : part ∈ children) :
    f.CompleteIn value? part :=
  fun m k hlooks => h m k (.conjunct hchildren hpart hlooks)

theorem bystander (h : f.CompleteIn value? (.mk (.junction .and cs) folded parts))
    (hpart : part ∈ f.bystanders parts) : f.CompleteIn value? part :=
  fun m k hlooks => h m k (.bystander hpart hlooks)

theorem disjunct (h : f.CompleteIn value? (.mk (.junction .or cs) folded parts))
    (hpart : part ∈ parts) : f.CompleteIn value? part :=
  fun m k hlooks => h m k (.disjunct hpart hlooks)

theorem group (h : f.CompleteIn value? (.mk (.group q) folded [part])) :
    f.CompleteIn value? part :=
  fun m k hlooks => h m k (.group hlooks)

theorem marked {marker : Marker} {note : Option DropNote} (hmarker : entersMarker marker = true)
    (h : f.CompleteIn value? (.mk (.marked marker note q) folded [part])) :
    f.CompleteIn value? part :=
  fun m k hlooks => h m k (.marked hmarker hlooks)

end CompleteIn

end IndexQuery.Folder
