import IndexQuery.Proofs.Query.RoundTrip
import IndexQuery.Query.Bounds

/-! # Trees that can be rebuilt

    The passes over a query take junctions apart and build them anew, write other text for
    literals and mark what they find. What holds of every node before such a pass holds of
    every node after it, if it holds of what is built.

    * `Query.Shape`: the tests of nodes of which this is so.
    * `Query.Tidy`: the trees that are as reading builds them, but for notes of markers
      which have none in query text.
    * `Query.shape_isTidyNode`, `Query.shape_isReadableNode`: the tidy trees, and those that
      are read back as they are.
-/

namespace IndexQuery

namespace Query

/-! ## Shapes -/

/-- A test that holds of a node of any rebuilt tree, if it holds of all nodes before. It
    tells junctions by their children, and lets no group pass. -/
structure Shape (p : Query → Bool) : Prop extends TellsJunctions p where
  not : ∀ c, p (.not c) = true
  group : ∀ c, p (.group c) = false
  /-- A comparison may get other text, under any operator. -/
  value : ∀ {leaf}, p (.compare leaf) = true →
    ∀ op text, p (.compare ⟨op, leaf.field, .string text⟩) = true
  operator : ∀ {leaf}, p (.compare leaf) = true → ∀ op, p (.compare (leaf.withOp op)) = true
  /-- The literals of a call may get other text. -/
  arguments : ∀ {call}, p (.call call) = true → ∀ f : Argument → Argument,
    (∀ a, f a = a ∨ ∃ l text, a = .literal l ∧ f a = .literal (.string text)) →
    p (.call { call with args := call.args.map f }) = true
  /-- Beneath a marker there may be another query, if the query is not dropped. -/
  remark : ∀ {m note c}, m ≠ .drop → p (.marked m note c) = true →
    ∀ c', p (.marked m note c') = true
  mark : ∀ {m}, m ≠ .drop → ∀ c, p (.mark m c) = true
  dropped : ∀ reason c, p (.dropped reason c) = true

namespace Shape

variable {p : Query → Bool} (hp : Shape p) {kind : Junction} {q : Query} {cs : List Query}

include hp

theorem every_junction (hlength : 2 ≤ cs.length) (hcs : ∀ c ∈ cs, c.Every p)
    (hoperands : ∀ c ∈ cs, c.IsOperand kind) : (Query.junction kind cs).Every p :=
  every_iff.2 ⟨hp.junction.2 ⟨hlength, hoperands⟩, hcs⟩

theorem every_mark {m : Marker} (hm : m ≠ .drop) (h : q.Every p) : (Query.mark m q).Every p :=
  every_iff.2 ⟨hp.mark hm q, List.forall_mem_singleton.2 h⟩

theorem every_dropped (reason : String) (h : q.Every p) : (Query.dropped reason q).Every p :=
  every_iff.2 ⟨hp.dropped reason q, List.forall_mem_singleton.2 h⟩

theorem every_remark {m : Marker} {note : Option DropNote} {q' : Query} (hm : m ≠ .drop)
    (h : (Query.marked m note q).Every p) (h' : q'.Every p) :
    (Query.marked m note q').Every p :=
  every_iff.2 ⟨hp.remark hm (every_iff.1 h).1 q', List.forall_mem_singleton.2 h'⟩

theorem every_not (h : q.Every p) : (Query.not q).Every p :=
  every_iff.2 ⟨hp.not q, List.forall_mem_singleton.2 h⟩

theorem not_every_group : ¬ (Query.group q).Every p := by
  intro h
  have hgroup := hp.group q
  rw [(every_iff.1 h).1] at hgroup
  cases hgroup

/-- There are no groups around a tree of a shape. -/
theorem ungrouped_eq (h : q.Every p) : q.ungrouped = q := by
  cases q with
  | group c => exact (hp.not_every_group h).elim
  | junction kind cs | not c | compare leaf | call c | marked m note c => rfl

/-- The range between two bounds has the shape that the bounds have. -/
theorem every_range {b : Bounds} (hlower : p (.compare b.lower) = true)
    (hupper : p (.compare b.upper) = true) : (Query.range b).Every p := by
  refine hp.every_mark (by decide) (hp.every_junction (by simp) ?_ ?_)
  · exact List.forall_mem_cons.2
      ⟨(every_leaf rfl).2 hlower, List.forall_mem_singleton.2 ((every_leaf rfl).2 hupper)⟩
  · simp [IsOperand]

end Shape

/-! ## Tidy trees -/

/-- Whether a node is as reading builds it, where the notes of markers other than those of
    dropped clauses do not count. -/
def isTidyNode : Query → Bool
  | .marked m note c => m ≠ .drop || note.all fun n => n.query = c.render
  | q => isNormalNode q

/-- The trees in which each junction has at least two children and no child of its kind,
    without groups, where the note of a dropped clause has its text. -/
def Tidy (q : Query) : Prop := q.Every isTidyNode

instance (q : Query) : Decidable q.Tidy := inferInstanceAs (Decidable (q.Every _))

theorem shape_isTidyNode : Shape isTidyNode where
  junction := by simp [isTidyNode, isNormalNode]
  not _ := rfl
  group _ := rfl
  value _ _ _ := rfl
  operator _ _ := rfl
  arguments _ _ _ := rfl
  remark hm _ _ := by simp [isTidyNode, hm]
  mark hm _ := by simp [isTidyNode, mark, hm]
  dropped _ _ := by simp [isTidyNode, dropped]

/-! ## Trees that are read back -/

/-- Whether a node is read back as it is. -/
def isReadableNode (q : Query) : Bool := isTidyNode q && isPrintableNode q

theorem shape_isReadableNode : Shape isReadableNode where
  junction := by
    intro kind cs
    simp only [isReadableNode, isTidyNode, isNormalNode, isPrintableNode, Bool.and_eq_true,
      decide_eq_true_eq, List.all_eq_true, Bool.not_eq_true', List.isEmpty_eq_false_iff]
    constructor
    · exact fun h => h.1
    · exact fun h => ⟨h, List.ne_nil_of_length_pos (by omega)⟩
  not _ := rfl
  group _ := rfl
  value h _ _ := by
    simp only [isReadableNode, isTidyNode, isNormalNode, isPrintableNode, Bool.true_and,
      Bool.and_eq_true] at h ⊢
    exact ⟨h.1, rfl⟩
  operator h _ := h
  arguments := by
    intro call h f hf
    simp only [isReadableNode, isTidyNode, isNormalNode, isPrintableNode, Bool.true_and,
      Bool.and_eq_true, List.all_eq_true, List.forall_mem_map] at h ⊢
    refine ⟨h.1, fun a ha => ?_⟩
    obtain hsame | ⟨l, text, -, htext⟩ := hf a
    · rw [hsame]
      exact h.2 a ha
    · rw [htext]
      rfl
  remark hm h _ := by
    simpa [isReadableNode, isTidyNode, isPrintableNode, hm] using h
  mark hm _ := by simp [isReadableNode, isTidyNode, isPrintableNode, mark, hm]
  dropped _ _ := by simp [isReadableNode, isTidyNode, isPrintableNode, dropped]

/-- On printable nodes the notes that do not count are not there. -/
theorem isReadableNode_eq (q : Query) :
    isReadableNode q = (isNormalNode q && isPrintableNode q) := by
  cases q with
  | marked m note c =>
    by_cases hm : m = .drop
    · simp [isReadableNode, isTidyNode, isNormalNode, hm]
    · cases note with
      | none => simp [isReadableNode, isTidyNode, isNormalNode, hm]
      | some n => simp [isReadableNode, isPrintableNode, hm]
  | junction kind cs | not c | compare leaf | call c | group c => rfl

theorem readBack_iff {q : Query} : q.ReadBack ↔ q.Every isReadableNode := by
  constructor
  · intro h r hr
    rw [isReadableNode_eq, Bool.and_eq_true]
    exact ⟨h.normal r hr, h.printable r hr⟩
  · intro h
    have hnodes : ∀ r ∈ q.subtrees, isNormalNode r = true ∧ isPrintableNode r = true := by
      intro r hr
      rw [← Bool.and_eq_true, ← isReadableNode_eq]
      exact h r hr
    exact ⟨fun r hr => (hnodes r hr).2, fun r hr => (hnodes r hr).1⟩

theorem ReadBack.tidy {q : Query} (h : q.ReadBack) : q.Tidy := by
  intro r hr
  have hreadable := readBack_iff.1 h r hr
  rw [isReadableNode, Bool.and_eq_true] at hreadable
  exact hreadable.1

end Query

end IndexQuery
