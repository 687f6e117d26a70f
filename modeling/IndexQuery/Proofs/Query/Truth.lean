import IndexQuery.Query.Bounds

/-! # The truth of a query

    Once its leaves are true or false, a query is a formula over them. What
    rewrites queries is judged by this formula.

    * `Valuation.truth`: the truth of a query under the truth of its leaves.
    * `Valuation.truth_join`: building a junction changes its shape, not its truth.
    * `Valuation.truth_of_bounds?`: a range is as true as its two bounds.
    * `Query.IsOperand`: what joining a junction leaves as it is.
    * `Query.subtrees`: the queries that a condition on a whole tree speaks of.
-/

namespace IndexQuery

/-! ## Junctions of truths -/

namespace Junction

variable {α β : Type}

/-- Whether the items of a junction satisfy a test: all of them, or one of them. -/
def holds (kind : Junction) (p : α → Bool) (items : List α) : Bool :=
  match kind with
  | .and => items.all p
  | .or => items.any p

@[simp] theorem holds_and (p : α → Bool) (items : List α) :
    Junction.and.holds p items = items.all p := rfl

@[simp] theorem holds_or (p : α → Bool) (items : List α) :
    Junction.or.holds p items = items.any p := rfl

@[simp] theorem holds_singleton (kind : Junction) (p : α → Bool) (a : α) :
    kind.holds p [a] = p a := by
  cases kind <;> simp [holds]

theorem holds_flatMap (kind : Junction) (p : β → Bool) (f : α → List β) (items : List α) :
    kind.holds p (items.flatMap f) = kind.holds (fun a => kind.holds p (f a)) items := by
  cases kind <;> simp [holds, List.all_flatMap, List.any_flatMap]

theorem holds_map (kind : Junction) (p : β → Bool) (f : α → β) (items : List α) :
    kind.holds p (items.map f) = kind.holds (fun a => p (f a)) items := by
  cases kind
  · simp only [holds, List.all_map, Function.comp_def]
  · simp only [holds, List.any_map, Function.comp_def]

theorem holds_congr {kind : Junction} {p p' : α → Bool} {items : List α}
    (h : ∀ a ∈ items, p a = p' a) : kind.holds p items = kind.holds p' items := by
  induction items with
  | nil => cases kind <;> rfl
  | cons a items ih =>
    have ha := h a List.mem_cons_self
    have hrest := ih fun b hb => h b (List.mem_cons_of_mem a hb)
    cases kind <;> simp_all [holds]

/-- A junction of equals has their truth. -/
theorem holds_const {kind : Junction} {p : α → Bool}
    {items : List α} {b : Bool} (hne : items ≠ []) (h : ∀ a ∈ items, p a = b) :
    kind.holds p items = b := by
  obtain ⟨first, rest, rfl⟩ := List.exists_cons_of_ne_nil hne
  have hfirst := h first List.mem_cons_self
  cases kind <;> cases b <;> simp_all [Junction.holds]

/-- Neither the order of the items nor their number counts. -/
theorem holds_eq_of_mem_iff {kind : Junction} {p : α → Bool} {items items' : List α}
    (h : ∀ a, a ∈ items ↔ a ∈ items') : kind.holds p items = kind.holds p items' := by
  rw [Bool.eq_iff_iff]
  cases kind <;> simp [holds, h]

end Junction

/-! ## Truth -/

/-- The truth of the leaves of a query, as on a record. -/
structure Valuation where
  compare : Comparison → Bool
  call : Call → Bool
  /-- What is delayed is checked. Otherwise it counts as true. -/
  checksDelayed : Bool := true

namespace Valuation

mutual

/-- The truth of a query. A dropped query is false. The other markers and groups
    change nothing, save that a delayed query may be left unchecked. -/
def truth (v : Valuation) : Query → Bool
  | .junction .and cs => v.truthOfAll cs
  | .junction .or cs => v.truthOfAny cs
  | .not c => !v.truth c
  | .compare c => v.compare c
  | .call c => v.call c
  | .group c => v.truth c
  | .marked m _ c =>
    match m with
    | .drop => false
    | .delayed => !v.checksDelayed || v.truth c
    | _ => v.truth c

/-- Whether all of several queries are true. -/
def truthOfAll (v : Valuation) : List Query → Bool
  | [] => true
  | c :: cs => v.truth c && v.truthOfAll cs

/-- Whether one of several queries is true. -/
def truthOfAny (v : Valuation) : List Query → Bool
  | [] => false
  | c :: cs => v.truth c || v.truthOfAny cs

end

variable (v : Valuation)

theorem truthOfAll_eq_all (cs : List Query) : v.truthOfAll cs = cs.all v.truth := by
  induction cs with
  | nil => rfl
  | cons c cs ih => rw [truthOfAll, ih, List.all_cons]

theorem truthOfAny_eq_any (cs : List Query) : v.truthOfAny cs = cs.any v.truth := by
  induction cs with
  | nil => rfl
  | cons c cs ih => rw [truthOfAny, ih, List.any_cons]

@[simp] theorem truth_junction (kind : Junction) (cs : List Query) :
    v.truth (.junction kind cs) = kind.holds v.truth cs := by
  cases kind with
  | and => rw [truth, truthOfAll_eq_all, Junction.holds_and]
  | or => rw [truth, truthOfAny_eq_any, Junction.holds_or]

@[simp] theorem truth_not (c : Query) : v.truth (.not c) = !v.truth c := by rw [truth]

@[simp] theorem truth_compare (c : Comparison) : v.truth (.compare c) = v.compare c := by
  rw [truth]

@[simp] theorem truth_call (c : Call) : v.truth (.call c) = v.call c := by rw [truth]

@[simp] theorem truth_group (c : Query) : v.truth (.group c) = v.truth c := by rw [truth]

@[simp] theorem truth_drop (note : Option DropNote) (c : Query) :
    v.truth (.marked .drop note c) = false := by
  rw [truth]

example (c : Query) : v.truth (.not (.marked .drop none c)) = true := by cbv

@[simp] theorem truth_delayed (note : Option DropNote) (c : Query) :
    v.truth (.marked .delayed note c) = (!v.checksDelayed || v.truth c) := by
  rw [truth]

/-- All markers but two leave the truth of a query as it is. -/
theorem truth_marked {m : Marker} (hdrop : m ≠ .drop) (hdelayed : m ≠ .delayed)
    (note : Option DropNote) (c : Query) : v.truth (.marked m note c) = v.truth c := by
  rw [truth]
  · exact hdrop
  · exact hdelayed

/-! ## Shapes without influence -/

@[simp] theorem truth_ungrouped (q : Query) : v.truth q.ungrouped = v.truth q := by
  fun_induction Query.ungrouped q with
  | case1 child ih => rw [ih, truth_group]
  | case2 q _ => rfl

/-- The operands of a query make up the query. -/
theorem holds_operands (kind : Junction) (q : Query) :
    kind.holds v.truth (q.operands kind) = v.truth q := by
  unfold Query.operands
  split
  · rename_i k cs
    by_cases h : k = kind
    · rw [if_pos h, h, truth_junction]
    · rw [if_neg h, Junction.holds_singleton]
  · rw [Junction.holds_singleton]

/-- Merging children and leaving out a junction around one of them keeps the truth. -/
@[simp] theorem truth_join (kind : Junction) (cs : List Query) :
    v.truth (.join kind cs) = kind.holds v.truth cs := by
  have hflat : kind.holds v.truth (cs.flatMap (Query.operands kind)) = kind.holds v.truth cs := by
    rw [Junction.holds_flatMap]
    exact Junction.holds_congr fun c _ => v.holds_operands kind c
  unfold Query.join
  split
  · rename_i q hq
    rw [← hflat, hq, Junction.holds_singleton]
  · rw [truth_junction, hflat]

@[simp] theorem truth_conj (cs : List Query) : v.truth (.conj cs) = cs.all v.truth := by
  rw [Query.conj, truth_join, Junction.holds_and]

@[simp] theorem truth_disj (cs : List Query) : v.truth (.disj cs) = cs.any v.truth := by
  rw [Query.disj, truth_join, Junction.holds_or]

end Valuation

/-! ## Ranges -/

theorem CompareOp.isRegex_of_isLowerBound {op : CompareOp} (h : op.isLowerBound = true) :
    op.isRegex = false := by
  cases op <;> simp_all [isLowerBound, isRegex]

theorem CompareOp.isRegex_of_isUpperBound {op : CompareOp} (h : op.isUpperBound = true) :
    op.isRegex = false := by
  cases op <;> simp_all [isUpperBound, isRegex]

/-- No operator bounds from both sides. -/
theorem CompareOp.isUpperBound_of_isLowerBound {op : CompareOp} (h : op.isLowerBound = true) :
    op.isUpperBound = false := by
  cases op <;> simp_all [isLowerBound, isUpperBound]

/-- The bounds of a range are two comparisons of one field with text, the first from
    below and the second from above. -/
structure Bounds.WellFormed (b : Bounds) : Prop where
  field : b.upper.field = b.lower.field
  lower : b.lower.op.isLowerBound = true
  upper : b.upper.op.isUpperBound = true
  lower_text : b.lower.literal.isNull = false
  upper_text : b.upper.literal.isNull = false

theorem Bounds.WellFormed.lower_ne_upper {b : Bounds} (h : b.WellFormed) : b.lower ≠ b.upper := by
  intro hsame
  have hnot := CompareOp.isUpperBound_of_isLowerBound h.lower
  rw [hsame, h.upper] at hnot
  cases hnot

/-- Bounds are made of two comparisons, in either order. -/
theorem Bounds.ofComparisons?_eq_some {a c : Comparison} {b : Bounds}
    (h : Bounds.ofComparisons? a c = some b) :
    b.WellFormed ∧ (b.lower = a ∧ b.upper = c ∨ b.lower = c ∧ b.upper = a) := by
  unfold ofComparisons? at h
  split at h
  · cases h
  · rename_i hplain
    simp only [ne_eq, Bool.or_eq_true, decide_eq_true_eq, not_or, Decidable.not_not,
      Bool.not_eq_true] at hplain
    obtain ⟨⟨hfield, ha⟩, hc⟩ := hplain
    split at h
    -- the bounds in this order, or the other way round
    · rename_i hops
      rw [Bool.and_eq_true] at hops
      cases h
      exact ⟨⟨hfield.symm, hops.1, hops.2, ha, hc⟩, .inl ⟨rfl, rfl⟩⟩
    · split at h
      · rename_i hops
        rw [Bool.and_eq_true] at hops
        cases h
        exact ⟨⟨hfield, hops.1, hops.2, hc, ha⟩, .inr ⟨rfl, rfl⟩⟩
      · cases h

/-- The two comparisons are of the field of the bounds, and they are not the same. -/
theorem Bounds.fields_of_ofComparisons? {a c : Comparison} {b : Bounds}
    (h : Bounds.ofComparisons? a c = some b) :
    a.field = b.lower.field ∧ c.field = b.lower.field ∧ a ≠ c := by
  obtain ⟨hwf, ⟨rfl, rfl⟩ | ⟨rfl, rfl⟩⟩ := ofComparisons?_eq_some h
  · exact ⟨rfl, hwf.field, hwf.lower_ne_upper⟩
  · exact ⟨hwf.field, rfl, hwf.lower_ne_upper.symm⟩

namespace Query

/-- A query with bounds is a marked conjunction of the two comparisons. -/
theorem eq_marked_of_bounds? {q : Query} {b : Bounds} (h : q.bounds? = some b) :
    ∃ note child x y a c, q = .marked .bounded note child ∧
      child.ungrouped = .junction .and [x, y] ∧ x.ungrouped = .compare a ∧
      y.ungrouped = .compare c ∧ Bounds.ofComparisons? a c = some b := by
  unfold bounds? at h
  split at h
  · rename_i note child
    split at h
    · rename_i x y hchild
      split at h
      · rename_i a c hx hy
        refine ⟨note, child, x, y, a, c, rfl, hchild, ?_, ?_, h⟩
        · cases hx' : x.ungrouped <;> simp_all [comparison?]
        · cases hy' : y.ungrouped <;> simp_all [comparison?]
      · cases h
    · cases h
  · cases h

/-- The marker of a query with bounds. -/
theorem eq_bounded_of_bounds? {m : Marker} {note : Option DropNote} {child : Query} {b : Bounds}
    (h : (Query.marked m note child).bounds? = some b) : m = .bounded := by
  obtain ⟨_, _, _, _, _, _, hq, -⟩ := eq_marked_of_bounds? h
  cases hq
  rfl

theorem wellFormed_of_bounds? {q : Query} {b : Bounds} (h : q.bounds? = some b) :
    b.WellFormed := by
  obtain ⟨note, child, x, y, a, c, -, -, -, -, hb⟩ := eq_marked_of_bounds? h
  exact (Bounds.ofComparisons?_eq_some hb).1

end Query

/-- A range is true when its bounds are. -/
theorem Valuation.truth_of_bounds? (v : Valuation) {q : Query} {b : Bounds}
    (h : q.bounds? = some b) : v.truth q = (v.compare b.lower && v.compare b.upper) := by
  obtain ⟨note, child, x, y, a, c, rfl, hchild, hx, hy, hb⟩ := Query.eq_marked_of_bounds? h
  have hpair : v.truth child = (v.compare a && v.compare c) := by
    rw [← truth_ungrouped, hchild, truth_junction, ← truth_compare v a, ← truth_compare v c,
      ← hx, ← hy]
    simp
  rw [truth_marked v (by simp) (by simp), hpair]
  obtain ⟨hl, hu⟩ | ⟨hl, hu⟩ := (Bounds.ofComparisons?_eq_some hb).2
  · rw [hl, hu]
  · rw [hl, hu, Bool.and_comm]

/-! ## Operands of junctions -/

namespace Query

section Operands

variable {kind : Junction}

/-- A query that is not itself a junction of a kind. -/
def IsOperand (kind : Junction) (q : Query) : Prop := ∀ cs, q ≠ .junction kind cs

instance (kind : Junction) (q : Query) : Decidable (q.IsOperand kind) :=
  match q with
  | .junction k _ => decidable_of_iff (k ≠ kind) (by simp [IsOperand])
  | .not _ | .compare _ | .call _ | .group _ | .marked .. => isTrue (by simp [IsOperand])

theorem operands_of_isOperand {q : Query} (h : q.IsOperand kind) : q.operands kind = [q] := by
  unfold operands
  split
  · rename_i k cs
    by_cases hk : k = kind
    · rw [hk] at h
      exact absurd rfl (h cs)
    · rw [if_neg hk]
  · rfl

theorem mem_operands {q c : Query} (h : c ∈ q.operands kind) :
    (c = q ∧ q.IsOperand kind) ∨ ∃ cs, q = .junction kind cs ∧ c ∈ cs := by
  unfold operands at h
  split at h
  · rename_i k cs
    by_cases hk : k = kind
    · rw [if_pos hk] at h
      exact .inr ⟨cs, by rw [hk], h⟩
    · rw [if_neg hk] at h
      refine .inl ⟨List.mem_singleton.1 h, ?_⟩
      intro cs' hcs'
      cases hcs'
      exact hk rfl
  · rename_i hjunction
    exact .inl ⟨List.mem_singleton.1 h, fun cs => hjunction kind cs⟩

theorem flatMap_operands {cs : List Query} (h : ∀ c ∈ cs, c.IsOperand kind) :
    cs.flatMap (operands kind) = cs := by
  induction cs with
  | nil => rfl
  | cons c cs ih =>
    obtain ⟨hc, hcs⟩ := List.forall_mem_cons.1 h
    rw [List.flatMap_cons, operands_of_isOperand hc, ih hcs, List.singleton_append]

/-- Joining operands of which there is not just one makes the junction of them. -/
theorem join_of_isOperand {cs : List Query} (h : ∀ c ∈ cs, c.IsOperand kind)
    (hlength : cs.length ≠ 1) : join kind cs = .junction kind cs := by
  unfold join
  rw [flatMap_operands h]
  split
  · exact absurd rfl hlength
  · rfl

theorem join_singleton {c : Query} (h : c.IsOperand kind) : join kind [c] = c := by
  unfold join
  rw [flatMap_operands (by simpa using h)]

/-- A query is such a junction if it is not left as it is. -/
theorem exists_of_not_isOperand {q : Query} (h : ¬ q.IsOperand kind) : ∃ cs, q = .junction kind cs := by
  simpa [IsOperand] using h

end Operands

/-! ## Parts of a tree -/

/-- What holds of a query when it holds of its children holds of every query. -/
@[elab_as_elim]
theorem induction {motive : Query → Prop}
    (junction : ∀ kind cs, (∀ c ∈ cs, motive c) → motive (.junction kind cs))
    (not : ∀ c, motive c → motive (.not c)) (compare : ∀ c, motive (.compare c))
    (call : ∀ c, motive (.call c)) (group : ∀ c, motive c → motive (.group c))
    (marked : ∀ m note c, motive c → motive (.marked m note c)) : ∀ q, motive q
  | .junction kind cs =>
    junction kind cs fun c _ => induction junction not compare call group marked c
  | .not c => not c (induction junction not compare call group marked c)
  | .compare c => compare c
  | .call c => call c
  | .group c => group c (induction junction not compare call group marked c)
  | .marked m note c => marked m note c (induction junction not compare call group marked c)

mutual

/-- The query and everything beneath it. -/
def subtrees : Query → List Query
  | .junction k cs => .junction k cs :: subtreesOfAll cs
  | .not c => .not c :: c.subtrees
  | .compare c => [.compare c]
  | .call c => [.call c]
  | .group c => .group c :: c.subtrees
  | .marked m note c => .marked m note c :: c.subtrees

/-- Several queries and everything beneath them. -/
def subtreesOfAll : List Query → List Query
  | [] => []
  | c :: cs => c.subtrees ++ subtreesOfAll cs

end

theorem mem_subtreesOfAll {q : Query} {cs : List Query} :
    q ∈ subtreesOfAll cs ↔ ∃ c ∈ cs, q ∈ c.subtrees := by
  induction cs with
  | nil => simp [subtreesOfAll]
  | cons c cs ih => simp [subtreesOfAll, ih]

/-- A junction mentions what its children mention. -/
theorem mem_mentions_junction {kind : Junction} {cs : List Query} {field : String} :
    field ∈ (junction kind cs).mentions ↔ ∃ c ∈ cs, field ∈ c.mentions := by
  rw [mentions]
  induction cs with
  | nil => simp [mentionsAll]
  | cons c cs ih => simp [mentionsAll, ih]

theorem self_mem_subtrees (q : Query) : q ∈ q.subtrees := by
  cases q <;> simp [subtrees]

/-- What is beneath a child is beneath the query. -/
theorem mem_subtrees_of_child {q c p : Query} (hc : c ∈ q.children) (hp : p ∈ c.subtrees) :
    p ∈ q.subtrees := by
  cases q with
  | junction k cs =>
    rw [subtrees]
    exact List.mem_cons_of_mem _ (mem_subtreesOfAll.2 ⟨c, hc, hp⟩)
  | not child | group child | marked m note child =>
    rw [children, List.mem_singleton] at hc
    subst hc
    rw [subtrees]
    exact List.mem_cons_of_mem _ hp
  | compare c | call c => simp [children] at hc

/-- What is beneath a part of a query is beneath the query. -/
theorem mem_subtrees_trans {q p : Query} (hp : p ∈ q.subtrees) (r : Query) (h : q ∈ r.subtrees) :
    p ∈ r.subtrees := by
  induction r using Query.induction with
  | junction k cs ih =>
    rw [subtrees] at h
    rcases List.mem_cons.1 h with rfl | h
    · exact hp
    · obtain ⟨c, hc, hq⟩ := mem_subtreesOfAll.1 h
      exact mem_subtrees_of_child hc (ih c hc hq)
  | not c ih | group c ih | marked m note c ih =>
    rw [subtrees] at h
    rcases List.mem_cons.1 h with rfl | h
    · exact hp
    · exact mem_subtrees_of_child List.mem_cons_self (ih h)
  | compare c | call c =>
    rw [subtrees] at h
    rwa [List.mem_singleton.1 h] at hp

/-- What holds of a query and of everything beneath its children holds of everything beneath
    it. -/
theorem forall_subtrees_iff {P : Query → Prop} {q : Query} :
    (∀ r ∈ q.subtrees, P r) ↔ P q ∧ ∀ c ∈ q.children, ∀ r ∈ c.subtrees, P r := by
  constructor
  · intro h
    exact ⟨h q q.self_mem_subtrees, fun c hc r hr => h r (mem_subtrees_of_child hc hr)⟩
  · rintro ⟨hself, hchildren⟩ r hr
    cases q with
    | junction kind cs =>
      rw [subtrees, List.mem_cons, mem_subtreesOfAll] at hr
      rcases hr with rfl | ⟨c, hc, hr⟩
      · exact hself
      · exact hchildren c hc r hr
    | not c | group c | marked m note c =>
      rw [subtrees, List.mem_cons] at hr
      rcases hr with rfl | hr
      · exact hself
      · exact hchildren c List.mem_cons_self r hr
    | compare c | call c =>
      rw [subtrees, List.mem_singleton] at hr
      subst hr
      exact hself

/-- What is beneath a query without its groups is beneath the query. -/
theorem mem_subtrees_of_ungrouped {q p : Query} (hp : p ∈ q.ungrouped.subtrees) :
    p ∈ q.subtrees := by
  fun_induction ungrouped q with
  | case1 child ih => exact mem_subtrees_of_child (by simp [children]) (ih hp)
  | case2 q _ => exact hp

/-- The bounds of a range stand beneath it. -/
theorem mem_subtrees_of_bounds? {q : Query} {b : Bounds} (h : q.bounds? = some b) :
    .compare b.lower ∈ q.subtrees ∧ .compare b.upper ∈ q.subtrees := by
  obtain ⟨note, child, x, y, a, c, rfl, hchild, hx, hy, hb⟩ := eq_marked_of_bounds? h
  have hbeneath : ∀ z ∈ [x, y], ∀ p ∈ z.ungrouped.subtrees,
      p ∈ (marked .bounded note child).subtrees := by
    intro z hz p hp
    have hinner : p ∈ child.ungrouped.subtrees := by
      rw [hchild]
      exact mem_subtrees_of_child hz (mem_subtrees_of_ungrouped hp)
    exact mem_subtrees_of_child (by simp [children]) (mem_subtrees_of_ungrouped hinner)
  have ha := hbeneath x (by simp) (.compare a) (by rw [hx]; exact self_mem_subtrees _)
  have hc := hbeneath y (by simp) (.compare c) (by rw [hy]; exact self_mem_subtrees _)
  obtain ⟨hl, hu⟩ | ⟨hl, hu⟩ := (Bounds.ofComparisons?_eq_some hb).2
  · rw [hl, hu]
    exact ⟨ha, hc⟩
  · rw [hl, hu]
    exact ⟨hc, ha⟩

end Query

end IndexQuery
