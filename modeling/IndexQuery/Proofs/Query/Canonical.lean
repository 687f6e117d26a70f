import IndexQuery.Proofs.Query.Truth
import IndexQuery.Query.Parser

/-! # What query text keeps of a tree

    Query text has no groups, does not tell a junction within a junction of its kind from
    one with more children, and has no junctions of a single child. A tree without these
    is canonical; every printable tree has a canonical form.

    * `Query.Printable`: the trees whose names and numbers can be read back.
    * `Query.canonical`: the tree that is left once groups and superfluous junctions are
      taken away, and the notes of dropped clauses are written anew.
    * `Query.normal_canonical`, `Query.canonical_of_normal`: it is canonical, and a
      canonical tree stays as it is.
-/

namespace IndexQuery

/-! ## Texts of a single token -/

/-- The words that are no names, in lower case. -/
def keywords : List String := ["and", "or", "not", "null", "true"]

/-- Whether a text is a single word. -/
def isWord (text : String) : Bool :=
  match text.toList with
  | [] => false
  | first :: rest => Lexeme.isWordStart first && rest.all Lexeme.isWordPart

/-- Whether a text is a name: a word that is no keyword. -/
def isName (text : String) : Bool := isWord text && !keywords.contains text.toLower

/-- Whether a text is a number as it stands in query text. -/
def isNumeral (text : String) : Bool :=
  match text.toList with
  | [] => false
  | first :: rest => Lexeme.startsNumber first rest && rest.all Lexeme.isNumberPart

/-- Whether a literal can be read back. Any quoted text can. -/
def Literal.isPrintable : Literal → Bool
  | .string _ | .null => true
  | .number text => isNumeral text

/-- Whether an argument can be read back: fields are told by their names. -/
def Argument.isPrintable : Argument → Bool
  | .field name => isName name && Parser.isFieldName name
  | .identifier name => isName name && !Parser.isFieldName name
  | .literal value => value.isPrintable

namespace Query

/-! ## Conditions on every node -/

/-- Whether a test holds of the query and of everything beneath it. -/
def Every (p : Query → Bool) (q : Query) : Prop := ∀ r ∈ q.subtrees, p r = true

instance (p : Query → Bool) (q : Query) : Decidable (q.Every p) :=
  inferInstanceAs (Decidable (∀ r ∈ q.subtrees, p r = true))

theorem every_iff {p : Query → Bool} {q : Query} :
    q.Every p ↔ p q = true ∧ ∀ c ∈ q.children, c.Every p :=
  forall_subtrees_iff

theorem Every.of_mem_children {p : Query → Bool} {q c : Query} (h : q.Every p)
    (hc : c ∈ q.children) : c.Every p :=
  (every_iff.1 h).2 c hc

/-- Of a query without children only the query itself counts. -/
theorem every_leaf {p : Query → Bool} {q : Query} (h : q.children = []) :
    q.Every p ↔ p q = true := by
  rw [every_iff, h]
  simp

/-! ## Printable trees -/

/-- Whether a node can be read back. Of the markers the dropped clauses, and no others,
    have a note. -/
def isPrintableNode : Query → Bool
  | .junction _ cs => !cs.isEmpty
  | .not _ | .group _ => true
  | .compare leaf => isName leaf.field && leaf.literal.isPrintable
  | .call c => isName c.family && isName c.name && c.args.all Argument.isPrintable
  | .marked m note _ => decide (m = .drop) == note.isSome

/-- The trees that can be read back. -/
def Printable (q : Query) : Prop := q.Every isPrintableNode

instance (q : Query) : Decidable q.Printable := inferInstanceAs (Decidable (q.Every _))

/-! ## Canonical trees -/

/-- Whether a node is as reading builds it. -/
def isNormalNode : Query → Bool
  | .junction kind cs => 2 ≤ cs.length && cs.all fun c => c.IsOperand kind
  | .group _ => false
  | .marked _ note c => note.all fun n => n.query = c.render
  | .not _ | .compare _ | .call _ => true

/-- The trees as reading builds them. -/
def Normal (q : Query) : Prop := q.Every isNormalNode

instance (q : Query) : Decidable q.Normal := inferInstanceAs (Decidable (q.Every _))

mutual

/-- The query without groups, without junctions in junctions of their kind and without
    junctions of a single child. The notes of dropped clauses tell the text of what they
    then stand for. -/
def canonical : Query → Query
  | .junction kind cs => join kind (canonicalAll cs)
  | .not c => .not c.canonical
  | .compare leaf => .compare leaf
  | .call c => .call c
  | .group c => c.canonical
  | .marked m note c =>
    .marked m (note.map fun n => { n with query := c.canonical.render }) c.canonical

/-- Several queries in canonical form. -/
def canonicalAll : List Query → List Query
  | [] => []
  | c :: cs => c.canonical :: canonicalAll cs

end

theorem canonicalAll_eq_map (cs : List Query) : canonicalAll cs = cs.map canonical := by
  induction cs with
  | nil => rfl
  | cons c cs ih => rw [canonicalAll, ih, List.map_cons]

/-! ### Joining -/

/-- The operands of a query are the query or its children. -/
theorem Every.of_mem_operands {p : Query → Bool} {kind : Junction} {q c : Query} (h : q.Every p)
    (hc : c ∈ q.operands kind) : c.Every p := by
  obtain ⟨rfl, -⟩ | ⟨cs, rfl, hmem⟩ := mem_operands hc
  · exact h
  · exact (every_iff.1 h).2 c hmem

/-- What holds of every node of canonical queries, and of junctions of them, holds of what
    is joined from them. -/
theorem Every.join {p : Query → Bool} {kind : Junction} {cs : List Query}
    (hcs : ∀ c ∈ cs, c.Every p)
    (hnode : (cs.flatMap (operands kind)).length ≠ 1 →
      p (.junction kind (cs.flatMap (operands kind))) = true) : (join kind cs).Every p := by
  have hflat : ∀ c ∈ cs.flatMap (operands kind), c.Every p := by
    intro c hc
    obtain ⟨q, hq, hc⟩ := List.mem_flatMap.1 hc
    exact (hcs q hq).of_mem_operands hc
  unfold Query.join
  split
  · rename_i q hq
    -- a single operand takes the place of the junction
    exact hflat q (by rw [hq]; exact List.mem_singleton_self q)
  · rename_i flat hlong
    apply every_iff.2
    refine ⟨hnode ?_, hflat⟩
    intro hone
    obtain ⟨q, hq⟩ := List.length_eq_one_iff.1 hone
    exact hlong q hq

/-- A test that tells junctions by their children: of the right ones there are at least two,
    and none is a junction of the same kind. -/
structure TellsJunctions (p : Query → Bool) : Prop where
  junction : ∀ {kind cs}, p (.junction kind cs) = true ↔
    2 ≤ cs.length ∧ ∀ c ∈ cs, c.IsOperand kind

namespace TellsJunctions

variable {p : Query → Bool} (hp : TellsJunctions p) {kind : Junction} {cs : List Query}

include hp

theorem of_junction (h : (Query.junction kind cs).Every p) :
    2 ≤ cs.length ∧ ∀ c ∈ cs, c.IsOperand kind :=
  hp.junction.1 (every_iff.1 h).1

theorem children_ne_nil (h : (Query.junction kind cs).Every p) : cs ≠ [] := by
  have hlength := (hp.of_junction h).1
  exact List.ne_nil_of_length_pos (by omega)

theorem isOperand_of_mem_operands {q c : Query} (h : q.Every p) (hc : c ∈ q.operands kind) :
    c.IsOperand kind := by
  obtain ⟨rfl, hoperand⟩ | ⟨cs, rfl, hmem⟩ := mem_operands hc
  · exact hoperand
  · exact (hp.of_junction h).2 c hmem

theorem operands_ne_nil {q : Query} (h : q.Every p) : q.operands kind ≠ [] := by
  by_cases hoperand : q.IsOperand kind
  · rw [operands_of_isOperand hoperand]
    exact List.cons_ne_nil q []
  · obtain ⟨cs, rfl⟩ := exists_of_not_isOperand hoperand
    rw [operands, if_pos rfl]
    exact hp.children_ne_nil h

theorem flatMap_operands_ne_nil (hne : cs ≠ []) (hcs : ∀ c ∈ cs, c.Every p) :
    cs.flatMap (operands kind) ≠ [] := by
  obtain ⟨first, rest, rfl⟩ := List.exists_cons_of_ne_nil hne
  rw [List.flatMap_cons]
  exact List.append_ne_nil_of_left_ne_nil
    (hp.operands_ne_nil (hcs first List.mem_cons_self)) _

/-- Joining restores what the test asks of a junction. -/
theorem join (hne : cs ≠ []) (hcs : ∀ c ∈ cs, c.Every p) : (Query.join kind cs).Every p := by
  apply Every.join hcs
  intro hlength
  have hflat : cs.flatMap (operands kind) ≠ [] := hp.flatMap_operands_ne_nil hne hcs
  refine hp.junction.2 ⟨?_, ?_⟩
  · have hpos := List.length_pos_iff.2 hflat
    omega
  · intro c hc
    obtain ⟨q, hq, hc⟩ := List.mem_flatMap.1 hc
    exact hp.isOperand_of_mem_operands (hcs q hq) hc

end TellsJunctions

theorem tellsJunctions_isNormalNode : TellsJunctions isNormalNode where
  junction := by simp [isNormalNode]

theorem Normal.of_junction {kind : Junction} {cs : List Query} (h : (junction kind cs).Normal) :
    2 ≤ cs.length ∧ ∀ c ∈ cs, c.IsOperand kind :=
  tellsJunctions_isNormalNode.of_junction h

/-- A canonical query is joined from itself. -/
theorem Normal.join_singleton {kind : Junction} {q : Query} (h : q.Normal) : join kind [q] = q := by
  by_cases hoperand : q.IsOperand kind
  · exact Query.join_singleton hoperand
  · obtain ⟨cs, rfl⟩ := exists_of_not_isOperand hoperand
    obtain ⟨hlength, hoperands⟩ := h.of_junction
    have hflat : [junction kind cs].flatMap (operands kind) = cs.flatMap (operands kind) := by
      rw [List.flatMap_singleton, operands, if_pos rfl, flatMap_operands hoperands]
    rw [join, hflat]
    exact join_of_isOperand hoperands (by omega)

theorem Normal.join {kind : Junction} {cs : List Query} (hne : cs ≠ [])
    (hcs : ∀ c ∈ cs, c.Normal) : (join kind cs).Normal :=
  tellsJunctions_isNormalNode.join hne hcs

theorem Printable.join {kind : Junction} {cs : List Query} (hne : cs ≠ [])
    (hcs : ∀ c ∈ cs, c.Printable) (hnormal : ∀ c ∈ cs, c.Normal) : (join kind cs).Printable := by
  apply Every.join hcs
  intro _
  have hflat : cs.flatMap (operands kind) ≠ [] := 
    tellsJunctions_isNormalNode.flatMap_operands_ne_nil hne hnormal
  simpa [isPrintableNode] using hflat

/-! ### Canonical forms -/

theorem Printable.of_mem_children {q c : Query} (h : q.Printable) (hc : c ∈ q.children) :
    c.Printable := Every.of_mem_children h hc

theorem Printable.ne_nil {kind : Junction} {cs : List Query} (h : (junction kind cs).Printable) :
    cs ≠ [] := by
  have hnode := (every_iff.1 h).1
  simpa [isPrintableNode] using hnode

/-- The canonical form is canonical. -/
theorem normal_canonical {q : Query} (h : q.Printable) : q.canonical.Normal := by
  induction q using Query.induction with
  | junction kind cs ih =>
    rw [canonical, canonicalAll_eq_map]
    -- operands of the same kind are taken in, which are normal as well
    apply Normal.join
    · simpa using h.ne_nil
    · intro c hc
      obtain ⟨d, hd, rfl⟩ := List.mem_map.1 hc
      exact ih d hd (h.of_mem_children hd)
  | not c ih =>
    have hc := ih (h.of_mem_children List.mem_cons_self)
    rw [canonical]
    exact every_iff.2 ⟨rfl, List.forall_mem_singleton.2 hc⟩
  | compare leaf | call c =>
    rw [canonical]
    exact every_iff.2 ⟨rfl, by simp [children]⟩
  | group c ih =>
    rw [canonical]
    exact ih (h.of_mem_children List.mem_cons_self)
  | marked m note c ih =>
    have hc := ih (h.of_mem_children List.mem_cons_self)
    rw [canonical]
    refine every_iff.2 ⟨?_, List.forall_mem_singleton.2 hc⟩
    cases note with
    | none => rfl
    | some n => simp [isNormalNode]

/-- A canonical query is its own canonical form. -/
theorem canonical_of_normal {q : Query} (h : q.Normal) : q.canonical = q := by
  induction q using Query.induction with
  | junction kind cs ih =>
    obtain ⟨hlength, hoperands⟩ := h.of_junction
    have hmap : cs.map canonical = cs := by
      rw [List.map_congr_left fun c hc => ih c hc ((every_iff.1 h).2 c hc), List.map_id']
    rw [canonical, canonicalAll_eq_map, hmap, join_of_isOperand hoperands (by omega)]
  | not c ih =>
    have hc := ih ((every_iff.1 h).2 c List.mem_cons_self)
    rw [canonical, hc]
  | compare leaf | call c => rw [canonical]
  | group c ih =>
    have hnode := (every_iff.1 h).1
    cases hnode
  | marked m note c ih =>
    obtain ⟨hnode, hchildren⟩ := every_iff.1 h
    have hc := ih (hchildren c List.mem_cons_self)
    rw [canonical, hc]
    cases note with
    | none => rfl
    | some n =>
      -- the note has the text of what it marks, so it is written anew as it was
      have hquery : n.query = c.render := by simpa [isNormalNode] using hnode
      rw [Option.map_some, ← hquery]

end Query

end IndexQuery
