import IndexQuery.Proofs.Query.Scan

/-! # Reading written text

    The reader goes from left to right over the tokens that a query is written from, and
    comes back to the canonical form of the query. What it has read so far stands in the
    levels, so that each part of a text is read for any levels around it.

    * `Parser.State.Reads`: the tokens that lead from one state to another.
    * `Parser.Reread`: a query is read back as an operand and on a level of its own.
    * `Query.parse_render`: the text of a printable query is read back.
-/

namespace IndexQuery

namespace Parser

/-! ## Runs -/

namespace State

/-- Whether tokens of the given kinds lead from one state to another. -/
def Reads (kinds : List TokenKind) (s s' : State) : Prop :=
  ∀ tokens : List Token, tokens.map Token.kind = kinds → tokens.foldlM read s = .ok s'

variable {kinds kinds' : List TokenKind} {s s' s'' : State}

theorem reads_nil : Reads [] s s := by
  intro tokens h
  rw [List.map_eq_nil_iff] at h
  subst h
  rfl

theorem Reads.cons {kind : TokenKind} (h : Reads kinds s' s'')
    (hread : ∀ position, s.read ⟨kind, position⟩ = .ok s') : Reads (kind :: kinds) s s'' := by
  intro tokens hkinds
  obtain ⟨token, rest, rfl, hkind, hrest⟩ := List.map_eq_cons_iff.1 hkinds
  obtain ⟨kind, position⟩ := token
  cases hkind
  rw [List.foldlM_cons, hread position]
  exact h rest hrest

theorem Reads.append (h : Reads kinds s s') (h' : Reads kinds' s' s'') :
    Reads (kinds ++ kinds') s s'' := by
  intro tokens hkinds
  obtain ⟨first, second, rfl, hfirst, hsecond⟩ := List.map_eq_append_iff.1 hkinds
  rw [List.foldlM_append, h first hfirst]
  exact h' second hsecond

/-- The state before an operand. -/
def before (inner : Level) (outer : List Level) : State := ⟨.beforeOperand, inner, outer⟩

/-- The state after an operand. -/
def after (inner : Level) (outer : List Level) : State := ⟨.afterOperand, inner, outer⟩

end State

open State

/-! ## Levels -/

namespace Level

/-- The level with one more query, which takes the negations before it. -/
def push (level : Level) (q : Query) : Level :=
  { level with
    conjuncts := .query (Nat.repeat Query.not level.negations q) :: level.conjuncts
    negations := 0 }

theorem add_query (level : Level) (q : Query) : level.add (.query q) = .ok (level.push q) := by
  obtain ⟨disjuncts, conjuncts, negations⟩ := level
  cases negations <;> rfl

end Level

theorem complete_query (s : State) (q : Query) :
    s.complete (.query q) = .ok (after (s.inner.push q) s.outer) := by
  rw [State.complete, Level.add_query]
  rfl

/-! ## Parentheses -/

/-- Whether tokens, on a level of their own, are read as an operand. -/
def Body (kinds : List TokenKind) (operand : Operand) : Prop :=
  ∀ outer, ∃ level, Reads kinds (before {} outer) (after level outer) ∧ level.operand = .ok operand

/-- What is read wherever an operand can stand is read on a level of its own. -/
theorem body_of_reads {kinds : List TokenKind} {q : Query}
    (h : ∀ inner outer, Reads kinds (before inner outer) (after (inner.push q) outer)) :
    Body kinds (.query q) := by
  intro outer
  exact ⟨_, h {} outer, rfl⟩

theorem Body.reads_inParens {kinds : List TokenKind} {operand : Operand} {inner inner' : Level}
    (h : Body kinds operand) (hadd : inner.add operand = .ok inner') (outer : List Level) :
    Reads (inParens kinds) (before inner outer) (after inner' outer) := by
  obtain ⟨level, hreads, hoperand⟩ := h (inner :: outer)
  have hclose : ∀ position, (after level (inner :: outer)).read ⟨.closeParen, position⟩ =
      .ok (after inner' outer) := by
    intro position
    simp [State.read, State.readEnd, after, hoperand, State.complete, hadd, bind, Except.bind, pure,
      Except.pure]
  exact (hreads.append (reads_nil.cons hclose)).cons fun _ => rfl

/-! ## Leaves -/

theorem literalOf_token (literal : Literal) (position : Nat) :
    literalOf ⟨literal.token, position⟩ = .ok literal := by
  cases literal <;> rfl

theorem argumentOf_token {a : Argument} (h : a.isPrintable = true) (position : Nat) :
    argumentOf ⟨a.token, position⟩ = .ok a := by
  cases a with
  | field name =>
    rw [Argument.isPrintable, Bool.and_eq_true] at h
    simp [argumentOf, Argument.token, h.2]
  | identifier name =>
    rw [Argument.isPrintable, Bool.and_eq_true, Bool.not_eq_true'] at h
    simp [argumentOf, Argument.token, h.2]
  | literal value => cases value <;> rfl

theorem reads_comparison (leaf : Comparison) (inner : Level) (outer : List Level) :
    Reads [.word leaf.field, .op leaf.op, leaf.literal.token] (before inner outer)
      (after (inner.push (.compare leaf)) outer) := by
  have hliteral : ∀ position, State.read ⟨.afterOperator leaf.field leaf.op, inner, outer⟩
      ⟨leaf.literal.token, position⟩ = .ok (after (inner.push (.compare leaf)) outer) := by
    intro position
    simp only [State.read, literalOf_token, bind, Except.bind]
    exact complete_query _ _
  exact ((reads_nil.cons hliteral).cons fun _ => rfl).cons fun _ => rfl

/-- The arguments of a call from one on, before which others are `done`. -/
theorem reads_arguments {family name : String} {inner : Level} {outer : List Level} {a : Argument}
    {rest done : List Argument} {place : Place}
    (hrest : ∀ b ∈ rest, b.isPrintable = true)
    (hread : ∀ position, State.read ⟨place, inner, outer⟩ ⟨a.token, position⟩ =
      .ok ⟨.afterArgument family name (a :: done), inner, outer⟩) :
    Reads ([TokenKind.comma].intercalate ((a :: rest).map fun a => [a.token]) ++ [.closeParen])
      ⟨place, inner, outer⟩
      (after (inner.push (.call ⟨family, name, done.reverse ++ a :: rest⟩)) outer) := by
  induction rest generalizing a done place with
  | nil =>
    -- arguments are kept in reverse until the call is complete
    have hclose : ∀ position, State.read ⟨.afterArgument family name (a :: done), inner, outer⟩
        ⟨.closeParen, position⟩ =
        .ok (after (inner.push (.call ⟨family, name, done.reverse ++ [a]⟩)) outer) := by
      intro position
      rw [← List.reverse_cons]
      exact complete_query _ _
    exact (reads_nil.cons hclose).cons hread
  | cons b rest ih =>
    have hnext : ∀ position, State.read ⟨.afterComma family name (a :: done), inner, outer⟩
        ⟨b.token, position⟩ = .ok ⟨.afterArgument family name (b :: a :: done), inner, outer⟩ := by
      intro position
      simp only [State.read, argumentOf_token (hrest b List.mem_cons_self), bind, Except.bind]
      rfl
    have hothers := ih (fun c hc => hrest c (List.mem_cons_of_mem b hc)) hnext
    have hcomma : Reads (.comma :: _) ⟨.afterArgument family name (a :: done), inner, outer⟩ _ :=
      hothers.cons fun _ => rfl
    simpa [List.intercalate_cons_cons] using hcomma.cons hread

theorem reads_call {c : Call} (hargs : ∀ a ∈ c.args, a.isPrintable = true) (inner : Level)
    (outer : List Level) :
    Reads c.tokens (before inner outer) (after (inner.push (.call c)) outer) := by
  obtain ⟨family, name, args⟩ := c
  have hlist : Reads ([TokenKind.comma].intercalate (args.map fun a => [a.token]) ++ [.closeParen])
      ⟨.afterOpening family name, inner, outer⟩
      (after (inner.push (.call ⟨family, name, args⟩)) outer) := by
    cases args with
    | nil => exact reads_nil.cons fun _ => complete_query _ _
    | cons a args =>
      -- the first argument stands behind the parenthesis, the others behind commas
      have hfirst : ∀ position, State.read ⟨.afterOpening family name, inner, outer⟩
          ⟨a.token, position⟩ = .ok ⟨.afterArgument family name [a], inner, outer⟩ := by
        intro position
        have ha := argumentOf_token (hargs a List.mem_cons_self) position
        have hopen : a.token ≠ .closeParen := by
          cases a with
          | field name | identifier name => simp [Argument.token]
          | literal value => cases value <;> simp [Argument.token, Literal.token]
        simp only [State.read, if_neg hopen, ha, bind, Except.bind]
        rfl
      exact reads_arguments (fun b hb => hargs b (List.mem_cons_of_mem a hb)) hfirst
  exact (((hlist.cons fun _ => rfl).cons fun _ => rfl).cons fun _ => rfl).cons fun _ => rfl

/-! ## Junctions -/

/-- A level of children of a junction that are `done`, the last one first. -/
def Level.holding (kind : Junction) (done : List Query) : Level :=
  match kind with
  | .and => { conjuncts := done.map .query }
  | .or => { disjuncts := done }

theorem read_separator (kind : Junction) (done : List Query) (q : Query) (outer : List Level)
    (position : Nat) :
    State.read (after ((Level.holding kind done).push q) outer) ⟨kind.token, position⟩ =
      .ok (before (.holding kind (q :: done)) outer) := by
  cases kind <;> rfl

theorem mapM_toQuery (qs : List Query) : (qs.map Operand.query).mapM Operand.toQuery = .ok qs := by
  induction qs with
  | nil => rfl
  | cons q qs ih =>
    rw [List.map_cons, List.mapM_cons, ih]
    rfl

/-- Canonical queries are conjoined as they are joined. -/
theorem conjoin_map_query {qs : List Query} (hne : qs ≠ []) (hnormal : ∀ q ∈ qs, q.Normal) :
    Operand.conjoin (qs.map .query) = .ok (.query (.conj qs)) := by
  match qs with
  | [q] =>
    rw [Query.conj, (hnormal q List.mem_cons_self).join_singleton]
    rfl
  | q :: r :: qs =>
    have hqueries := mapM_toQuery (q :: r :: qs)
    simp only [List.map_cons] at hqueries ⊢
    simp only [Operand.conjoin, hqueries, bind, Except.bind]
    rfl

theorem operand_holding {kind : Junction} {done : List Query} {q : Query} (hq : q.Normal)
    (hdone : ∀ r ∈ done, r.Normal) :
    ((Level.holding kind done).push q).operand =
      .ok (.query (.join kind (done.reverse ++ [q]))) := by
  cases kind with
  | and =>
    -- what is held of a conjunction are queries, with no assignment among them
    have hqs : ∀ r ∈ done.reverse ++ [q], r.Normal := by
      simpa [or_imp, forall_and] using ⟨hdone, hq⟩
    have hconjoin := conjoin_map_query (by simp) hqs
    have hreverse : ((Level.holding .and done).push q).conjuncts.reverse =
        (done.reverse ++ [q]).map Operand.query := by
      simp [Level.holding, Level.push, Nat.repeat]
    rw [Level.operand, hreverse, hconjoin]
    rfl
  | or =>
    cases done with
    | nil =>
      rw [List.reverse_nil, List.nil_append, hq.join_singleton]
      rfl
    | cons r done =>
      rw [← List.reverse_cons]
      rfl

/-! ## Queries -/

/-- Whether a query is read back in its canonical form. -/
structure Reread (q : Query) : Prop where
  operand : ∀ inner outer,
    Reads q.operandTokens (before inner outer) (after (inner.push q.canonical) outer)
  body : ∀ outer, Body (q.tokensWith outer) (.query q.canonical)

theorem reads_operands (kind : Junction) {cs : List Query} (done : List Query) {outer : List Level}
    (hne : cs ≠ [])
    (hcs : ∀ c ∈ cs, Reread c ∧ c.canonical.Normal) (hdone : ∀ q ∈ done, q.Normal) :
    ∃ level, Reads ([kind.token].intercalate (cs.map Query.operandTokens))
        (before (.holding kind done) outer) (after level outer) ∧
      level.operand = .ok (.query (.join kind (done.reverse ++ cs.map Query.canonical))) := by
  induction cs generalizing done with
  | nil => exact absurd rfl hne
  | cons c cs ih =>
    obtain ⟨hc, hnormal⟩ := hcs c List.mem_cons_self
    have hpush := hc.operand (.holding kind done) outer
    -- the last operand ends the level, any other has a separator behind it
    cases cs with
    | nil =>
      refine ⟨_, ?_, operand_holding hnormal hdone⟩
      simpa using hpush
    | cons d cs =>
      obtain ⟨level, hreads, hoperand⟩ := ih (c.canonical :: done) (by simp)
        (fun e he => hcs e (List.mem_cons_of_mem c he)) (List.forall_mem_cons.2 ⟨hnormal, hdone⟩)
      refine ⟨level, ?_, ?_⟩
      · have hjoined := hpush.append (hreads.cons (read_separator kind done c.canonical outer))
        simpa [List.intercalate_cons_cons] using hjoined
      · rw [hoperand]
        simp

theorem reread_of_reads {q : Query} (hjunction : q.isJunction = false)
    (htokens : ∀ outer, q.tokensWith outer = q.tokensWith true)
    (h : ∀ inner outer,
      Reads (q.tokensWith true) (before inner outer) (after (inner.push q.canonical) outer)) :
    Reread q where
  operand inner outer := by
    rw [Query.operandTokens, if_neg (by simp [hjunction])]
    exact h inner outer
  body outer := by
    rw [htokens]
    exact body_of_reads h

theorem Reread.reads_inParens {q : Query} (h : Reread q) (shown : Bool) (inner : Level)
    (outer : List Level) :
    Reads (inParens (q.tokensWith shown)) (before inner outer)
      (after (inner.push q.canonical) outer) :=
  (h.body shown).reads_inParens (Level.add_query inner q.canonical) outer

theorem reread_junction {kind : Junction} {cs : List Query} (hne : cs ≠ [])
    (hcs : ∀ c ∈ cs, Reread c ∧ c.canonical.Normal) : Reread (.junction kind cs) := by
  have hbody : ∀ shown, Body ((Query.junction kind cs).tokensWith shown)
      (.query (Query.junction kind cs).canonical) := by
    intro shown outer
    obtain ⟨level, hreads, hoperand⟩ := reads_operands kind [] hne hcs (by simp)
    rw [Query.tokensWith, Query.tokensOfOperands_eq_map, Query.canonical, Query.canonicalAll_eq_map]
    rw [show Level.holding kind [] = {} by cases kind <;> rfl] at hreads
    exact ⟨level, hreads, hoperand⟩
  refine ⟨?_, hbody⟩
  intro inner outer
  exact (hbody true).reads_inParens (Level.add_query inner _) outer

/-- Negations are counted before what they negate. -/
theorem push_not (inner : Level) (q : Query) :
    Level.push { inner with negations := inner.negations + 1 } q = inner.push (.not q) := by
  have hrepeat : ∀ n, Nat.repeat Query.not (n + 1) q = Nat.repeat Query.not n (.not q) := by
    intro n
    induction n with
    | zero => rfl
    | succ n ih => rw [Nat.repeat, ih, Nat.repeat]
  rw [Level.push, hrepeat]
  rfl

/-- The text that a marker is assigned. -/
def markerText (note : Option DropNote) : String := (note.map (·.reason)).getD "true"

theorem body_assignment (m : Marker) (note : Option DropNote) :
    Body [.word m.label, .assign, markerToken note] (.assignment m.label (markerText note)) := by
  intro outer
  refine ⟨{ conjuncts := [.assignment m.label (markerText note)] }, ?_, rfl⟩
  have hvalue : ∀ position, State.read ⟨.afterAssign m.label, {}, outer⟩
      ⟨markerToken note, position⟩ =
      .ok (after { conjuncts := [.assignment m.label (markerText note)] } outer) := by
    intro position
    cases note <;> rfl
  exact ((reads_nil.cons hvalue).cons fun _ => rfl).cons fun _ => rfl

/-- A marker with the note that belongs to it is put back. -/
theorem applyMarker_label {m : Marker} {note : Option DropNote}
    (h : (decide (m = .drop) == note.isSome) = true) (q : Query) :
    Operand.applyMarker m.label (markerText note) q =
      .ok (.marked m (note.map fun n => { n with query := q.render }) q) := by
  rw [Operand.applyMarker, Marker.ofLabel?_label]
  cases note with
  | none =>
    have hm : m ≠ .drop := by simpa using h
    cases m <;> first | rfl | exact absurd rfl hm
  | some n =>
    have hm : m = .drop := by simpa using h
    subst hm
    rfl

theorem body_marked {m : Marker} {note : Option DropNote} {q : Query}
    (hnote : (decide (m = .drop) == note.isSome) = true) (hq : Reread q) :
    Body (inParens [.word m.label, .assign, markerToken note] ++ .and :: inParens (q.tokensWith false))
      (.query (Query.marked m note q).canonical) := by
  intro outer
  have hassignment : Reads (inParens [.word m.label, .assign, markerToken note]) (before {} outer)
      (after { conjuncts := [.assignment m.label (markerText note)] } outer) :=
    (body_assignment m note).reads_inParens rfl outer
  have hchild := hq.reads_inParens false
    { conjuncts := [.assignment m.label (markerText note)] } outer
  refine ⟨_, hassignment.append (hchild.cons fun _ => rfl), ?_⟩
  have hmarked := applyMarker_label hnote q.canonical
  show Level.operand { conjuncts := [.query q.canonical, .assignment m.label (markerText note)] } = _
  simp [Level.operand, Operand.conjoin, Operand.toQuery, hmarked, Query.canonical, bind, Except.bind,
    pure, Except.pure]

theorem reread {q : Query} (h : q.Printable) : Reread q := by
  induction q using Query.induction with
  | junction kind cs ih =>
    apply reread_junction h.ne_nil
    intro c hc
    have hprintable := h.of_mem_children hc
    exact ⟨ih c hc hprintable, Query.normal_canonical hprintable⟩
  | not c ih =>
    apply reread_of_reads rfl fun _ => rfl
    intro inner outer
    have hchild := (ih (h.of_mem_children List.mem_cons_self)).reads_inParens false
      { inner with negations := inner.negations + 1 } outer
    rw [push_not] at hchild
    exact hchild.cons fun _ => rfl
  | compare leaf =>
    apply reread_of_reads rfl fun _ => rfl
    exact reads_comparison leaf
  | call c =>
    apply reread_of_reads rfl fun _ => rfl
    have hnode := (Query.every_iff.1 h).1
    simp only [Query.isPrintableNode, Bool.and_eq_true, List.all_eq_true] at hnode
    exact reads_call hnode.2
  | group c ih =>
    -- the parentheses of a group are not shown beneath other ones
    have hchild := ih (h.of_mem_children List.mem_cons_self)
    refine ⟨hchild.reads_inParens true, ?_⟩
    intro shown
    cases shown with
    | true => exact body_of_reads (hchild.reads_inParens true)
    | false => exact hchild.body false
  | marked m note c ih =>
    apply reread_of_reads rfl fun _ => rfl
    have hbody := body_marked (Query.every_iff.1 h).1 (ih (h.of_mem_children List.mem_cons_self))
    intro inner outer
    exact hbody.reads_inParens (Level.add_query inner _) outer

end Parser

/-- The text of a printable query is read back in its canonical form. -/
theorem Query.parse_render {q : Query} (h : q.Printable) : parse q.render = .ok q.canonical := by
  obtain ⟨tokens, hscan, hkinds⟩ := spells_render h 0
  obtain ⟨level, hreads, hoperand⟩ := (Parser.reread h).body true []
  have hrun : tokens.foldlM Parser.State.read {} = .ok (Parser.State.after level []) :=
    hreads tokens hkinds
  have hne : tokens.isEmpty = false := by
    cases tokens with
    | nil => cases hrun
    | cons token tokens => rfl
  have hfinish : (Parser.State.after level []).finish = .ok q.canonical := by
    simp [Parser.State.finish, Parser.State.after, hoperand, Operand.toQuery, bind, Except.bind]
  rw [parse, Token.ofText, hscan]
  simp [hne, hrun, hfinish, bind, Except.bind]

end IndexQuery
