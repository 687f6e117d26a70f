import IndexQuery.Proofs.Outcome
import IndexQuery.Proofs.Query.Read

/-! # Query text read twice

    What the reader builds is a printable tree in canonical form, so that writing and
    reading it again changes nothing.

    * `Token.isLexical_scan`: the words of a text are names and its numbers are numerals.
    * `Parser.State.Sound`: what is read so far can be read back; each token keeps this.
    * `Query.readBack_of_parse`: so can the query that is read in the end.
    * `Query.roundTrip`: printed text is read back, and all text that can be read.
-/

namespace IndexQuery

/-! ## Tokens of a text -/

/-- Whether a token is one that a text can have: a word is a name, a number a numeral. -/
def TokenKind.isLexical : TokenKind → Bool
  | .word text => isName text
  | .number text => isNumeral text
  | _ => true

namespace Lexeme

theorem isLexical_symbol? {first : Char} {rest : List Char} {lexeme : Lexeme}
    (h : symbol? first rest = some lexeme) : lexeme.kind.isLexical = true := by
  unfold symbol? at h
  split at h <;> cases h <;> rfl

theorem isLexical_classifyWord {text : String} (h : isWord text = true) :
    (classifyWord text).isLexical = true := by
  unfold classifyWord
  split
  · rfl
  · rfl
  · rfl
  · rfl
  · rfl
  · simp_all [TokenKind.isLexical, isName, keywords]

/-- A number starts the same, whatever comes after it. -/
theorem startsNumber_takeWhile {first : Char} {rest : List Char}
    (h : startsNumber first rest = true) :
    startsNumber first (rest.takeWhile isNumberPart) = true := by
  cases rest with
  | nil => exact h
  | cons c rest =>
    cases hc : isNumberPart c with
    | true =>
      rw [List.takeWhile_cons_of_pos hc]
      exact h
    | false =>
      have hdigit : c.isDigit = false := by
        simp only [isNumberPart, Bool.or_eq_false_iff] at hc
        exact hc.1.1.1
      simp_all [startsNumber]

theorem isLexical_read {position : Nat} {first : Char} {rest : List Char} {lexeme : Lexeme}
    (h : read position first rest = .ok lexeme) : lexeme.kind.isLexical = true := by
  unfold read at h
  split at h
  · -- an operator or a punctuation mark
    rename_i symbol hsymbol
    cases h
    exact isLexical_symbol? hsymbol
  · split at h
    · -- quoted text, which may not end
      split at h
      · cases h
        rfl
      · cases h
    · split at h
      · -- a number
        rename_i hstart
        cases h
        simp [TokenKind.isLexical, isNumeral, startsNumber_takeWhile hstart]
      · split at h
        · -- a word
          rename_i hstart
          cases h
          apply isLexical_classifyWord
          simp [isWord, hstart]
        · cases h

end Lexeme

theorem Token.isLexical_scan {cs : List Char} {position taken : Nat} {tokens : List Token}
    (h : scan position taken cs = .ok tokens) : ∀ t ∈ tokens, t.kind.isLexical = true := by
  induction cs generalizing position taken tokens with
  | nil =>
    cases h
    simp
  | cons c cs ih =>
    rw [scan] at h
    split at h
    · exact ih h
    · split at h
      · exact ih h
      · -- a lexeme starts here
        obtain ⟨lexeme, hread, h⟩ := bind_eq_ok.1 h
        obtain ⟨rest, hrest, h⟩ := bind_eq_ok.1 h
        cases h
        exact List.forall_mem_cons.2 ⟨Lexeme.isLexical_read hread, ih hrest⟩

/-! ## What is read so far -/

/-- The queries that are read back as they are. -/
structure Query.ReadBack (q : Query) : Prop where
  printable : q.Printable
  normal : q.Normal

theorem Query.ReadBack.not {q : Query} (h : q.ReadBack) : (Query.not q).ReadBack where
  printable := every_iff.2 ⟨rfl, List.forall_mem_singleton.2 h.printable⟩
  normal := every_iff.2 ⟨rfl, List.forall_mem_singleton.2 h.normal⟩

theorem Query.ReadBack.join {kind : Junction} {qs : List Query} (hne : qs ≠ [])
    (hqs : ∀ q ∈ qs, q.ReadBack) : (join kind qs).ReadBack where
  printable := Printable.join hne (fun q hq => (hqs q hq).printable) fun q hq => (hqs q hq).normal
  normal := Normal.join hne fun q hq => (hqs q hq).normal

/-- A leaf is read back when its names and numbers are. -/
theorem Query.readBack_of_leaf {q : Query} (hleaf : q.children = [])
    (hprintable : q.isPrintableNode = true) (hnormal : q.isNormalNode = true) : q.ReadBack where
  printable := every_iff.2 ⟨hprintable, by simp [hleaf]⟩
  normal := every_iff.2 ⟨hnormal, by simp [hleaf]⟩

namespace Operand

/-- Whether an operand, if it is a query, is read back. -/
def Sound : Operand → Prop
  | .query q => q.ReadBack
  | .assignment .. => True

theorem Sound.toQuery {operand : Operand} {q : Query} (h : operand.Sound)
    (hq : operand.toQuery = .ok q) : q.ReadBack := by
  cases operand with
  | query q =>
    cases hq
    exact h
  | assignment label value => cases hq

theorem readBack_applyMarker {label value : String} {child q : Query} (h : child.ReadBack)
    (hq : applyMarker label value child = .ok q) : q.ReadBack := by
  have hmarked : ∀ m note, (decide (m = Marker.drop) == note.isSome) = true →
      (note.all fun n : DropNote => n.query = child.render) = true →
      (Query.marked m note child).ReadBack := by
    intro m note hnote hquery
    exact ⟨Query.every_iff.2 ⟨hnote, List.forall_mem_singleton.2 h.printable⟩,
      Query.every_iff.2 ⟨hquery, List.forall_mem_singleton.2 h.normal⟩⟩
  unfold applyMarker at hq
  split at hq
  · cases hq
  · -- the note of what is dropped is written anew
    cases hq
    exact hmarked .drop (some ⟨value, child.render⟩) rfl (by simp)
  · rename_i m hdrop _
    split at hq
    · cases hq
      exact hmarked m none (by simpa using hdrop) rfl
    · cases hq

theorem Sound.conjoin {operands : List Operand} {operand : Operand} (hne : operands ≠ [])
    (h : ∀ o ∈ operands, o.Sound) (hjoined : conjoin operands = .ok operand) : operand.Sound := by
  unfold Operand.conjoin at hjoined
  split at hjoined
  · cases hjoined
    exact h _ List.mem_cons_self
  · -- a marker and what it is put on
    rename_i label value child
    obtain ⟨c, hc, hjoined⟩ := bind_eq_ok.1 hjoined
    obtain ⟨q, hq, hjoined⟩ := bind_eq_ok.1 hjoined
    cases hjoined
    have hchild : child.Sound := h child (by simp)
    exact readBack_applyMarker (hchild.toQuery hc) hq
  · cases hjoined
  · obtain ⟨qs, hqs, hjoined⟩ := bind_eq_ok.1 hjoined
    cases hjoined
    have hnonempty : qs ≠ [] := by
      rintro rfl
      exact hne (List.eq_nil_of_length_eq_zero (length_of_mapM_eq_ok hqs).symm)
    apply Query.ReadBack.join hnonempty
    exact forall_of_mapM_eq_ok hqs fun o ho q hq => (h o ho).toQuery hq

end Operand

namespace Parser

/-- Whether all that a level holds is read back. -/
structure Level.Sound (level : Level) : Prop where
  disjuncts : ∀ q ∈ level.disjuncts, q.ReadBack
  conjuncts : ∀ o ∈ level.conjuncts, o.Sound

theorem Level.sound_empty : Level.Sound {} := ⟨by simp, by simp⟩

theorem Level.Sound.add {level level' : Level} {operand : Operand} (h : level.Sound)
    (hoperand : operand.Sound) (hadd : level.add operand = .ok level') :
    level'.Sound ∧ level'.conjuncts ≠ [] := by
  have hrepeat : ∀ n {q : Query}, q.ReadBack → (Nat.repeat Query.not n q).ReadBack := by
    intro n q hq
    induction n with
    | zero => exact hq
    | succ n ih => exact ih.not
  unfold Level.add at hadd
  split at hadd
  · cases hadd
    exact ⟨⟨h.disjuncts, List.forall_mem_cons.2 ⟨hoperand, h.conjuncts⟩⟩, List.cons_ne_nil _ _⟩
  · obtain ⟨q, hq, hadd⟩ := bind_eq_ok.1 hadd
    cases hadd
    have hnegated := hrepeat level.negations (hoperand.toQuery hq)
    exact ⟨⟨h.disjuncts, List.forall_mem_cons.2 ⟨hnegated, h.conjuncts⟩⟩, List.cons_ne_nil _ _⟩

theorem Level.Sound.conjoin {level : Level} {operand : Operand} (h : level.Sound)
    (hne : level.conjuncts ≠ []) (hjoined : Operand.conjoin level.conjuncts.reverse = .ok operand) :
    operand.Sound := by
  apply Operand.Sound.conjoin (by simpa using hne) _ hjoined
  intro o ho
  exact h.conjuncts o (List.mem_reverse.1 ho)

theorem Level.Sound.endConjunction {level level' : Level} (h : level.Sound)
    (hne : level.conjuncts ≠ []) (hend : level.endConjunction = .ok level') : level'.Sound := by
  obtain ⟨operand, hjoined, hend⟩ := bind_eq_ok.1 hend
  obtain ⟨q, hq, hend⟩ := bind_eq_ok.1 hend
  cases hend
  have hread := (h.conjoin hne hjoined).toQuery hq
  exact ⟨List.forall_mem_cons.2 ⟨hread, h.disjuncts⟩, by simp⟩

theorem Level.Sound.operand {level : Level} {operand : Operand} (h : level.Sound)
    (hne : level.conjuncts ≠ []) (hoperand : level.operand = .ok operand) : operand.Sound := by
  obtain ⟨last, hjoined, hoperand⟩ := bind_eq_ok.1 hoperand
  have hlast := h.conjoin hne hjoined
  split at hoperand
  · cases hoperand
    exact hlast
  · obtain ⟨q, hq, hoperand⟩ := bind_eq_ok.1 hoperand
    cases hoperand
    have hdisjuncts : ∀ r ∈ (q :: level.disjuncts).reverse, r.ReadBack := by
      intro r hr
      rcases List.mem_cons.1 (List.mem_reverse.1 hr) with rfl | hr
      · exact hlast.toQuery hq
      · exact h.disjuncts r hr
    exact Query.ReadBack.join (by simp) hdisjuncts

/-- Whether the names and arguments that a place waits with are printable. -/
def Place.Sound : Place → Prop
  | .beforeOperand | .afterAssign _ | .afterOperand => True
  | .afterWord name | .afterOperator name _ | .afterColon name => isName name = true
  | .afterFunction family name | .afterOpening family name =>
    isName family = true ∧ isName name = true
  | .afterComma family name args | .afterArgument family name args =>
    (isName family = true ∧ isName name = true) ∧ ∀ a ∈ args, a.isPrintable = true

namespace State

/-- Whether all that is read so far is read back. -/
structure Sound (s : State) : Prop where
  place : s.place.Sound
  inner : s.inner.Sound
  outer : ∀ level ∈ s.outer, level.Sound
  /-- After an operand there is one. -/
  filled : s.place = .afterOperand → s.inner.conjuncts ≠ []

theorem sound_start : Sound {} := ⟨trivial, Level.sound_empty, by simp, by simp⟩

theorem Sound.goTo {s s' : State} {place : Place} (h : s.Sound) (hs : s.goTo place = .ok s')
    (hplace : place.Sound) (hmid : place ≠ .afterOperand) : s'.Sound := by
  cases hs
  exact ⟨hplace, h.inner, h.outer, fun hafter => absurd hafter hmid⟩

theorem sound_complete {s s' : State} {operand : Operand} (hs : s.complete operand = .ok s')
    (hinner : s.inner.Sound) (houter : ∀ level ∈ s.outer, level.Sound) (hoperand : operand.Sound) :
    s'.Sound := by
  obtain ⟨level, hadd, hs⟩ := bind_eq_ok.1 hs
  cases hs
  obtain ⟨hlevel, hfilled⟩ := hinner.add hoperand hadd
  exact ⟨trivial, hlevel, houter, fun _ => hfilled⟩

theorem Sound.completeCall {s s' : State} {family name : String} {args : List Argument}
    (h : s.Sound) (hs : s.completeCall family name args = .ok s')
    (hnames : isName family = true ∧ isName name = true)
    (hargs : ∀ a ∈ args, a.isPrintable = true) : s'.Sound := by
  have hcall : (Query.call ⟨family, name, args.reverse⟩).ReadBack := by
    apply Query.readBack_of_leaf rfl _ rfl
    simpa [Query.isPrintableNode, hnames] using hargs
  exact sound_complete hs h.inner h.outer hcall

theorem Sound.readStart {s s' : State} {t : Token} (h : s.Sound) (ht : t.kind.isLexical = true)
    (hplace : s.place = .beforeOperand) (hs : s.readStart t = .ok s') : s'.Sound := by
  unfold State.readStart at hs
  split at hs
  · -- a negation is counted
    cases hs
    exact ⟨h.place, ⟨h.inner.disjuncts, h.inner.conjuncts⟩, h.outer, by simp [hplace]⟩
  · -- a parenthesis opens a level
    cases hs
    exact ⟨trivial, Level.sound_empty, List.forall_mem_cons.2 ⟨h.inner, h.outer⟩, by simp⟩
  · rename_i name hkind
    rw [hkind] at ht
    exact h.goTo hs ht (by simp)
  · cases hs

theorem Sound.readEnd {s s' : State} {t : Token} (h : s.Sound) (hplace : s.place = .afterOperand)
    (hs : s.readEnd t = .ok s') : s'.Sound := by
  have hfilled := h.filled hplace
  unfold State.readEnd at hs
  split at hs
  · exact h.goTo hs trivial (by simp)
  · obtain ⟨level, hlevel, hs⟩ := bind_eq_ok.1 hs
    cases hs
    exact ⟨trivial, h.inner.endConjunction hfilled hlevel, h.outer, by simp⟩
  · -- the level ends, and is an operand of the one around it
    obtain ⟨operand, hoperand, hs⟩ := bind_eq_ok.1 hs
    have hsound := h.inner.operand hfilled hoperand
    split at hs
    · obtain ⟨q, -, hs⟩ := bind_eq_ok.1 hs
      cases hs
    · rename_i parent outer houter
      have hlevels := h.outer
      rw [houter] at hlevels
      obtain ⟨hparent, hothers⟩ := List.forall_mem_cons.1 hlevels
      split at hs
      · exact sound_complete hs hparent hothers hsound
      · cases hs

theorem isPrintable_of_literalOf {t : Token} {literal : Literal} (ht : t.kind.isLexical = true)
    (h : literalOf t = .ok literal) : literal.isPrintable = true := by
  unfold literalOf at h
  split at h
  · cases h
    rfl
  · rename_i text hkind
    rw [hkind] at ht
    cases h
    exact ht
  · cases h
    rfl
  · cases h

theorem isPrintable_of_argumentOf {t : Token} {a : Argument} (ht : t.kind.isLexical = true)
    (h : argumentOf t = .ok a) : a.isPrintable = true := by
  unfold argumentOf at h
  split at h
  -- a name is that of a field or not, and is printed alike
  · rename_i name hkind
    rw [hkind] at ht
    have hname : isName name = true := ht
    split at h
    · rename_i hfield
      cases h
      simp [Argument.isPrintable, hname, hfield]
    · rename_i hfield
      cases h
      simp [Argument.isPrintable, hname, hfield]
  · cases h
    rfl
  · rename_i text hkind
    rw [hkind] at ht
    cases h
    exact ht
  · cases h
    rfl
  · cases h

/-- Each token keeps what is read so far. -/
theorem Sound.read {s s' : State} {t : Token} (h : s.Sound) (ht : t.kind.isLexical = true)
    (hs : s.read t = .ok s') : s'.Sound := by
  -- most tokens change the place alone; what completes an operand has it read back
  have hplace := h.place
  unfold State.read at hs
  cases hat : s.place with
  | beforeOperand =>
    rw [hat] at hs
    exact h.readStart ht hat hs
  | afterWord name =>
    rw [hat] at hs hplace
    simp only at hs
    split at hs
    · exact h.goTo hs hplace (by simp)
    · exact h.goTo hs trivial (by simp)
    · exact h.goTo hs hplace (by simp)
    · cases hs
  | afterOperator field op =>
    rw [hat] at hs hplace
    obtain ⟨literal, hliteral, hs⟩ := bind_eq_ok.1 hs
    have hleaf : (Query.compareWith op field literal).ReadBack := by
      apply Query.readBack_of_leaf rfl _ rfl
      have hprintable := isPrintable_of_literalOf ht hliteral
      have hfield : isName field = true := hplace
      simp [Query.compareWith, Query.isPrintableNode, hfield, hprintable]
    exact sound_complete hs h.inner h.outer hleaf
  | afterAssign label =>
    rw [hat] at hs
    obtain ⟨value, -, hs⟩ := bind_eq_ok.1 hs
    exact sound_complete hs h.inner h.outer trivial
  | afterColon family =>
    rw [hat] at hs hplace
    simp only at hs
    split at hs
    · rename_i name hkind
      rw [hkind] at ht
      exact h.goTo hs ⟨hplace, ht⟩ (by simp)
    · cases hs
  | afterFunction family name =>
    rw [hat] at hs hplace
    simp only at hs
    split at hs
    · exact h.goTo hs hplace (by simp)
    · cases hs
  | afterOpening family name =>
    rw [hat] at hs hplace
    simp only at hs
    split at hs
    · exact h.completeCall hs hplace (by simp)
    · obtain ⟨a, ha, hs⟩ := bind_eq_ok.1 hs
      have hprintable := isPrintable_of_argumentOf ht ha
      exact h.goTo hs ⟨hplace, List.forall_mem_singleton.2 hprintable⟩ (by simp)
  | afterComma family name args =>
    rw [hat] at hs hplace
    obtain ⟨a, ha, hs⟩ := bind_eq_ok.1 hs
    have hprintable := isPrintable_of_argumentOf ht ha
    exact h.goTo hs ⟨hplace.1, List.forall_mem_cons.2 ⟨hprintable, hplace.2⟩⟩ (by simp)
  | afterArgument family name args =>
    rw [hat] at hs hplace
    simp only at hs
    split at hs
    · exact h.goTo hs hplace (by simp)
    · exact h.completeCall hs hplace.1 hplace.2
    · cases hs
  | afterOperand =>
    rw [hat] at hs
    exact h.readEnd hat hs

theorem Sound.finish {s : State} {q : Query} (h : s.Sound) (hs : s.finish = .ok q) :
    q.ReadBack := by
  unfold State.finish at hs
  cases hat : s.place with
  | afterOperand =>
    rw [hat] at hs
    obtain ⟨operand, hoperand, hs⟩ := bind_eq_ok.1 hs
    have hsound := h.inner.operand (h.filled hat) hoperand
    split at hs
    · exact hsound.toQuery hs
    · cases hs
  | beforeOperand | afterWord name | afterOperator field op | afterAssign label | afterColon family
    | afterFunction family name | afterOpening family name | afterComma family name args
    | afterArgument family name args =>
    rw [hat] at hs
    cases hs

end State

end Parser

namespace Query

/-- What is read from any text is read back as it is. -/
theorem readBack_of_parse {text : String} {q : Query} (h : parse text = .ok q) : q.ReadBack := by
  obtain ⟨tokens, htokens, h⟩ := bind_eq_ok.1 h
  split at h
  · cases h
  · obtain ⟨s, hrun, hfinish⟩ := bind_eq_ok.1 h
    have hlexical := Token.isLexical_scan htokens
    have hsound : s.Sound :=
      foldlM_induction hrun Parser.State.sound_start fun s' t ht s'' hs' hread =>
        hs'.read (hlexical t ht) hread
    exact hsound.finish hfinish

/-- The text of a printable query is read back in its canonical form. What is read from a
    text is read again from the text of the query. -/
theorem roundTrip :
    (∀ q : Query, q.Printable → parse q.render = .ok q.canonical) ∧
      ∀ (text : String) (q : Query), parse text = .ok q → parse q.render = .ok q := by
  refine ⟨fun q h => parse_render h, ?_⟩
  intro text q h
  have hread := readBack_of_parse h
  rw [parse_render hread.printable, canonical_of_normal hread.normal]

/-! ### A query with superfluous parts -/

/-- `(FOO == 'it\'s \' && !(NUM >= -1.5))`, in a group, and a dropped clause around a
    disjunction of one child, whose note is out of date. -/
def writtenQuery : Query :=
  .junction .and
    [.group (.junction .and
        [.compareWith .eq "FOO" (.string "it's \\"), .not (.compareWith .ge "NUM" (.number "-1.5"))]),
      .marked .drop (some ⟨"no value", ""⟩) (.junction .or [.compareWith .ne "BAR" .null]),
      .call ⟨"text", "phrase", [.field "BODY", .identifier "terms", .literal (.string "é'")]⟩]

/-- What is read from its text. -/
def readQuery : Query :=
  .junction .and
    [.compareWith .eq "FOO" (.string "it's \\"), .not (.compareWith .ge "NUM" (.number "-1.5")),
      .marked .drop (some ⟨"no value", "BAR != null"⟩) (.compareWith .ne "BAR" .null),
      .call ⟨"text", "phrase", [.field "BODY", .identifier "terms", .literal (.string "é'")]⟩]

/-- Another text for the same query. -/
def readText : String :=
  "FOO==\"it's \\\\\" and (not NUM >= -1.5 && ((_Drop_ = 'no value') && BAR != NULL)) AND text:phrase(BODY,terms,\"é'\")"

theorem roundTrip_readText :
    writtenQuery.Printable ∧ parse writtenQuery.render = .ok readQuery ∧
      parse readText = .ok readQuery ∧ parse readQuery.render = .ok readQuery := by
  have hprintable : writtenQuery.Printable := by decide +kernel
  have hcanonical : writtenQuery.canonical = readQuery := by decide +kernel
  have hwritten := roundTrip.1 writtenQuery hprintable
  rw [hcanonical] at hwritten
  have htext : (parse readText).toOption = some readQuery := by decide +kernel
  have hread : parse readText = .ok readQuery := by
    cases hparse : parse readText with
    | error e =>
      rw [hparse] at htext
      cases htext
    | ok q =>
      rw [hparse] at htext
      cases htext
      rfl
  exact ⟨hprintable, hwritten, hread, roundTrip.2 readText readQuery hread⟩

end Query

end IndexQuery
