import IndexQuery.Proofs.Lookup.Front
import IndexQuery.Proofs.Regex.Levels

/-! # Accepted values start with the front

    The front of a pattern is scanned from its text, and values are matched with the
    expression that was read from it. A value that the expression accepts starts with the
    front where two conditions hold:

    * no edge of a word is scanned as a character (`LiteralFront.takesEdge`);
    * nothing that the front was read from may be left out, nor the group around the
      pattern (`Pattern.frontParts`).

    The second condition fails where a repetition is repeated, as in `ab+*`, and where the
    pattern closes the group itself, as in `a)?(b`.

    * `Pattern.fits_of_accepts`: accepted values start with the front, and are the front
      where the pattern is nothing else.
-/

namespace IndexQuery

open Regex

/-! ## What is scanned and what is read -/

namespace LiteralFront

/-- Whether the scan takes `\<` or `\>` for a character, though it asks for an edge of a
    word. -/
def takesEdge : List Char → Bool
  | [] => false
  | '\\' :: rest =>
    match rest with
    | [] => false
    | c :: rest =>
      !(Unicode.isAlphanumeric c || isOptional rest) && (c == '<' || c == '>' || takesEdge rest)
  | c :: rest => !(isMetacharacter c || isOptional rest) && takesEdge rest

/-- The text of a pattern behind its anchor, if it has one. -/
def body (pattern : List Char) : List Char :=
  if pattern.head? = some '^' then pattern.tail else pattern

/-- The anchor of a pattern, if it has one. -/
def anchor (pattern : List Char) : List Regex :=
  if pattern.head? = some '^' then [.look .textStart] else []

theorem body_subset (pattern : List Char) : body pattern ⊆ pattern := by
  unfold body
  split
  · exact (List.tail_suffix pattern).subset
  · exact List.Subset.refl _

theorem isSeq_of_mem_anchor (pattern : List Char) : ∀ r ∈ anchor pattern, r.isSeq = false := by
  unfold anchor
  split
  · exact List.forall_mem_singleton.2 rfl
  · exact fun _ => nofun

theorem ofPattern_of_not_mem {pattern : List Char} (h : '|' ∉ pattern) :
    ofPattern pattern = scan (body pattern) := by
  unfold ofPattern
  rw [if_neg (by simpa using h)]
  split
  · rfl
  · rename_i hno
    have hhead : pattern.head? ≠ some '^' := by
      intro hhead
      obtain ⟨rest, hrest⟩ := List.head?_eq_some_iff.1 hhead
      exact hno rest hrest
    rw [body, if_neg hhead]

end LiteralFront

namespace Pattern

/-- Whether the front has a character that is an edge of a word in the expression. -/
def takesEdge (p : Pattern) : Bool :=
  !p.text.toList.contains '|' && LiteralFront.takesEdge (LiteralFront.body p.text.toList)

/-- What the characters of the front were read from: the group around the pattern, which
    stands behind the first anchor, and its first parts. -/
def frontParts (p : Pattern) : List Regex :=
  if p.front.text.isEmpty then []
  else
    match p.regex.parts with
    | _ :: g :: _ =>
      g :: g.content.parts.take
        ((LiteralFront.anchor p.text.toList).length + p.front.text.length)
    | _ => []

end Pattern

section Scan

variable {table : PropertyTable} {bound : Nat} {c : Char} {cs tail : List Char} {rs : List Regex}
  {result : Nested Regex}

/-- A character without a meaning of its own is read for itself. -/
theorem readToken_plain (hmeta : isMetacharacter c = false) (hslash : c ≠ '\\') (bound : Nat) :
    readToken table Flags.initial bound c cs = some (.piece ⟨.chars (.single c), 0⟩, cs) := by
  unfold readToken
  dsimp only
  split
  case h_13 => rfl
  case h_12 => exact absurd rfl hslash
  all_goals exact absurd hmeta (by decide)

/-- A protected character is read for itself, unless it names something. -/
theorem readEscape_plain {escape : Escape} {rest : List Char}
    (hname : Unicode.isAlphanumeric c = false) (hedge : c ≠ '<' ∧ c ≠ '>')
    (h : readEscape table Flags.initial c cs = some (escape, rest)) : escape = .char c ∧ rest = cs := by
  unfold readEscape at h
  dsimp only at h
  split at h
  case h_22 => exact absurd rfl hedge.1
  case h_23 => exact absurd rfl hedge.2
  case h_24 =>
    split at h
    · cases h
      exact ⟨rfl, rfl⟩
    · cases h
  all_goals exact absurd hname (by decide)

theorem exists_of_parseFrom_escape (hname : Unicode.isAlphanumeric c = false)
    (hedge : c ≠ '<' ∧ c ≠ '>')
    (h : parseFrom table bound (opened rs) ('\\' :: c :: cs) = some result) :
    ∃ bound', parseFrom table bound' (opened (rs ++ [.chars (.single c)])) cs = some result := by
  obtain ⟨bound', t, rest, levels', htoken, hlevels, h⟩ := exists_of_parseFrom rfl h
  obtain ⟨⟨escape, _⟩, hescape, heq⟩ := Option.map_eq_some_iff.1 htoken
  obtain ⟨rfl, rfl⟩ := readEscape_plain hname hedge hescape
  cases heq
  have hread := read?_opened rs (.chars (.single c))
  cases hread.symm.trans hlevels
  exact ⟨bound', h⟩

/-- The characters of the front are read as expressions of their own. -/
theorem exists_of_parseFrom_scan (hedge : LiteralFront.takesEdge cs = false)
    (h : parseFrom table bound (opened rs) (cs ++ tail) = some result) :
    ∃ bound' rest, rest <:+ cs ∧
      ((LiteralFront.scan cs).complete = true → rest = [] ∨ rest = ['$']) ∧
      parseFrom table bound' (opened (rs ++ literals (LiteralFront.scan cs).text)) (rest ++ tail) =
        some result := by
  fun_induction LiteralFront.scan cs generalizing bound rs with
  | case1 => exact ⟨bound, [], List.suffix_rfl, fun _ => .inl rfl, by simpa [literals] using h⟩
  | case2 =>
    exact ⟨bound, _, List.suffix_rfl, nofun, by simpa [literals, LiteralFront.stop] using h⟩
  | case3 c rest hstop =>
    exact ⟨bound, _, List.suffix_rfl, nofun, by simpa [literals, LiteralFront.stop] using h⟩
  | case4 c rest hgo ih =>
    -- a protected character
    simp only [LiteralFront.takesEdge, hgo, Bool.not_false, Bool.true_and, Bool.or_eq_false_iff,
      beq_eq_false_iff_ne] at hedge
    simp only [Bool.or_eq_true, not_or, Bool.not_eq_true] at hgo
    obtain ⟨_, h⟩ := exists_of_parseFrom_escape hgo.1 hedge.1 h
    obtain ⟨bound', left, hleft, hcomplete, h⟩ := ih hedge.2 h
    rw [List.append_assoc] at h
    exact ⟨bound', left, (hleft.trans (List.suffix_cons c rest)).trans (List.suffix_cons _ _),
      hcomplete, h⟩
  | case5 c rest hc hmeta =>
    -- a character with a meaning ends the front
    refine ⟨bound, _, List.suffix_rfl, fun hcomplete => .inr ?_, by simpa [literals] using h⟩
    simp only [Bool.and_eq_true, beq_iff_eq, List.isEmpty_iff] at hcomplete
    rw [hcomplete.1, hcomplete.2]
  | case6 c rest hc hmeta hstop =>
    exact ⟨bound, _, List.suffix_rfl, nofun, by simpa [literals, LiteralFront.stop] using h⟩
  | case7 c rest hc hmeta hgo ih =>
    -- a character that stands for itself
    rw [Bool.not_eq_true] at hmeta hgo
    simp only [LiteralFront.takesEdge, hmeta, hgo, Bool.or_false, Bool.not_false,
      Bool.true_and] at hedge
    obtain ⟨_, h⟩ := exists_of_parseFrom_piece (readToken_plain hmeta hc) h
    obtain ⟨bound', left, hleft, hcomplete, h⟩ := ih hedge h
    rw [List.append_assoc] at h
    exact ⟨bound', left, hleft.trans (List.suffix_cons c rest), hcomplete, h⟩

/-- The group around a pattern is opened behind the anchor. -/
theorem exists_of_ofPattern? {text : String} {r : Regex} (h : ofPattern? table text = some r) :
    ∃ bound result, parseFrom table bound (opened []) (text.toList ++ [')', '$']) = some result ∧
      result.value = r := by
  obtain ⟨hparse, -⟩ := Option.filter_eq_some_iff.1 h
  obtain ⟨result, hresult, rfl⟩ := Option.map_eq_some_iff.1 hparse
  obtain ⟨hread, -⟩ := Option.filter_eq_some_iff.1 hresult
  obtain ⟨_, _, _, _, htoken, hlevels, hread⟩ := exists_of_parseFrom rfl hread
  cases htoken
  cases hlevels
  obtain ⟨_, _, _, _, htoken, hlevels, hread⟩ := exists_of_parseFrom rfl hread
  cases htoken
  cases hlevels
  exact ⟨_, result, hread, rfl⟩

/-- An anchor before the pattern is an expression of its own. -/
theorem exists_of_parseFrom_anchor {pattern : List Char}
    (h : parseFrom table bound (opened []) (pattern ++ tail) = some result) :
    ∃ bound', parseFrom table bound' (opened (LiteralFront.anchor pattern))
      (LiteralFront.body pattern ++ tail) = some result := by
  unfold LiteralFront.anchor LiteralFront.body
  by_cases hhead : pattern.head? = some '^'
  · obtain ⟨rest, rfl⟩ := List.head?_eq_some_iff.1 hhead
    exact exists_of_parseFrom_piece (fun _ => rfl) h
  · rw [if_neg hhead, if_neg hhead]
    exact ⟨bound, h⟩

end Scan

/-! ## What fits -/

section Fits

variable {text cs : List Char} {i j : Nat}

/-- What the front was read from fits only where the front stands. -/
theorem eq_append_of_spansAll (pattern : List Char)
    (h : SpansAll text (LiteralFront.anchor pattern ++ literals cs) 0 j) :
    text = cs ++ text.drop j := by
  obtain ⟨k, hanchor, hcs⟩ := spansAll_append h
  have hk : k = 0 := by
    unfold LiteralFront.anchor at hanchor
    split at hanchor
    · obtain ⟨l, hlook, rfl⟩ := hanchor
      exact (eq_zero_of_textStart hlook).2
    · exact hanchor.symm
  rw [hk] at hcs
  exact spansAll_literals hcs

/-- A pattern that is nothing but its front fits nothing else. -/
theorem eq_of_spans {more : List Regex} (pattern : List Char)
    (hmore : more = [] ∨ more = [.look .textEnd])
    (h : (ofSeq [.look .textStart,
      .group none (ofSeq (LiteralFront.anchor pattern ++ literals cs ++ more)),
      .look .textEnd]).Spans text i j) : text = cs := by
  obtain ⟨_, hstart, k, hgroup, l, hend, -⟩ := spansAll_of_ofSeq h
  obtain ⟨rfl, rfl⟩ := eq_zero_of_textStart hstart
  obtain ⟨m, hfront, hrest⟩ := spansAll_append (spansAll_of_ofSeq hgroup)
  have hm : m = k := by
    rcases hmore with rfl | rfl
    · exact hrest
    · obtain ⟨_, hlook, rfl⟩ := hrest
      exact hlook.2
  rw [eq_append_of_spansAll pattern hfront, hm, drop_of_textEnd hend, List.append_nil]

/-- Where the group around the pattern and the last part of the front have to occur, a text
    that fits starts with the front. -/
theorem prefix_of_spans {g r : Regex} {number : Option Nat} {more rest : List Regex} {c : Char}
    (pattern : List Char)
    (hg : g.bare = .group number (ofSeq (LiteralFront.anchor pattern ++ literals cs ++ r :: more)))
    (hr : r.bare = .chars (.single c)) (hgroup : g.isOptional = false)
    (hlast : r.isOptional = false)
    (h : (ofSeq (.look .textStart :: g :: rest)).Spans text i j) : cs ++ [c] <+: text := by
  obtain ⟨_, hstart, k, hspans, -⟩ := spansAll_of_ofSeq h
  obtain ⟨rfl, rfl⟩ := eq_zero_of_textStart hstart
  obtain ⟨l, hbare⟩ := exists_spans_bare hgroup hspans
  rw [hg] at hbare
  obtain ⟨m, hfront, n, hpart, -⟩ := spansAll_append (spansAll_of_ofSeq hbare)
  obtain ⟨_, hchar⟩ := exists_spans_bare hlast hpart
  rw [hr] at hchar
  obtain ⟨hm, hc⟩ := List.getElem?_eq_some_iff.1 (spans_single_iff.1 hchar).1
  refine ⟨text.drop (m + 1), ?_⟩
  rw [List.append_assoc, List.singleton_append, ← hc, ← List.drop_eq_getElem_cons hm]
  exact (eq_append_of_spansAll pattern hfront).symm

end Fits

namespace Pattern

variable {p : Pattern} {value : String}

/-- The group around the pattern and the last part that the front was read from. -/
theorem mem_frontParts {g r : Regex} {number : Option Nat} {more rest : List Regex} {c : Char}
    {cs : List Char} (hfront : p.front.text = cs ++ [c])
    (hregex : p.regex = ofSeq (.look .textStart :: g :: rest))
    (hg : g.bare = .group number
      (ofSeq (LiteralFront.anchor p.text.toList ++ literals cs ++ r :: more)))
    (hr : r.bare = .chars (.single c)) : g ∈ p.frontParts ∧ r ∈ p.frontParts := by
  have hgroup : g.isSeq = false := not_isSeq_of_bare (hg ▸ rfl)
  have hlast : r.isSeq = false := not_isSeq_of_bare (hr ▸ rfl)
  have hseq : ∀ part ∈ [.look .textStart, g], part.isSeq = false :=
    List.forall_mem_cons.2 ⟨rfl, List.forall_mem_singleton.2 hgroup⟩
  obtain ⟨behind, hbehind⟩ := prefix_parts_ofSeq hseq rest
  -- the group is the second part of the pattern, behind the anchor
  have hparts : p.regex.parts = .look .textStart :: g :: behind := by
    rw [hregex]
    exact hbehind.symm
  have hcontent : g.content =
      ofSeq ((LiteralFront.anchor p.text.toList ++ literals cs ++ [r]) ++ more) := by
    rw [content, hg, List.append_assoc _ [r], List.singleton_append]
  have hinner : ∀ part ∈ LiteralFront.anchor p.text.toList ++ literals cs ++ [r],
      part.isSeq = false :=
    List.forall_mem_append.2 ⟨List.forall_mem_append.2
      ⟨LiteralFront.isSeq_of_mem_anchor _, isSeq_of_mem_literals cs⟩,
      List.forall_mem_singleton.2 hlast⟩
  -- its content begins with the anchor and the literals of the front
  have htake := List.prefix_iff_eq_take.1 (prefix_parts_ofSeq hinner more)
  have hlength : (LiteralFront.anchor p.text.toList ++ literals cs ++ [r]).length =
      (LiteralFront.anchor p.text.toList).length + p.front.text.length := by
    simp [hfront, literals]
  rw [frontParts, if_neg (by simp [hfront]), hparts]
  refine ⟨List.mem_cons_self, List.mem_cons_of_mem _ ?_⟩
  rw [hcontent, ← hlength, ← htake]
  simp

/-- The expression is read from behind the front on. -/
theorem exists_parseFrom_front (hbar : '|' ∉ p.text.toList) (hedge : p.takesEdge = false) :
    ∃ table bound left result, '|' ∉ left ++ [')', '$'] ∧
      (p.front.complete = true → left = [] ∨ left = ['$']) ∧
      parseFrom table bound (opened (LiteralFront.anchor p.text.toList ++ literals p.front.text))
        (left ++ [')', '$']) = some result ∧ result.value = p.regex := by
  have hfront : p.front = LiteralFront.scan (LiteralFront.body p.text.toList) :=
    LiteralFront.ofPattern_of_not_mem hbar
  have hscan : LiteralFront.takesEdge (LiteralFront.body p.text.toList) = false := by
    simpa [takesEdge, hbar] using hedge
  obtain ⟨table, hcompiled⟩ := p.compiled
  obtain ⟨_, result, hread, hresult⟩ := exists_of_ofPattern? hcompiled
  obtain ⟨_, hread⟩ := exists_of_parseFrom_anchor hread
  obtain ⟨bound, left, hleft, hcomplete, hread⟩ := exists_of_parseFrom_scan hscan hread
  rw [← hfront] at hcomplete hread
  refine ⟨table, bound, left, result, ?_, hcomplete, hread, hresult⟩
  intro hmem
  rcases List.mem_append.1 hmem with hmem | hmem
  · exact hbar (LiteralFront.body_subset _ (hleft.subset hmem))
  · revert hmem
    decide

/-- A pattern that is nothing but its front accepts nothing else. -/
theorem eq_of_accepts (hbar : '|' ∉ p.text.toList) (hedge : p.takesEdge = false)
    (hcomplete : p.front.complete = true) (h : p.accepts value = true) :
    value.toList = p.front.text := by
  obtain ⟨i, j, hspans⟩ := spans_of_isMatch h
  obtain ⟨_, _, left, result, -, hleft, hread, hresult⟩ := exists_parseFrom_front hbar hedge
  rw [← hresult] at hspans
  rcases hleft hcomplete with rfl | rfl
  · rw [value_of_parseFrom hread, ← List.append_nil (_ ++ _)] at hspans
    exact eq_of_spans _ (.inl rfl) hspans
  · -- the anchor at the end is an expression of its own
    obtain ⟨_, hread⟩ := exists_of_parseFrom_piece (fun _ => rfl) hread
    rw [value_of_parseFrom hread] at hspans
    exact eq_of_spans _ (.inr rfl) hspans

/-- Where nothing that the front was read from may be left out, what a pattern accepts starts
    with the front. -/
theorem prefix_of_accepts (hbar : '|' ∉ p.text.toList) (hedge : p.takesEdge = false)
    (hparts : ∀ r ∈ p.frontParts, r.isOptional = false) (h : p.accepts value = true) :
    p.front.text <+: value.toList := by
  obtain ⟨i, j, hspans⟩ := spans_of_isMatch h
  obtain ⟨_, _, left, result, hleft, -, hread, hresult⟩ := exists_parseFrom_front hbar hedge
  rcases List.eq_nil_or_concat p.front.text with hnil | ⟨cs, c, htext⟩
  · rw [hnil]
    exact List.nil_prefix
  · -- what follows the front may repeat the last character of it
    rw [List.concat_eq_append] at htext
    have hlast : literals p.front.text = literals cs ++ [.chars (.single c)] := by
      simp [htext, literals]
    rw [hlast, ← List.append_assoc] at hread
    obtain ⟨g, number, r, more, rest, hvalue, hg, hr⟩ := beginning_of_parseFrom hleft hread
    obtain ⟨hgroup, hrepeated⟩ := mem_frontParts htext (hresult ▸ hvalue) hg hr
    rw [← hresult, hvalue] at hspans
    rw [htext]
    exact prefix_of_spans _ hg hr (hparts g hgroup) (hparts r hrepeated) hspans

/-- A value that a pattern accepts starts with the front, and is the front where the
    pattern is nothing else, provided that the front has no edge of a word and that nothing
    which it was read from may be left out. -/
theorem fits_of_accepts (hedge : p.takesEdge = false)
    (hparts : ∀ r ∈ p.frontParts, r.isOptional = false) (h : p.accepts value = true) :
    p.front.Fits value := by
  by_cases hbar : '|' ∈ p.text.toList
  · -- a pattern with alternatives has no front
    have hstop : p.front = .stop := if_pos (by simpa using hbar)
    rw [hstop]
    exact List.nil_prefix
  · unfold LiteralFront.Fits
    split
    · rename_i hcomplete
      exact eq_of_accepts hbar hedge hcomplete h
    · exact prefix_of_accepts hbar hedge hparts h

/-! ### A pattern that closes the group -/

/-- A pattern whose front is read from an anchor, a protected character and a repetition. -/
def anchoredPattern : Pattern where
  text := "^a\\.b+c?"
  regex := (ofPattern? CharSet.ofProperty? "^a\\.b+c?").get (by decide +kernel)
  compiled := ⟨CharSet.ofProperty?, (Option.some_get _).symm⟩

theorem fits_of_accepts_anchoredPattern :
    anchoredPattern.takesEdge = false ∧ (∀ r ∈ anchoredPattern.frontParts, r.isOptional = false) ∧
      anchoredPattern.accepts "a.bb" = true ∧ anchoredPattern.front.Fits "a.bb" := by
  have hedge : anchoredPattern.takesEdge = false := by decide +kernel
  have hparts : ∀ r ∈ anchoredPattern.frontParts, r.isOptional = false := by decide +kernel
  have haccepts : anchoredPattern.accepts "a.bb" = true := by
    rw [accepts, isMatch_eq]
    decide +kernel
  exact ⟨hedge, hparts, haccepts, fits_of_accepts hedge hparts haccepts⟩

/-- The pattern `a)?(b`. With the parentheses that are put around it, it stands for two
    groups of which the first one may be left out. -/
def splitPattern : Pattern where
  text := "a)?(b"
  regex := (ofPattern? CharSet.ofProperty? "a)?(b").get (by decide +kernel)
  compiled := ⟨CharSet.ofProperty?, (Option.some_get _).symm⟩

/-- That pattern accepts `b`, though its front is `a`. -/
theorem not_forall_fits_of_accepts :
    ¬ ∀ (p : Pattern) (value : String), p.accepts value = true → p.front.Fits value := by
  intro hall
  have haccepts : splitPattern.accepts "b" = true := by
    rw [accepts, isMatch_eq]
    decide +kernel
  exact absurd (hall splitPattern "b" haccepts) (by decide +kernel)

end Pattern

end IndexQuery
