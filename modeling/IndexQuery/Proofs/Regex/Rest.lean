import IndexQuery.Regex.Token

/-! # What readers leave

    The readers of a pattern take characters off its front. What they leave is an end of
    the text that they were given, so that no reader invents a character.

    * `readToken_suffix`: what is left behind a token.
    * `eq_of_readToken_bar`: only a bar is read as a bar.
-/

namespace IndexQuery.Regex

section Readers

variable {table : PropertyTable} {verbose : Bool} {flags : Flags} {c : Char} {cs rest : List Char}

theorem suffix_of_cons (h : c :: rest <:+ cs) : rest <:+ cs := (List.suffix_cons c rest).trans h

/-- What is left does not depend on how the item before it is understood. -/
theorem exists_of_map {α β : Type} {read : Option (α × List Char)}
    {f : α × List Char → β × List Char} {b : β} (hf : ∀ a left, (f (a, left)).2 = left)
    (h : read.map f = some (b, rest)) : ∃ a, read = some (a, rest) := by
  obtain ⟨⟨a, left⟩, hread, heq⟩ := Option.map_eq_some_iff.1 h
  have hleft : left = rest := by rw [← hf a left, heq]
  exact ⟨a, hleft ▸ hread⟩

/-! ## Blanks -/

theorem skip_suffix (verbose : Bool) (cs : List Char) : skip verbose cs <:+ cs := by
  unfold skip
  split
  · exact skipBlanks_suffix _ _
  · exact List.suffix_rfl

theorem suffix_of_skip (h : skip verbose cs = rest) : rest <:+ cs := h ▸ skip_suffix verbose cs

theorem trimStart_suffix (cs : List Char) : Unicode.trimStart cs <:+ cs :=
  List.dropWhile_suffix _

theorem readWhile_suffix (verbose : Bool) (test : Char → Bool) (inComment : Bool)
    (cs : List Char) : (readWhile verbose test inComment cs).2 <:+ cs := by
  induction cs generalizing inComment with
  | nil => exact List.suffix_rfl
  | cons c cs ih =>
    unfold readWhile
    split
    · exact (ih _).trans (List.suffix_cons c cs)
    · split
      · exact (ih _).trans (List.suffix_cons c cs)
      · split
        · exact (ih _).trans (List.suffix_cons c cs)
        · split
          · exact (ih _).trans (List.suffix_cons c cs)
          · exact List.suffix_rfl

/-! ## Repetitions -/

theorem readCount_suffix {n : Nat} (h : readCount verbose cs = some (n, rest)) : rest <:+ cs := by
  simp only [readCount] at h
  split at h
  · cases h
  · cases h
    exact ((trimStart_suffix _).trans (readWhile_suffix _ _ _ _)).trans (trimStart_suffix _)

theorem readCounts_suffix {counts : Nat × Option Nat}
    (h : readCounts verbose cs = some (counts, rest)) : rest <:+ cs := by
  obtain ⟨⟨least, afterLeast⟩, hleast, h⟩ := Option.bind_eq_some_iff.1 h
  have hcs : afterLeast <:+ cs := (readCount_suffix hleast).trans (skip_suffix _ _)
  dsimp only at h
  split at h
  · cases h
    exact suffix_of_cons hcs
  · rename_i afterComma _
    split at h
    · rename_i hskip
      cases h
      exact (suffix_of_cons (suffix_of_skip hskip)).trans (suffix_of_cons hcs)
    · obtain ⟨⟨most, afterMost⟩, hmost, h⟩ := Option.bind_eq_some_iff.1 h
      split at h
      · rename_i heq
        cases heq
        split at h
        · cases h
          exact ((suffix_of_cons (readCount_suffix hmost)).trans (skip_suffix _ _)).trans
            (suffix_of_cons hcs)
        · cases h
      · cases h
  · cases h

theorem readRepetition_suffix {least : Nat} {most : Option Nat} {t : Token}
    (h : readRepetition flags least most cs = (t, rest)) : rest <:+ cs := by
  unfold readRepetition at h
  dsimp only at h
  split at h
  · cases h
    exact List.suffix_cons _ _
  · cases h
    exact List.suffix_rfl

/-! ## Groups -/

theorem readGroupName_suffix {t : Token} (h : readGroupName cs = some (t, rest)) :
    rest <:+ cs := by
  simp only [readGroupName] at h
  split at h
  · cases h
  · rename_i heq
    split at h
    · cases h
      exact suffix_of_cons (heq ▸ List.dropWhile_suffix _)
    · cases h

theorem readFlags_suffix {t : Token} (h : readFlags cs = some (t, rest)) : rest <:+ cs := by
  obtain ⟨change, -, h⟩ := Option.bind_eq_some_iff.1 h
  split at h
  · cases h
  · rename_i heq
    have hrest := suffix_of_cons (heq ▸ List.dropWhile_suffix _)
    split at h
    · cases h
      exact hrest
    · split at h
      · cases h
      · cases h
        exact hrest

theorem readGroup_suffix {t : Token} (h : readGroup verbose cs = some (t, rest)) :
    rest <:+ cs := by
  unfold readGroup at h
  split at h
  · rename_i hskip
    exact (readGroupName_suffix h).trans
      (suffix_of_cons (suffix_of_cons (suffix_of_cons (suffix_of_skip hskip))))
  · rename_i hskip
    exact (readGroupName_suffix h).trans (suffix_of_cons (suffix_of_cons (suffix_of_skip hskip)))
  · rename_i hskip
    exact (readFlags_suffix h).trans (suffix_of_cons (suffix_of_skip hskip))
  · cases h
    exact skip_suffix _ _

/-! ## Escapes -/

theorem readDigits_suffix {width : Nat} {digits : List Char}
    (h : readDigits verbose width cs = some (digits, rest)) : rest <:+ cs := by
  induction width generalizing cs digits with
  | zero =>
    cases h
    exact List.suffix_rfl
  | succ width ih =>
    cases cs with
    | nil => cases h
    | cons c cs =>
      obtain ⟨more, hmore⟩ := exists_of_map (fun _ _ => rfl) h
      exact ((ih hmore).trans (skip_suffix _ _)).trans (List.suffix_cons c cs)

theorem readBraced_suffix {inner : List Char} (h : readBraced verbose cs = some (inner, rest)) :
    rest <:+ cs := by
  have hread := readWhile_suffix verbose (· ≠ '\x7d') false cs
  unfold readBraced at h
  split at h
  · rename_i heq
    cases h
    rw [heq] at hread
    exact suffix_of_cons hread
  · cases h

theorem readHex_suffix {width : Nat} (h : readHex flags width cs = some (c, rest)) :
    rest <:+ cs := by
  unfold readHex at h
  split at h
  · rename_i hskip
    simp only [Option.bind_eq_bind, Option.bind_eq_some_iff, Option.pure_def] at h
    obtain ⟨⟨digits, _⟩, hdigits, _, -, heq⟩ := h
    cases heq
    exact ((skip_suffix _ _).trans (readBraced_suffix hdigits)).trans
      (suffix_of_cons (suffix_of_skip hskip))
  · simp only [Option.bind_eq_bind, Option.bind_eq_some_iff] at h
    obtain ⟨⟨digits, _⟩, hdigits, _, -, h⟩ := h
    split at h
    · cases h
    · cases h
      exact (readDigits_suffix hdigits).trans (skip_suffix _ _)

theorem readProperty_suffix {set : CharSet} (h : readProperty table flags cs = some (set, rest)) :
    rest <:+ cs := by
  unfold readProperty at h
  split at h
  · cases h
  · rename_i hskip
    simp only [Option.bind_eq_bind, Option.bind_eq_some_iff, Option.pure_def] at h
    obtain ⟨⟨name, _⟩, hname, _, -, heq⟩ := h
    cases heq
    exact (readBraced_suffix hname).trans (suffix_of_cons (suffix_of_skip hskip))
  · rename_i hskip
    simp only [Option.bind_eq_bind, Option.bind_eq_some_iff, Option.pure_def] at h
    obtain ⟨_, -, heq⟩ := h
    cases heq
    exact suffix_of_cons (suffix_of_skip hskip)

theorem readBoundary_suffix {edge : WordEdge} (h : readBoundary flags cs = some (edge, rest)) :
    rest <:+ cs := by
  unfold readBoundary at h
  split at h
  · split at h
    · cases h
    · rename_i hskip
      split at h
      · split at h
        · rename_i heq
          obtain ⟨_, -, hpair⟩ := Option.map_eq_some_iff.1 h
          cases hpair
          have hread := suffix_of_cons (heq ▸ readWhile_suffix _ _ _ _)
          exact (hread.trans (suffix_of_skip hskip)).trans (List.suffix_cons _ _)
        · cases h
      · cases h
        exact List.suffix_rfl
  · cases h
    exact List.suffix_rfl

/-- The escapes differ in what they read behind the letter. -/
theorem readEscape_suffix {escape : Escape} (h : readEscape table flags c cs = some (escape, rest)) :
    rest <:+ cs := by
  unfold readEscape at h
  dsimp only at h
  split at h
  -- characters by their numbers
  case h_1 | h_2 | h_3 =>
    obtain ⟨_, hread⟩ := exists_of_map (fun _ _ => rfl) h
    exact readHex_suffix hread
  -- properties
  case h_4 | h_5 =>
    split at h
    · cases h
    · obtain ⟨_, hread⟩ := exists_of_map (fun _ _ => rfl) h
      exact readProperty_suffix hread
  -- classes with a letter, which read nothing more
  case h_6 | h_7 | h_8 | h_9 | h_10 | h_11 =>
    obtain ⟨_, -, heq⟩ := Option.bind_eq_some_iff.1 h
    cases heq
    exact List.suffix_rfl
  -- word boundaries, which may have a name behind them
  case h_20 =>
    obtain ⟨_, hread⟩ := exists_of_map (fun _ _ => rfl) h
    exact readBoundary_suffix hread
  -- characters that stand for themselves, or nothing
  case h_24 =>
    split at h
    · cases h
      exact List.suffix_rfl
    · cases h
  -- the others read nothing more
  all_goals
    cases h
    exact List.suffix_rfl

/-! ## Classes -/

theorem readAscii_suffix {class' : Bool × CharSet} (h : readAscii cs = some (class', rest)) :
    rest <:+ cs := by
  unfold readAscii at h
  split at h
  · rename_i cs
    dsimp only at h
    split at h
    · rename_i heq
      obtain ⟨_, -, hpair⟩ := Option.map_eq_some_iff.1 h
      cases hpair
      have hbody := suffix_of_cons (suffix_of_cons (heq ▸ List.dropWhile_suffix _))
      refine (hbody.trans ?_).trans (List.suffix_cons _ cs)
      split
      · exact List.tail_suffix cs
      · exact List.suffix_rfl
    · cases h
  · cases h

theorem readItem_suffix {item : Escape} (h : readItem table flags c cs = some (item, rest)) :
    rest <:+ cs := by
  unfold readItem at h
  split at h
  · split at h
    · cases h
    · exact (readEscape_suffix h).trans (List.suffix_cons _ _)
  · cases h
    exact List.suffix_rfl

theorem readRange_suffix {set : CharSet} (h : readRange table flags c cs = some (set, rest)) :
    rest <:+ cs := by
  obtain ⟨⟨first, afterFirst⟩, hfirst, h⟩ := Option.bind_eq_some_iff.1 h
  have hcs := readItem_suffix hfirst
  dsimp only at h
  split at h
  · rename_i hskip
    -- behind a hyphen there is another end, unless the class is closed or goes on with an operator
    have hhyphen := (suffix_of_skip hskip).trans hcs
    split at h
    · obtain ⟨_, -, heq⟩ := Option.bind_eq_some_iff.1 h
      cases heq
      exact hhyphen
    · split at h
      · cases h
      · rename_i hnext
        simp only [Option.bind_eq_bind, Option.bind_eq_some_iff] at h
        obtain ⟨⟨last, _⟩, hlast, _, -, heq⟩ := h
        cases heq
        exact (readItem_suffix hlast).trans
          ((suffix_of_cons (suffix_of_skip hnext)).trans (suffix_of_cons hhyphen))
  · obtain ⟨_, -, heq⟩ := Option.bind_eq_some_iff.1 h
    cases heq
    exact (skip_suffix _ _).trans hcs

theorem readOpening_suffix (verbose : Bool) (cs : List Char) :
    (readOpening verbose cs).2 <:+ cs := by
  unfold readOpening
  split
  rename_i negated rest hopen
  have hrest : rest <:+ cs := by
    split at hopen
    · rename_i hskip
      cases hopen
      exact suffix_of_cons (suffix_of_skip hskip)
    · cases hopen
      exact skip_suffix _ _
  have hread := (readWhile_suffix verbose (· = '-') false rest).trans hrest
  dsimp only
  split
  · rename_i heq
    exact suffix_of_cons (heq ▸ hread)
  · exact hread

theorem readClassFrom_suffix {bound : Nat} {k : OpenClass} {outer : List OpenClass}
    {set : Nested CharSet} (h : readClassFrom table flags bound k outer cs = some (set, rest)) :
    rest <:+ cs := by
  induction bound generalizing k outer cs with
  | zero => cases h
  | succ bound ih =>
    unfold readClassFrom at h
    split at h
    · cases h
    · -- the class is closed
      rename_i hskip
      have hafter := suffix_of_cons (suffix_of_skip hskip)
      obtain ⟨closed, -, h⟩ := Option.bind_eq_some_iff.1 h
      split at h
      · cases h
        exact hafter
      · exact (ih h).trans hafter
    · -- another class begins
      rename_i hskip
      have hafter := suffix_of_cons (suffix_of_skip hskip)
      split at h
      · rename_i hascii
        obtain ⟨members, -, h⟩ := Option.bind_eq_some_iff.1 h
        exact ((ih h).trans (readAscii_suffix hascii)).trans hafter
      · exact ((ih h).trans (readOpening_suffix _ _)).trans hafter
    -- an operator between two classes has two characters
    case h_4 | h_5 | h_6 =>
      rename_i hskip
      exact (ih h).trans (suffix_of_cons (suffix_of_cons (suffix_of_skip hskip)))
    · rename_i hskip
      obtain ⟨⟨item, _⟩, hitem, h⟩ := Option.bind_eq_some_iff.1 h
      exact ((ih h).trans (readRange_suffix hitem)).trans (suffix_of_cons (suffix_of_skip hskip))

theorem readClass_suffix {bound : Nat} {set : Nested CharSet}
    (h : readClass table flags bound cs = some (set, rest)) : rest <:+ cs :=
  (readClassFrom_suffix h).trans (readOpening_suffix _ _)

/-! ## Tokens -/

/-- What is left behind a token is an end of the text behind its first character. -/
theorem readToken_suffix {bound : Nat} {t : Token}
    (h : readToken table flags bound c cs = some (t, rest)) : rest <:+ cs := by
  unfold readToken at h
  dsimp only at h
  split at h
  · exact readGroup_suffix h
  -- repetitions by a sign, and those with counts in braces
  case h_4 | h_5 | h_6 => exact readRepetition_suffix (Option.some.inj h)
  case h_7 =>
    obtain ⟨⟨counts, _⟩, hcounts, heq⟩ := Option.map_eq_some_iff.1 h
    exact (readRepetition_suffix heq).trans ((skip_suffix _ _).trans (readCounts_suffix hcounts))
  -- classes in brackets
  case h_8 =>
    obtain ⟨_, hread⟩ := exists_of_map (fun _ _ => rfl) h
    exact readClass_suffix hread
  -- a dot
  case h_9 =>
    obtain ⟨_, -, heq⟩ := Option.bind_eq_some_iff.1 h
    cases heq
    exact List.suffix_rfl
  -- an escape behind a backslash
  case h_12 =>
    split at h
    · cases h
    · obtain ⟨_, hread⟩ := exists_of_map (fun _ _ => rfl) h
      exact (readEscape_suffix hread).trans (List.suffix_cons _ _)
  -- a single character is the whole token
  all_goals
    cases h
    exact List.suffix_rfl

/-! ## Bars -/

theorem readRepetition_ne_bar (flags : Flags) (least : Nat) (most : Option Nat)
    (cs : List Char) : (readRepetition flags least most cs).1 ≠ .bar := by
  unfold readRepetition
  split <;> exact nofun

theorem readGroup_ne_bar {t : Token} (h : readGroup verbose cs = some (t, rest)) : t ≠ .bar := by
  have hname {cs : List Char} (h : readGroupName cs = some (t, rest)) : t ≠ .bar := by
    simp only [readGroupName] at h
    split at h
    · cases h
    · split at h <;> cases h
      exact nofun
  unfold readGroup at h
  split at h
  · exact hname h
  · exact hname h
  -- flags, for the text behind them or for a group of their own
  · obtain ⟨change, -, h⟩ := Option.bind_eq_some_iff.1 h
    split at h
    · cases h
    · split at h
      · cases h
        exact nofun
      · split at h <;> cases h
        exact nofun
  · cases h
    exact nofun

/-- Only a bar is read as a bar. -/
theorem eq_of_readToken_bar {bound : Nat}
    (h : readToken table flags bound c cs = some (.bar, rest)) : c = '|' := by
  unfold readToken at h
  dsimp only at h
  split at h
  · exact absurd rfl (readGroup_ne_bar h)
  case h_3 => rfl
  case h_4 | h_5 | h_6 =>
    exact absurd (congrArg Prod.fst (Option.some.inj h)) (readRepetition_ne_bar _ _ _ _)
  case h_7 =>
    obtain ⟨_, -, heq⟩ := Option.map_eq_some_iff.1 h
    exact absurd (congrArg Prod.fst heq) (readRepetition_ne_bar _ _ _ _)
  case h_8 =>
    obtain ⟨_, -, heq⟩ := Option.map_eq_some_iff.1 h
    cases heq
  case h_9 =>
    obtain ⟨_, -, heq⟩ := Option.bind_eq_some_iff.1 h
    cases heq
  case h_12 =>
    split at h
    · cases h
    · obtain ⟨_, -, heq⟩ := Option.map_eq_some_iff.1 h
      cases heq
  all_goals cases h

end Readers

end IndexQuery.Regex
