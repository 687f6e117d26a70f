import IndexQuery.Proofs.Normalizer.Basic

/-! # Patterns for single texts

    A pattern without metacharacters stands for a single text, and so does its normal
    form. The two texts belong together: the second one is the normal form of the first.
    Lower case is the exception, since a pattern is lowered character by character, and a
    capital sigma at the end of a word needs to know what stands around it.

    * `Unicode.HasFinalSigma`: a text with such a sigma.
    * `Unicode.lowerFrom_eq_flatMap_iff`: in all other texts the characters are lowered
      one by one.
    * `fixedText?_lowercasePattern`: the text of a pattern in lower case.
    * `Normalizer.text_of_normalizeRegex`: the normal form of a pattern stands for
      the normal form of its text, unless that has a final sigma.
-/

namespace IndexQuery

/-! ## What lower case moves -/

/-- Whether one of some ascending ranges holds all numbers from `first` to `last`. -/
def CharSet.coversAll (first last : Nat) : List (Nat × Nat) → Bool
  | [] => false
  | (lo, hi) :: rest => Nat.ble lo first && (Nat.ble last hi || coversAll first last rest)

theorem CharSet.covers_of_coversAll {first last n : Nat} {ranges : List (Nat × Nat)}
    (h : coversAll first last ranges = true) (hfirst : first ≤ n) (hlast : n ≤ last) :
    covers ranges n = true := by
  induction ranges with
  | nil => cases h
  | cons range rest ih =>
    simp only [coversAll, Bool.and_eq_true, Bool.or_eq_true, Nat.ble_eq] at h
    simp only [covers, Bool.and_eq_true, Bool.or_eq_true, decide_eq_true_eq]
    refine ⟨Nat.le_trans h.1 hfirst, ?_⟩
    rcases h.2 with hwithin | hrest
    · exact .inl (Nat.le_trans hlast hwithin)
    · exact .inr (ih hrest)

namespace Unicode

/-- What a run moves is among its moves. -/
theorem CaseRun.exists_move {run : CaseRun} {n : Nat} (h : run.covers n = true) :
    ∃ move ∈ run.moves, move.1 = n := by
  simp only [covers, Bool.and_eq_true, decide_eq_true_eq, beq_iff_eq] at h
  have hsplit := Nat.div_add_mod (n - run.first) run.stride
  have hplace : (n - run.first) / run.stride ≤ (run.last - run.first) / run.stride :=
    Nat.div_le_div_right (by omega)
  have hn : run.first + (n - run.first) / run.stride * run.stride = n := by
    rw [Nat.mul_comm]
    omega
  exact ⟨_, List.mem_map.2 ⟨_, List.mem_range.2 (Nat.lt_succ_of_le hplace), rfl⟩, hn⟩

/-- The runs of the lower-case mapping lie within ranges of alphabetic characters, but for
    one that passes over characters in between. -/
theorem lowercaseTable_alphabetic :
    (lowercaseTable.runs.all fun run =>
      CharSet.coversAll run.first run.last letters.ranges ||
      CharSet.coversAll run.first run.last letterNumbers.ranges ||
      CharSet.coversAll run.first run.last otherAlphabetic.ranges ||
      run.moves.all fun move => letters.holds move.1) = true := by
  decide +kernel

/-- What lower case moves is alphabetic. -/
theorem isAlphabetic_of_covers {run : CaseRun} (hrun : run ∈ lowercaseTable.runs) {c : Char}
    (h : run.covers c.toNat = true) : isAlphabetic c = true := by
  have halphabetic := List.all_eq_true.1 lowercaseTable_alphabetic run hrun
  have hbounds : run.first ≤ c.toNat ∧ c.toNat ≤ run.last := by
    simp only [CaseRun.covers, Bool.and_eq_true, decide_eq_true_eq] at h
    exact h.1
  simp only [Bool.or_eq_true] at halphabetic
  simp only [isAlphabetic, Bool.or_eq_true]
  rcases halphabetic with ((hletters | hnumbers) | hother) | hmoves
  · exact .inl (.inl (CharSet.covers_of_coversAll hletters hbounds.1 hbounds.2))
  · exact .inl (.inr (CharSet.covers_of_coversAll hnumbers hbounds.1 hbounds.2))
  · exact .inr (CharSet.covers_of_coversAll hother hbounds.1 hbounds.2)
  · obtain ⟨move, hmove, hn⟩ := CaseRun.exists_move h
    have hholds := List.all_eq_true.1 hmoves move hmove
    rw [hn] at hholds
    exact .inl (.inl hholds)

/-- A character that is not alphanumeric has no lower case of its own. -/
theorem lowerChar_of_not_isAlphanumeric {c : Char} (h : isAlphanumeric c = false) :
    lowerChar c = [c] := by
  apply lowerChar_of_isLower
  intro run hrun
  cases hcovers : run.covers c.toNat with
  | false => rfl
  | true =>
    rw [isAlphanumeric, isAlphabetic_of_covers hrun hcovers] at h
    cases h

/-- No letter becomes a brace or a bar. -/
theorem lowercaseTable_avoids_braces :
    (lowercaseTable.runs.all (·.avoids (0x7B, 0x7D))) = true := by
  decide +kernel

/-- The lower case of a character that a pattern takes as it is stands for itself too. -/
theorem plain_of_mem_lowerChar {c x : Char} (hx : x ∈ lowerChar c) (hc : c ≠ backslash)
    (hmeta : isMetacharacter c = false) : x ≠ backslash ∧ isMetacharacter x = false := by
  unfold lowerChar at hx
  split at hx
  · simp only [List.mem_cons, List.not_mem_nil, or_false] at hx
    rcases hx with rfl | rfl <;> decide
  · rw [List.mem_singleton.1 hx]
    obtain ⟨run, hrun, hcovers, hmap⟩ | ⟨-, hmap⟩ := lowercaseTable.map_cases c
    · have himage := toNat_image hrun hcovers
      have hbraces := CaseRun.image_of_avoids hcovers
        (List.all_eq_true.1 lowercaseTable_avoids_braces run hrun)
      have hlow := CaseRun.image_of_avoids hcovers
        (List.all_eq_true.1 (List.all_eq_true.1 lowercaseTable_avoids (0, 0x60) (by simp)) run hrun)
      rw [← hmap] at himage
      -- all metacharacters are below the small letters, or braces and bars
      have hnone : ∀ d : Char, d.toNat ≤ 0x60 ∨ 0x7B ≤ d.toNat ∧ d.toNat ≤ 0x7D →
          lowercaseTable.map c ≠ d := by
        rintro d hd heq
        rw [heq] at himage
        omega
      refine ⟨hnone _ (by decide), ?_⟩
      rw [Bool.eq_false_iff]
      intro hismeta
      simp only [isMetacharacter, List.contains_iff_mem, List.mem_cons, List.not_mem_nil,
        or_false] at hismeta
      rcases hismeta with h | h | h | h | h | h | h | h | h | h | h | h | h <;>
        exact hnone _ (by decide) h
    · rw [hmap]
      exact ⟨hc, hmeta⟩

/-! ## Final sigmas -/

/-- A text with a capital sigma that is the last cased character of a word, behind
    another one. -/
def HasFinalSigma (text : List Char) : Prop :=
  ∃ front rest, text = front ++ 'Σ' :: rest ∧ startsCased front.reverse = true ∧
    startsCased rest = false

/-- A text behind others is lowered character by character if none of its capital sigmas is
    final. -/
theorem lowerFrom_eq_flatMap_iff {before cs : List Char} :
    lowerFrom before cs = cs.flatMap lowerChar ↔
      ¬ ∃ front rest, cs = front ++ 'Σ' :: rest ∧ startsCased (front.reverse ++ before) = true ∧
        startsCased rest = false := by
  induction cs generalizing before with
  | nil => simp [lowerFrom]
  | cons c rest ih =>
    -- the rest has a final sigma, or this character is one
    have hsplit : (∃ front tail, c :: rest = front ++ 'Σ' :: tail ∧
        startsCased (front.reverse ++ before) = true ∧ startsCased tail = false) ↔
        (c = 'Σ' ∧ startsCased before = true ∧ startsCased rest = false) ∨
          ∃ front tail, rest = front ++ 'Σ' :: tail ∧
            startsCased (front.reverse ++ c :: before) = true ∧ startsCased tail = false := by
      constructor
      · rintro ⟨front, tail, heq, hfront, htail⟩
        cases front with
        | nil =>
          cases heq
          exact .inl ⟨rfl, hfront, htail⟩
        | cons d front =>
          cases heq
          exact .inr ⟨front, tail, rfl, by simpa using hfront, htail⟩
      · rintro (⟨rfl, hbefore, hrest⟩ | ⟨front, tail, rfl, hfront, htail⟩)
        · exact ⟨[], rest, rfl, hbefore, hrest⟩
        · exact ⟨c :: front, tail, rfl, by simpa using hfront, htail⟩
    rw [hsplit, not_or, lowerFrom, List.flatMap_cons]
    by_cases hc : c = 'Σ'
    · subst hc
      have hsigma : lowerChar 'Σ' = ['σ'] := by decide +kernel
      have hhead : (if (startsCased before && !startsCased rest) = true then 'ς' else 'σ') = 'σ' ↔
          ¬ (startsCased before = true ∧ startsCased rest = false) := by
        cases startsCased before <;> cases startsCased rest <;> decide
      rw [if_pos rfl, hsigma, List.singleton_append, List.singleton_append, List.cons.injEq, ih,
        hhead]
      simp
    · rw [if_neg hc, List.append_cancel_left_eq, ih]
      simp [hc]

theorem toList_lowercase_iff (text : List Char) :
    (lowercase (String.ofList text)).toList = text.flatMap lowerChar ↔ ¬ HasFinalSigma text := by
  rw [lowercase, String.toList_ofList, String.toList_ofList, lowerFrom_eq_flatMap_iff]
  simp only [List.append_nil]
  rfl

end Unicode

/-! ## Texts of patterns -/

/-- A front that a pattern takes as it is belongs to the text of the pattern. -/
theorem fixedText?_append_of_plain {front : List Char} (rest : List Char)
    (h : ∀ c ∈ front, c ≠ backslash ∧ isMetacharacter c = false) :
    fixedText? (front ++ rest) = (fixedText? rest).map (front ++ ·) := by
  induction front with
  | nil => simp
  | cons c front ih =>
    obtain ⟨hc, hfront⟩ := List.forall_mem_cons.1 h
    rw [List.cons_append, fixedText?.eq_def]
    simp only [if_neg hc.1, hc.2, Bool.false_eq_true, if_false, ih hfront, Option.map_map]
    rfl

/-- The text of a pattern in lower case has the characters of the text in lower case. -/
theorem fixedText?_lowercasePattern {pattern fixed : List Char}
    (h : fixedText? pattern = some fixed) :
    fixedText? (Normalizer.lowercasePattern pattern) = some (fixed.flatMap Unicode.lowerChar) := by
  fun_induction fixedText? pattern generalizing fixed with
  | case1 =>
    cases h
    rfl
  | case2 => cases h
  | case3 next rest hnext => cases h
  | case4 next rest hnext ih =>
    -- a protected character keeps its case, but has none
    obtain ⟨tail, htail, rfl⟩ := Option.map_eq_some_iff.1 h
    rw [Bool.not_eq_true] at hnext
    rw [Normalizer.lowercasePattern, if_pos rfl, fixedText?, if_pos rfl]
    simp [hnext, ih htail, Unicode.lowerChar_of_not_isAlphanumeric hnext]
  | case5 c rest hc hmeta => cases h
  | case6 c rest hc hmeta ih =>
    obtain ⟨tail, htail, rfl⟩ := Option.map_eq_some_iff.1 h
    rw [Bool.not_eq_true] at hmeta
    have hlower : Normalizer.lowercasePattern (c :: rest) =
        Unicode.lowerChar c ++ Normalizer.lowercasePattern rest := by
      rw [Normalizer.lowercasePattern.eq_def]
      simp [hc]
    rw [hlower, fixedText?_append_of_plain _ fun x hx => Unicode.plain_of_mem_lowerChar hx hc hmeta,
      ih htail]
    rfl

namespace Normalizer

/-- Where a text has a form, every pattern for it has one, which stands for that form. -/
theorem exists_normalizeRegex_ofForm {name : String}
    {form : List Char → Noted (Option (List Char))} {pattern value : String} {fixed : List Char}
    (hfixed : fixedText? pattern.toList = some fixed)
    (h : (ofForm name form).normalize (String.ofList fixed) = .ok value) :
    ∃ q, (ofForm name form).normalizeRegex pattern = .ok q ∧
      fixedText? q.toList = some value.toList := by
  rw [normalize_ofForm, String.toList_ofList] at h
  refine ⟨String.ofList (escapePattern value.toList), ?_, ?_⟩
  · rw [normalizeRegex_ofForm]
    exact ⟨fixed, value.toList, hfixed, h, by rw [String.toList_ofList]⟩
  · rw [String.toList_ofList, fixedText?_escapePattern]

/-- Where a text has a normal form, every pattern for it has one too. That stands for the
    normal form of the text, unless the text is lowered and has a final sigma. -/
theorem text_of_normalizeRegex (n : Normalizer) (hn : n ∈ stock) {pattern value : String}
    {fixed : List Char} (hfixed : fixedText? pattern.toList = some fixed)
    (h : n.normalize (String.ofList fixed) = .ok value) :
    ∃ q, n.normalizeRegex pattern = .ok q ∧
      (fixedText? q.toList = some value.toList ↔
        ¬ (n = .lowercase ∧ Unicode.HasFinalSigma fixed)) := by
  rcases mem_stock.1 hn with rfl | rfl | rfl | rfl
  · cases h
    refine ⟨pattern, rfl, ?_⟩
    simp [hfixed, ne_of_name (n := noop) (m := lowercase) (by decide)]
  · cases h
    refine ⟨_, rfl, ?_⟩
    rw [String.toList_ofList, fixedText?_lowercasePattern hfixed, Option.some.injEq, eq_comm,
      Unicode.toList_lowercase_iff]
    simp
  · obtain ⟨q, hq, htext⟩ := exists_normalizeRegex_ofForm hfixed h
    exact ⟨q, hq, iff_of_true htext fun hlower => absurd hlower.1 (ne_of_name (by decide))⟩
  · obtain ⟨q, hq, htext⟩ := exists_normalizeRegex_ofForm hfixed h
    exact ⟨q, hq, iff_of_true htext fun hlower => absurd hlower.1 (ne_of_name (by decide))⟩

/-- The sigma stands before a letter, so that it is not final. -/
theorem text_of_normalizeRegex_wordStart :
    lowercase ∈ stock ∧ fixedText? "A\\.ΣB".toList = some "A.ΣB".toList ∧
      normalize .lowercase "A.ΣB" = .ok "a.σb" ∧
        ∃ q, normalizeRegex .lowercase "A\\.ΣB" = .ok q ∧ fixedText? q.toList = some "a.σb".toList := by
  have hfixed : fixedText? "A\\.ΣB".toList = some "A.ΣB".toList := by decide +kernel
  have hlowered : Unicode.lowercase "A.ΣB" = "a.σb" := by decide +kernel
  have hvalue : normalize .lowercase "A.ΣB" = .ok "a.σb" := congrArg Except.ok hlowered
  have hnone : ¬ Unicode.HasFinalSigma "A.ΣB".toList := by
    have hlower : Unicode.lowerFrom [] "A.ΣB".toList = "A.ΣB".toList.flatMap Unicode.lowerChar := by
      decide +kernel
    simpa [Unicode.HasFinalSigma] using Unicode.lowerFrom_eq_flatMap_iff.1 hlower
  have hstock : lowercase ∈ stock := mem_stock.2 (.inr (.inl rfl))
  obtain ⟨q, hq, hiff⟩ := text_of_normalizeRegex .lowercase hstock hfixed
    (by rw [String.ofList_toList]; exact hvalue)
  exact ⟨hstock, hfixed, hvalue, q, hq, hiff.2 fun hsigma => hnone hsigma.2⟩

/-- The word `ΑΣ` ends in a final sigma, and the pattern for it in another one. -/
theorem not_forall_text_of_normalizeRegex :
    ¬ ∀ n ∈ stock, ∀ (pattern value : String) (fixed : List Char),
      fixedText? pattern.toList = some fixed → n.normalize (String.ofList fixed) = .ok value →
        ∃ q, n.normalizeRegex pattern = .ok q ∧ fixedText? q.toList = some value.toList := by
  intro hall
  have hlowered : Unicode.lowercase "ΑΣ" = "ας" := by decide +kernel
  have hfixed : fixedText? "ΑΣ".toList = some "ΑΣ".toList := by decide +kernel
  have hpattern : String.ofList (lowercasePattern "ΑΣ".toList) = "ασ" := by decide +kernel
  obtain ⟨q, hq, htext⟩ := hall .lowercase (mem_stock.2 (.inr (.inl rfl))) "ΑΣ" "ας" _ hfixed
    (by rw [String.ofList_toList]; exact congrArg Except.ok hlowered)
  cases (congrArg Except.ok hpattern).symm.trans hq
  exact absurd htext (by decide +kernel)

end Normalizer

end IndexQuery
