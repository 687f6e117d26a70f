import IndexQuery.Proofs.Query.Canonical

/-! # The tokens of written text

    The text of a printable query is cut into the tokens that it was written from. What
    is written goes from the end of the text to its beginning, as each token needs to
    know only where it ends.

    * `Token.Spells`: the kinds of the tokens of some characters.
    * `readQuoted_protect`: quoted text is read back, whatever its characters are.
    * `Query.tokens`: the tokens that a query is written from.
    * `Query.spells_render`: they are the tokens of its text.
-/

namespace IndexQuery

/-! ## Characters -/

namespace CharSet

/-- Whether no character belongs to both sets. -/
def isDisjoint (s t : CharSet) : Bool :=
  s.ranges.all fun r => t.ranges.all fun r' => r.2 < r'.1 || r'.2 < r.1

theorem not_contains_of_isDisjoint {s t : CharSet} {c : Char} (h : s.isDisjoint t = true)
    (hc : s.contains c = true) : t.contains c = false := by
  rw [Bool.eq_false_iff]
  intro ht
  obtain ⟨r, hr, hlow, hhigh⟩ := exists_range_of_contains hc
  obtain ⟨r', hr', hlow', hhigh'⟩ := exists_range_of_contains ht
  have happart := List.all_eq_true.1 (List.all_eq_true.1 h r hr) r' hr'
  simp only [Bool.or_eq_true, decide_eq_true_eq] at happart
  omega

end CharSet

namespace Unicode

/-- The digits of ASCII. -/
def asciiDigits : CharSet := ⟨[(0x30, 0x39)]⟩

theorem contains_asciiDigits {c : Char} (h : c.isDigit = true) : asciiDigits.contains c = true := by
  have hdigit : 48 ≤ c.toNat ∧ c.toNat ≤ 57 := by
    simpa [Char.isDigit, UInt32.le_iff_toNat_le] using h
  simp [asciiDigits, CharSet.contains, CharSet.holds, CharSet.covers, hdigit]

/-- What is apart from letters, letter numbers and the other alphabetic characters is not
    alphabetic. -/
theorem not_isAlphabetic_of_isDisjoint {s : CharSet} {c : Char}
    (h : [letters, letterNumbers, otherAlphabetic].all s.isDisjoint = true)
    (hc : s.contains c = true) : isAlphabetic c = false := by
  simp only [List.all_cons, List.all_nil, Bool.and_true, Bool.and_eq_true] at h
  rw [isAlphabetic, CharSet.not_contains_of_isDisjoint h.1 hc,
    CharSet.not_contains_of_isDisjoint h.2.1 hc, CharSet.not_contains_of_isDisjoint h.2.2 hc]
  rfl

theorem not_isAlphabetic_of_isBlank {c : Char} (h : isBlank c = true) : isAlphabetic c = false :=
  not_isAlphabetic_of_isDisjoint (by decide +kernel) h

theorem not_isAlphabetic_of_isDigit {c : Char} (h : c.isDigit = true) : isAlphabetic c = false :=
  not_isAlphabetic_of_isDisjoint (by decide +kernel) (contains_asciiDigits h)

end Unicode

/-! ## The tokens of queries -/

/-- The token that a literal is written as. -/
def Literal.token : Literal → TokenKind
  | .string text => .quoted text
  | .number text => .number text
  | .null => .nullKeyword

/-- The token that an argument is written as. -/
def Argument.token : Argument → TokenKind
  | .field name | .identifier name => .word name
  | .literal value => value.token

/-- Tokens in parentheses. -/
def inParens (kinds : List TokenKind) : List TokenKind := .openParen :: (kinds ++ [.closeParen])

/-- The tokens that a call is written from. -/
def Call.tokens (c : Call) : List TokenKind :=
  .word c.family :: .colon :: .word c.name ::
    inParens ([TokenKind.comma].intercalate (c.args.map fun a => [a.token]))

/-- The token between the children of a junction. -/
def Junction.token : Junction → TokenKind
  | .and => .and
  | .or => .or

/-- The token that a marker is assigned. -/
def markerToken : Option DropNote → TokenKind
  | some note => .quoted note.reason
  | none => .trueKeyword

namespace Query

mutual

/-- The tokens that a query is written from, see `renderWith`. -/
def tokensWith (outer : Bool) : Query → List TokenKind
  | .junction kind cs => [kind.token].intercalate (tokensOfOperands cs)
  | .not c => .not :: inParens (c.tokensWith false)
  | .compare leaf => [.word leaf.field, .op leaf.op, leaf.literal.token]
  | .call c => c.tokens
  | .group c => if outer then inParens (c.tokensWith true) else c.tokensWith false
  | .marked m note c =>
    inParens (inParens [.word m.label, .assign, markerToken note] ++
      .and :: inParens (c.tokensWith false))

/-- The tokens of the children of a junction. -/
def tokensOfOperands : List Query → List (List TokenKind)
  | [] => []
  | c :: cs =>
    (if c.isJunction then inParens (c.tokensWith true) else c.tokensWith true) ::
      tokensOfOperands cs

end

/-- The text of a child of a junction. -/
def renderOperand (c : Query) : String :=
  if c.isJunction then "(" ++ c.renderWith true ++ ")" else c.renderWith true

/-- The tokens of a child of a junction. -/
def operandTokens (c : Query) : List TokenKind :=
  if c.isJunction then inParens (c.tokensWith true) else c.tokensWith true

theorem renderOperands_eq_map (cs : List Query) : renderOperands cs = cs.map renderOperand := by
  induction cs with
  | nil => rfl
  | cons c cs ih => rw [renderOperands, ih, List.map_cons, renderOperand]

theorem tokensOfOperands_eq_map (cs : List Query) :
    tokensOfOperands cs = cs.map operandTokens := by
  induction cs with
  | nil => rfl
  | cons c cs ih => rw [tokensOfOperands, ih, List.map_cons, operandTokens]

end Query

/-! ## Single tokens -/

namespace Lexeme

/-- The characters that operators and punctuation start with. -/
def symbolStarts : List Char := ['&', '|', '=', '!', '<', '>', '(', ')', ',', ':']

theorem symbol?_eq_none {first : Char} {rest : List Char} (h : first ∉ symbolStarts) :
    symbol? first rest = none := by
  unfold symbol?
  split <;> first | rfl | exact absurd (by decide) h

/-- No operator and no punctuation mark starts with a blank, as a word or as a number. -/
theorem of_mem_symbolStarts {c : Char} (h : c ∈ symbolStarts) :
    Unicode.isBlank c = false ∧ isWordStart c = false ∧ c.isDigit = false := by
  have hall : (symbolStarts.all fun c =>
      !Unicode.isBlank c && !isWordStart c && !c.isDigit) = true := by decide +kernel
  simpa [and_assoc] using List.all_eq_true.1 hall c h

/-- Where a word starts there is nothing else to read. -/
theorem of_isWordStart {first : Char} (h : isWordStart first = true) :
    Unicode.isBlank first = false ∧ first ∉ symbolStarts ∧ first ≠ quoteMark ∧ first ≠ '"' ∧
      first ≠ '-' ∧ first.isDigit = false := by
  have hbut : ∀ c, isWordStart c = false → first ≠ c := by
    rintro c hc rfl
    rw [h] at hc
    cases hc
  -- what begins a word is a letter or `_`, and no other class has either
  have hclass : ∀ p : Char → Bool, p '_' = false →
      (∀ c, p c = true → Unicode.isAlphabetic c = false) → p first = false := by
    intro p hmark hp
    rw [Bool.eq_false_iff]
    intro hfirst
    rw [isWordStart, hp first hfirst, Bool.false_or, beq_iff_eq] at h
    rw [h, hmark] at hfirst
    cases hfirst
  refine ⟨hclass _ (by decide) fun _ => Unicode.not_isAlphabetic_of_isBlank, ?_, hbut _ (by decide),
    hbut _ (by decide), hbut _ (by decide), hclass _ rfl fun _ => Unicode.not_isAlphabetic_of_isDigit⟩
  intro hmem
  obtain ⟨-, hstart, -⟩ := of_mem_symbolStarts hmem
  rw [h] at hstart
  cases hstart

/-- Where a number starts there is nothing else to read. -/
theorem of_startsNumber {first : Char} {rest : List Char} (h : startsNumber first rest = true) :
    Unicode.isBlank first = false ∧ first ∉ symbolStarts ∧ first ≠ quoteMark ∧ first ≠ '"' := by
  simp only [startsNumber, Bool.or_eq_true, Bool.and_eq_true, beq_iff_eq] at h
  rcases h with h | ⟨rfl, -⟩
  · have hbut : ∀ c : Char, c.isDigit = false → first ≠ c := by
      rintro c hc rfl
      rw [h] at hc
      cases hc
    refine ⟨?_, ?_, hbut _ rfl, hbut _ rfl⟩
    · exact CharSet.not_contains_of_isDisjoint (by decide) (Unicode.contains_asciiDigits h)
    · intro hmem
      obtain ⟨-, -, hdigit⟩ := of_mem_symbolStarts hmem
      rw [h] at hdigit
      cases hdigit
  · decide

/-! ### Quoted text -/

/-- A protected character stands for itself. -/
theorem readQuoted_protected {c : Char} (h : c = quoteMark ∨ c = backslash) (rest : List Char) :
    readQuoted quoteMark (backslash :: c :: rest) =
      (readQuoted quoteMark rest).map fun (value, n) => (c :: value, n + 2) := by
  have hc : (decide (c = quoteMark) || decide (c = backslash)) = true := by simpa using h
  rw [readQuoted, if_pos rfl]
  simp only [hc, if_true]

/-- A backslash before another character stands for itself as well. -/
theorem readQuoted_backslash {c : Char} (hquote : c ≠ quoteMark) (hslash : c ≠ backslash)
    (rest : List Char) :
    readQuoted quoteMark (backslash :: c :: rest) =
      (readQuoted quoteMark rest).map fun (value, n) => (backslash :: c :: value, n + 2) := by
  have hc : (decide (c = quoteMark) || decide (c = backslash)) = false := by
    simp [hquote, hslash]
  rw [readQuoted, if_pos rfl]
  simp only [hc, Bool.false_eq_true, if_false]

theorem readQuoted_plain {c : Char} (hquote : c ≠ quoteMark) (hslash : c ≠ backslash)
    (rest : List Char) :
    readQuoted quoteMark (c :: rest) =
      (readQuoted quoteMark rest).map fun (value, n) => (c :: value, n + 1) := by
  rw [readQuoted.eq_def]
  simp only [if_neg hslash, if_neg hquote]

theorem readQuoted_quoteMark (rest : List Char) :
    readQuoted quoteMark (quoteMark :: rest) = some ([], 1) := by
  rw [readQuoted.eq_def]
  simp only [if_neg (show quoteMark ≠ backslash by decide), if_true]

theorem protect_plain {c : Char} (hquote : c ≠ quoteMark) (hslash : c ≠ backslash)
    (text : List Char) : protect (c :: text) = c :: protect text := by
  rw [protect, if_neg hquote, if_neg (by simp [hslash])]

/-- Quoted text is read back. -/
theorem readQuoted_protect (text rest : List Char) :
    readQuoted quoteMark (protect text ++ quoteMark :: rest) =
      some (text, (protect text).length + 1) := by
  induction text with
  | nil =>
    rw [protect, List.nil_append, readQuoted_quoteMark]
    rfl
  | cons c text ih =>
    by_cases hquote : c = quoteMark
    · subst hquote
      rw [protect, if_pos rfl, List.cons_append, List.cons_append, readQuoted_protected (.inl rfl), ih]
      simp
    · by_cases hslash : c = backslash
      · subst hslash
        by_cases hneeds : needsProtection text = true
        · rw [protect, if_neg hquote, if_pos (by simp [hneeds]), List.cons_append, List.cons_append,
            readQuoted_protected (.inr rfl), ih]
          simp
        · -- a plain character follows, which is read together with the backslash
          match text, hneeds, ih with
          | d :: text, hneeds, ih =>
            obtain ⟨hdslash, hdquote⟩ : d ≠ backslash ∧ d ≠ quoteMark := by
              simpa [needsProtection] using hneeds
            rw [protect_plain hdquote hdslash, List.cons_append, readQuoted_plain hdquote hdslash,
              Option.map_eq_some_iff] at ih
            obtain ⟨⟨value, n⟩, hvalue, hsame⟩ := ih
            simp only [Prod.mk.injEq, List.cons.injEq, true_and, List.length_cons] at hsame
            obtain ⟨rfl, hn⟩ := hsame
            rw [protect, if_neg hquote, if_neg (by simpa using hneeds), protect_plain hdquote hdslash,
              List.cons_append, List.cons_append, readQuoted_backslash hdquote hdslash, hvalue]
            simp only [Option.map_some, List.length_cons]
            rw [show n + 2 = (protect value).length + 1 + 1 + 1 by omega]
      · rw [protect_plain hquote hslash, List.cons_append, readQuoted_plain hquote hslash, ih]
        rfl

end Lexeme

namespace Token

/-! ## Texts that spell tokens -/

/-- Whether some characters are cut into tokens of the given kinds. -/
def Spells (cs : List Char) (kinds : List TokenKind) : Prop :=
  ∀ position, ∃ tokens, scan position 0 cs = .ok tokens ∧ tokens.map kind = kinds

theorem spells_nil : Spells [] [] := fun _ => ⟨[], rfl, rfl⟩

theorem scan_append (text rest : List Char) (position : Nat) :
    scan position text.length (text ++ rest) = scan (position + text.length) 0 rest := by
  induction text generalizing position with
  | nil => rfl
  | cons c text ih =>
    rw [List.cons_append, scan, List.length_cons, if_pos (Nat.succ_pos _), Nat.add_sub_cancel,
      ih (position + 1), Nat.add_assoc, Nat.add_comm 1]

variable {rest : List Char} {kinds : List TokenKind}

theorem Spells.blank (h : Spells rest kinds) : Spells (' ' :: rest) kinds := by
  intro position
  obtain ⟨tokens, hscan, hkinds⟩ := h (position + 1)
  refine ⟨tokens, ?_, hkinds⟩
  rw [scan, if_neg (by decide), if_pos (by decide), hscan]

/-- The characters of a lexeme, and what follows them. -/
theorem Spells.lexeme {c : Char} (text : List Char) {kind : TokenKind} (h : Spells rest kinds)
    (hblank : Unicode.isBlank c = false)
    (hread : ∀ position, Lexeme.read position c (text ++ rest) = .ok ⟨kind, text.length⟩) :
    Spells (c :: (text ++ rest)) (kind :: kinds) := by
  intro position
  obtain ⟨tokens, hscan, hkinds⟩ := h (position + 1 + text.length)
  refine ⟨⟨kind, position⟩ :: tokens, ?_, by rw [List.map_cons, hkinds]⟩
  rw [scan, if_neg (by decide), if_neg (by simp [hblank]), hread]
  simp only [bind, Except.bind, scan_append, hscan]
  rfl

/-! ### Operators and punctuation -/

theorem Spells.symbol {c : Char} (text : List Char) {kind : TokenKind} (h : Spells rest kinds)
    (hsymbol : Lexeme.symbol? c (text ++ rest) = some ⟨kind, text.length⟩) :
    Spells (c :: (text ++ rest)) (kind :: kinds) := by
  have hstart : c ∈ Lexeme.symbolStarts := by
    apply Decidable.of_not_not
    intro hnot
    rw [Lexeme.symbol?_eq_none hnot] at hsymbol
    cases hsymbol
  obtain ⟨hblank, -, -⟩ := Lexeme.of_mem_symbolStarts hstart
  apply h.lexeme text hblank
  intro position
  rw [Lexeme.read, hsymbol]

theorem Spells.openParen (h : Spells rest kinds) : Spells ('(' :: rest) (.openParen :: kinds) :=
  h.symbol [] rfl

theorem Spells.closeParen (h : Spells rest kinds) : Spells (')' :: rest) (.closeParen :: kinds) :=
  h.symbol [] rfl

theorem Spells.comma (h : Spells rest kinds) : Spells (',' :: rest) (.comma :: kinds) :=
  h.symbol [] rfl

theorem Spells.colon (h : Spells rest kinds) : Spells (':' :: rest) (.colon :: kinds) :=
  h.symbol [] rfl

/-- A negation is written right before parentheses. -/
theorem Spells.not (h : Spells ('(' :: rest) kinds) : Spells ('!' :: '(' :: rest) (.not :: kinds) :=
  h.symbol [] rfl

/-- An assignment sign is written between blanks. -/
theorem Spells.assign (h : Spells rest kinds) :
    Spells (' ' :: '=' :: ' ' :: rest) (.assign :: kinds) :=
  (h.blank.symbol [] rfl).blank

/-- So is an operator. -/
theorem Spells.op (op : CompareOp) (h : Spells rest kinds) :
    Spells (' ' :: (op.symbol.toList ++ ' ' :: rest)) (.op op :: kinds) := by
  apply Spells.blank
  cases op with
  | eq => exact h.blank.symbol ['='] rfl
  | ne => exact h.blank.symbol ['='] rfl
  | lt => exact h.blank.symbol [] rfl
  | le => exact h.blank.symbol ['='] rfl
  | gt => exact h.blank.symbol [] rfl
  | ge => exact h.blank.symbol ['='] rfl
  | regex => exact h.blank.symbol ['~'] rfl
  | notRegex => exact h.blank.symbol ['~'] rfl

/-! ### Words, numbers and quoted text -/

/-- Whether no word and no number goes on here. -/
def EndsToken (rest : List Char) : Prop :=
  ∀ c ∈ rest.head?, Lexeme.isWordPart c = false ∧ Lexeme.isNumberPart c = false

theorem takeWhile_append_of_head? {p : Char → Bool} {text : List Char} (htext : text.all p = true)
    (hrest : ∀ c ∈ rest.head?, p c = false) : (text ++ rest).takeWhile p = text := by
  rw [List.takeWhile_append_of_pos (List.all_eq_true.1 htext)]
  cases rest with
  | nil => simp
  | cons c rest => simp [hrest c rfl]

theorem classifyWord_of_not_keyword {text : String} (h : keywords.contains text.toLower = false) :
    Lexeme.classifyWord text = .word text := by
  unfold Lexeme.classifyWord
  split <;> first | rfl | simp_all [keywords]

/-- A word is a name or a keyword. -/
theorem Spells.word {text : String} (hword : isWord text = true) (hrest : EndsToken rest)
    (h : Spells rest kinds) : Spells (text.toList ++ rest) (Lexeme.classifyWord text :: kinds) := by
  unfold isWord at hword
  split at hword
  · cases hword
  · rename_i first tail htext
    rw [Bool.and_eq_true] at hword
    obtain ⟨hstart, htail⟩ := hword
    obtain ⟨hblank, hsymbol, hquote, hdouble, hminus, hdigit⟩ := Lexeme.of_isWordStart hstart
    rw [htext]
    apply h.lexeme tail hblank
    intro position
    have hnumber : Lexeme.startsNumber first (tail ++ rest) = false := by
      simp [Lexeme.startsNumber, hdigit, hminus]
    have htake := takeWhile_append_of_head? htail fun c hc => (hrest c hc).1
    rw [Lexeme.read, Lexeme.symbol?_eq_none hsymbol]
    simp only [hquote, hdouble, hnumber, hstart, htake, decide_false, Bool.or_self,
      Bool.false_eq_true, if_false, if_true]
    rw [← htext, String.ofList_toList]

theorem Spells.number {text : String} (hnumeral : isNumeral text = true) (hrest : EndsToken rest)
    (h : Spells rest kinds) : Spells (text.toList ++ rest) (.number text :: kinds) := by
  unfold isNumeral at hnumeral
  split at hnumeral
  · cases hnumeral
  · rename_i first tail htext
    rw [Bool.and_eq_true] at hnumeral
    obtain ⟨hstart, htail⟩ := hnumeral
    obtain ⟨hblank, hsymbol, hquote, hdouble⟩ := Lexeme.of_startsNumber hstart
    rw [htext]
    apply h.lexeme tail hblank
    intro position
    -- a minus sign starts a number by the digit after it
    have hnumber : Lexeme.startsNumber first (tail ++ rest) = true := by
      cases tail with
      | nil => simp_all [Lexeme.startsNumber]
      | cons c tail => exact hstart
    have htake := takeWhile_append_of_head? htail fun c hc => (hrest c hc).2
    rw [Lexeme.read, Lexeme.symbol?_eq_none hsymbol]
    simp only [hquote, hdouble, hnumber, htake, decide_false, Bool.or_self, Bool.false_eq_true,
      if_false, if_true]
    rw [← htext, String.ofList_toList]

/-- Quoted text may hold any characters. -/
theorem Spells.quoted (text : String) (h : Spells rest kinds) :
    Spells ((quoted text).toList ++ rest) (.quoted text :: kinds) := by
  have hread : Lexeme.readQuoted quoteMark (protect text.toList ++ [quoteMark] ++ rest) =
      some (text.toList, (protect text.toList ++ [quoteMark]).length) := by
    rw [List.append_assoc, List.length_append]
    exact Lexeme.readQuoted_protect text.toList rest
  rw [IndexQuery.quoted, String.toList_ofList]
  apply h.lexeme (protect text.toList ++ [quoteMark]) (by decide)
  intro position
  rw [Lexeme.read, Lexeme.symbol?_eq_none (by decide)]
  simp only [decide_true, Bool.true_or, if_true, hread, String.ofList_toList]

/-! ## Written text -/

/-- Whether a text is written from tokens of the given kinds, wherever it stands. -/
def Writes (text : String) (kinds : List TokenKind) : Prop :=
  ∀ (rest : List Char) (others : List TokenKind), EndsToken rest → Spells rest others →
    Spells (text.toList ++ rest) (kinds ++ others)

theorem endsToken_nil : EndsToken [] := by
  rintro _ ⟨⟩

theorem endsToken_cons {c : Char}
    (hc : Lexeme.isWordPart c = false ∧ Lexeme.isNumberPart c = false) (rest : List Char) :
    EndsToken (c :: rest) := by
  rintro d ⟨rfl⟩
  exact hc

theorem Spells.inParens {text : String} {inner : List TokenKind} {rest : List Char}
    {others : List TokenKind} (hrest : Spells rest others) (h : Writes text inner) :
    Spells ('(' :: (text.toList ++ ')' :: rest)) (IndexQuery.inParens inner ++ others) := by
  have hinner := h _ _ (endsToken_cons (by decide) rest) hrest.closeParen
  simpa [IndexQuery.inParens] using hinner.openParen

theorem Writes.inParens {text : String} {inner : List TokenKind} (h : Writes text inner) :
    Writes ("(" ++ text ++ ")") (inParens inner) := by
  intro rest others _ hrest
  simpa using hrest.inParens h

/-- Texts with a token between them. -/
theorem Writes.intercalate {α : Type} {separator : String} {between : TokenKind} {items : List α}
    {text : α → String} {inner : α → List TokenKind}
    (hseparator : ∀ rest others, Spells rest others →
      Spells (separator.toList ++ rest) (between :: others))
    (hends : ∀ rest, EndsToken (separator.toList ++ rest))
    (hitems : ∀ a ∈ items, Writes (text a) (inner a)) :
    Writes (separator.intercalate (items.map text)) ([between].intercalate (items.map inner)) := by
  induction items with
  | nil =>
    intro rest others _ hrest
    simpa using hrest
  | cons a items ih =>
    have ha := hitems a List.mem_cons_self
    have hothers := ih fun b hb => hitems b (List.mem_cons_of_mem a hb)
    cases items with
    | nil => simpa using ha
    | cons b items =>
      -- the separator ends the token before it
      intro rest others hends' hrest
      have hjoined := ha _ _ (hends _) (hseparator _ _ (hothers rest others hends' hrest))
      simpa [String.intercalate_cons_cons, List.intercalate_cons_cons] using hjoined

theorem writes_name {name : String} (h : isName name = true) : Writes name [.word name] := by
  intro rest others hends hrest
  rw [isName, Bool.and_eq_true, Bool.not_eq_true'] at h
  have hword := hrest.word h.1 hends
  rwa [classifyWord_of_not_keyword h.2] at hword

theorem writes_keyword {text : String} {kind : TokenKind} (hword : isWord text = true)
    (hkind : Lexeme.classifyWord text = kind) : Writes text [kind] := by
  intro rest others hends hrest
  rw [← hkind]
  exact hrest.word hword hends

theorem writes_literal {literal : Literal} (h : literal.isPrintable = true) :
    Writes literal.render [literal.token] := by
  cases literal with
  | string text => exact fun rest others _ hrest => hrest.quoted text
  | number text => exact fun rest others hends hrest => hrest.number h hends
  | null => exact writes_keyword (by decide) (by decide +kernel)

theorem writes_argument {a : Argument} (h : a.isPrintable = true) :
    Writes a.render [a.token] := by
  cases a with
  | field name | identifier name =>
    rw [Argument.isPrintable, Bool.and_eq_true] at h
    exact writes_name h.1
  | literal value => exact writes_literal h

theorem writes_markerValue (note : Option DropNote) :
    Writes (markerValue note) [markerToken note] := by
  cases note with
  | some note => exact fun rest others _ hrest => hrest.quoted note.reason
  | none => exact writes_keyword (by decide) (by decide +kernel)

theorem writes_comparison {leaf : Comparison} (hfield : isName leaf.field = true)
    (hliteral : leaf.literal.isPrintable = true) :
    Writes leaf.render [.word leaf.field, .op leaf.op, leaf.literal.token] := by
  intro rest others hends hrest
  have hvalue := writes_literal hliteral rest others hends hrest
  have hfull := writes_name hfield _ _ (endsToken_cons (by decide) _) (hvalue.op leaf.op)
  simpa [Comparison.render] using hfull

theorem writes_call {c : Call} (hfamily : isName c.family = true) (hname : isName c.name = true)
    (hargs : ∀ a ∈ c.args, a.isPrintable = true) : Writes c.render c.tokens := by
  have hlist : Writes (", ".intercalate (c.args.map Argument.render))
      ([TokenKind.comma].intercalate (c.args.map fun a => [a.token])) :=
    Writes.intercalate (fun _ _ h => h.blank.comma) (fun _ => endsToken_cons (by decide) _)
      fun a ha => writes_argument (hargs a ha)
  intro rest others hends hrest
  have hcall := writes_name hname _ _ (endsToken_cons (by decide) _) (hrest.inParens hlist)
  have hfull := writes_name hfamily _ _ (endsToken_cons (by decide) _) hcall.colon
  simpa [Call.render, Call.tokens] using hfull

theorem writes_assignment (m : Marker) (note : Option DropNote) :
    Writes (m.label ++ " = " ++ markerValue note) [.word m.label, .assign, markerToken note] := by
  have hlabel : isName m.label = true := by
    cases m <;> decide +kernel
  intro rest others hends hrest
  have hvalue := writes_markerValue note rest others hends hrest
  have hfull := writes_name hlabel _ _ (endsToken_cons (by decide) _) hvalue.assign
  simpa using hfull

/-- The children of a junction have its operator between them. -/
theorem spells_separator (kind : Junction) {rest : List Char} {others : List TokenKind}
    (h : Spells rest others) : Spells (kind.separator.toList ++ rest) (kind.token :: others) := by
  cases kind with
  | and => exact (h.blank.symbol ['&'] rfl).blank
  | or => exact (h.blank.symbol ['|'] rfl).blank

theorem endsToken_separator (kind : Junction) (rest : List Char) :
    EndsToken (kind.separator.toList ++ rest) := by
  cases kind <;> exact endsToken_cons (by decide) _

end Token

namespace Query

/-- The text of a printable query is written from its tokens. -/
theorem writes_renderWith {q : Query} (h : q.Printable) (outer : Bool) :
    Token.Writes (q.renderWith outer) (q.tokensWith outer) := by
  induction q using Query.induction generalizing outer with
  | junction kind cs ih =>
    have hoperands : ∀ c ∈ cs, Token.Writes (renderOperand c) (operandTokens c) := by
      intro c hc
      have hwrites := ih c hc (h.of_mem_children hc) true
      unfold renderOperand operandTokens
      split
      · exact hwrites.inParens
      · exact hwrites
    rw [renderWith, tokensWith, renderOperands_eq_map, tokensOfOperands_eq_map]
    exact Token.Writes.intercalate (fun _ _ => Token.spells_separator kind)
      (Token.endsToken_separator kind) hoperands
  | not c ih =>
    have hchild := ih (h.of_mem_children List.mem_cons_self) false
    intro rest others hends hrest
    have hfull := (hrest.inParens hchild).not
    simpa [renderWith, tokensWith] using hfull
  | compare leaf =>
    have hnode := (every_iff.1 h).1
    rw [isPrintableNode, Bool.and_eq_true] at hnode
    exact Token.writes_comparison hnode.1 hnode.2
  | call c =>
    have hnode := (every_iff.1 h).1
    simp only [isPrintableNode, Bool.and_eq_true, List.all_eq_true] at hnode
    exact Token.writes_call hnode.1.1 hnode.1.2 hnode.2
  | group c ih =>
    have hchild := ih (h.of_mem_children List.mem_cons_self)
    rw [renderWith, tokensWith]
    split
    · exact (hchild true).inParens
    · exact hchild false
  | marked m note c ih =>
    have hchild := ih (h.of_mem_children List.mem_cons_self) false
    have hassignment := Token.writes_assignment m note
    intro rest others hends hrest
    -- a marker is written as a conjunction of the assignment and what it marks
    have hsecond := Token.spells_separator .and (hrest.closeParen.inParens hchild)
    have hfull := (hsecond.inParens hassignment).openParen
    simpa [renderWith, tokensWith, inParens, Junction.separator, Junction.token] using hfull

/-- The text of a printable query is cut into its tokens. -/
theorem spells_render {q : Query} (h : q.Printable) :
    Token.Spells q.render.toList (q.tokensWith true) := by
  have hspells := writes_renderWith h true [] [] Token.endsToken_nil Token.spells_nil
  rwa [List.append_nil, List.append_nil] at hspells

end Query

end IndexQuery
