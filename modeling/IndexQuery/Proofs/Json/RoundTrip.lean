import IndexQuery.Json.Parser
import IndexQuery.Json.Writer
import IndexQuery.Proofs.Text.Digits

/-! # JSON is read as it was written

    A value is written on several lines. Its tokens are found again, since blanks between
    them do not count and since a number ends where it is followed by a comma or a line
    break. From the tokens the value is read again.

    * `Written`: the values that are read again, those whose numbers are counts.
    * `Scans`: what it means for a text to be written for some tokens.
    * `scans_write`: a value is written for its tokens.
    * `parse?_render`: a value is read as it was written.
-/

namespace IndexQuery.Json

/-- A value whose numbers are counts. -/
inductive Written : Json → Prop where
  | null : Written .null
  | bool (value : Bool) : Written (.bool value)
  | count (n : Nat) : Written (.ofNat n)
  | string (text : Option String) : Written (.string text)
  | array {items : List Json} (h : ∀ j ∈ items, Written j) : Written (.array items)
  | object {members : List (Option String × Json)} (h : ∀ m ∈ members, Written m.2) :
    Written (.object members)

/-! ## The tokens of a value -/

mutual

/-- The tokens that a value is written in. -/
def tokensOf : Json → List Token
  | .null => [.null]
  | .bool b => [.bool b]
  | .number text => [.number text]
  | .string text => [.string text]
  | .array [] => [.openArray, .closeArray]
  | .array (item :: items) => .openArray :: tokensOf item ++ tokensOfItems items ++ [.closeArray]
  | .object [] => [.openObject, .closeObject]
  | .object ((key, value) :: members) =>
    .openObject :: .string key :: .colon :: tokensOf value ++ tokensOfMembers members ++
      [.closeObject]

/-- The tokens of the items of an array after the first. -/
def tokensOfItems : List Json → List Token
  | [] => []
  | item :: items => .comma :: tokensOf item ++ tokensOfItems items

/-- The tokens of the members of an object after the first. -/
def tokensOfMembers : List (Option String × Json) → List Token
  | [] => []
  | (key, value) :: members =>
    .comma :: .string key :: .colon :: tokensOf value ++ tokensOfMembers members

end

/-! ## Scanning -/

/-- Whether a number ends before the text. -/
def EndsNumber (rest : List Char) : Prop :=
  ∀ c ∈ rest.head?, c.isDigit = false ∧ c ≠ '.' ∧ c ≠ 'e' ∧ c ≠ 'E'

/-- A text gives some tokens in front of every text before which a number ends. -/
def Scans (text : List Char) (ts : List Token) : Prop :=
  ∀ rest, EndsNumber rest → scan? 0 (text ++ rest) = (scan? 0 rest).map (ts ++ ·)

/-- A text gives some tokens, and a number before it ends. -/
structure Closes (text : List Char) (ts : List Token) : Prop where
  scans : Scans text ts
  ends : ∀ rest, EndsNumber (text ++ rest)

theorem endsNumber_nil : EndsNumber [] := by simp [EndsNumber]

theorem endsNumber_cons {c : Char} {rest : List Char}
    (h : c.isDigit = false ∧ c ≠ '.' ∧ c ≠ 'e' ∧ c ≠ 'E') : EndsNumber (c :: rest) := by
  simpa [EndsNumber] using h

theorem endsNumber_head {c : Char} {rest : List Char} (h : EndsNumber (c :: rest)) :
    c.isDigit = false ∧ c ≠ '.' ∧ c ≠ 'e' ∧ c ≠ 'E' := h c rfl

/-- What belongs to the token before is passed over. -/
theorem scan?_append (front rest : List Char) :
    scan? front.length (front ++ rest) = scan? 0 rest := by
  induction front with
  | nil => rfl
  | cons c front ih =>
    rw [List.length_cons, List.cons_append, scan?, if_pos (Nat.succ_pos _), Nat.add_sub_cancel, ih]

/-- A token begins with `c` and takes some more characters. -/
theorem scan?_token {c : Char} {t : Token} {rest : List Char} (more : List Char) (hspace : isSpace c = false)
    (hread : readToken c (more ++ rest) = some (t, more.length)) :
    scan? 0 (c :: (more ++ rest)) = (scan? 0 rest).map (t :: ·) := by
  rw [scan?, if_neg (Nat.lt_irrefl 0), if_neg (by simp [hspace]), hread]
  simp only [Option.bind_eq_bind, Option.bind_some, scan?_append]
  cases scan? 0 rest <;> rfl

namespace Scans

variable {a b : List Char} {ts us : List Token} {c : Char} {t : Token}

theorem nil : Scans [] [] := by simp [Scans]

/-- Texts follow each other, if a number in the first one ends before the second one. -/
theorem append (ha : Scans a ts) (hb : Closes b us) : Scans (a ++ b) (ts ++ us) := by
  intro rest hrest
  rw [List.append_assoc, ha _ (hb.ends rest), hb.scans rest hrest, Option.map_map]
  congr 1
  funext vs
  simp

/-- A text begins with a bracket, a comma or a colon. -/
theorem sign (hspace : isSpace c = false) (hread : ∀ rest, readToken c rest = some (t, 0))
    (ha : Scans a ts) : Scans (c :: a) (t :: ts) := by
  intro rest hrest
  have hscan : scan? 0 (c :: (a ++ rest)) = (scan? 0 (a ++ rest)).map (t :: ·) :=
    scan?_token [] hspace (hread _)
  rw [List.cons_append, hscan, ha rest hrest, Option.map_map]
  rfl

/-- Blanks between tokens do not count. -/
theorem blank (hspace : isSpace c = true) (ha : Scans a ts) : Scans (c :: a) ts := by
  intro rest hrest
  rw [List.cons_append, scan?, if_neg (Nat.lt_irrefl 0), if_pos hspace, ha rest hrest]

theorem lineBreak (level : Nat) (ha : Scans a ts) : Scans (lineBreak level ++ a) ts := by
  refine blank rfl ?_
  induction 2 * level with
  | zero => exact ha
  | succ n ih => exact blank rfl ih

end Scans

/-! ### Numbers -/

section Count

variable {n : Nat} {rest : List Char}

theorem isDigit_of_mem_toDigits {c : Char} (hc : c ∈ Nat.toDigits 10 n) : c.isDigit = true :=
  Nat.isDigit_of_mem_toDigits (by decide) (by decide) hc

theorem exists_cons_toDigits (n : Nat) : ∃ c digits, Nat.toDigits 10 n = c :: digits :=
  List.exists_cons_of_ne_nil Nat.toDigits_ne_nil

theorem digitCount_toDigits (hrest : EndsNumber rest) :
    digitCount (Nat.toDigits 10 n ++ rest) = (Nat.toDigits 10 n).length := by
  have hnone : rest.takeWhile Char.isDigit = [] := by
    cases rest with
    | nil => rfl
    | cons c rest => rw [List.takeWhile_cons_of_neg (by simp [(endsNumber_head hrest).1])]
  rw [digitCount, List.takeWhile_append_of_pos fun c hc => isDigit_of_mem_toDigits hc, hnone,
    List.append_nil]

/-- All digits belong to the whole part: the first one is no zero, or the only one. -/
theorem wholeLength?_toDigits (hrest : EndsNumber rest) :
    wholeLength? (Nat.toDigits 10 n ++ rest) = some (Nat.toDigits 10 n).length := by
  unfold wholeLength?
  split
  · rename_i more hzero
    obtain ⟨c, digits, hdigits⟩ := exists_cons_toDigits n
    rw [hdigits, List.cons_append] at hzero
    have hnil : digits = [] := Text.eq_nil_of_toDigits (by rw [hdigits, (List.cons.inj hzero).1])
    rw [hdigits, hnil]
    rfl
  · rw [digitCount_toDigits hrest, if_neg (by simp [Nat.toDigits_ne_nil])]

/-- A number ends with its digits where no fraction and no exponent follows. -/
theorem numberLength?_toDigits (hrest : EndsNumber rest) :
    numberLength? (Nat.toDigits 10 n ++ rest) = some (Nat.toDigits 10 n).length := by
  have hsign : (Nat.toDigits 10 n).head? ≠ some '-' := by
    intro hminus
    have hdigit := isDigit_of_mem_toDigits (List.mem_of_head? hminus)
    revert hdigit
    decide
  have hfraction : fractionLength? rest = some 0 := by
    unfold fractionLength?
    split
    · exact absurd rfl (endsNumber_head hrest).2.1
    · rfl
  have hexponent : exponentLength? rest = some 0 := by
    unfold exponentLength?
    split
    · have hc := endsNumber_head hrest
      rw [if_neg (by simp [hc.2.2])]
    · rfl
  simp [numberLength?, hsign, wholeLength?_toDigits hrest, hfraction, hexponent]

/-- A digit starts no other token than a number. -/
theorem readToken_digit {c : Char} (hc : c.isDigit = true) (rest : List Char) :
    readToken c rest = (numberLength? (c :: rest)).map fun n =>
      (.number (String.ofList ((c :: rest).take n)), n - 1) := by
  unfold readToken
  split
  case h_11 => rfl
  all_goals exact absurd hc (by decide)

theorem scans_count (n : Nat) : Scans (toString n).toList [.number (toString n)] := by
  rw [Nat.toString_eq_ofList_toDigits, String.toList_ofList]
  obtain ⟨c, digits, hdigits⟩ := exists_cons_toDigits n
  have hc : c.isDigit = true := isDigit_of_mem_toDigits (hdigits ▸ List.mem_cons_self)
  have hspace : isSpace c = false := by
    rw [Bool.eq_false_iff]
    intro hspace
    simp only [isSpace, Bool.or_eq_true, beq_iff_eq] at hspace
    rcases hspace with ((rfl | rfl) | rfl) | rfl <;> exact absurd hc (by decide)
  rw [hdigits]
  intro rest hrest
  have hlength := numberLength?_toDigits (n := n) hrest
  rw [hdigits, List.cons_append] at hlength
  rw [List.cons_append, scan?_token digits hspace]
  · rfl
  · rw [readToken_digit hc, hlength, ← List.cons_append, Option.map_some, List.take_left]
    rfl

end Count

/-! ### Strings -/

theorem hexValue?_hexDigit : ∀ n < 16, hexValue? (hexDigit n) = some n := by decide

/-- What belongs to an escape is passed over. -/
theorem readString_append (front rest : List Char) : readString front.length (front ++ rest) =
    (readString 0 rest).map fun (text, n) => (text, n + front.length) := by
  induction front with
  | nil => simp
  | cons c front ih =>
    rw [List.length_cons, List.cons_append, readString]
    simp only [Nat.succ_pos, if_true, Nat.add_sub_cancel, ih, Option.bind_eq_bind, Option.bind_map]
    cases readString 0 rest <;> simp [Nat.add_assoc]

/-- A backslash and what its escape stands for. -/
theorem readString_escape {rest : List Char} {c : Char} (more : List Char)
    (h : readEscape (more ++ rest) = some (some c, more.length)) :
    readString 0 ('\\' :: (more ++ rest)) =
      (readString 0 rest).map fun (text, n) => (prepend (some c) text, n + (more.length + 1)) := by
  rw [readString]
  simp only [Nat.lt_irrefl, if_false, Char.reduceEq, if_true, h, Option.bind_eq_bind,
    Option.bind_some, readString_append, Option.bind_map]
  cases readString 0 rest <;> simp [Nat.add_assoc]

/-- A control character is read from its number. -/
theorem readEscape_control {c : Char} (hlow : c.toNat < 0x20) (rest : List Char) :
    readEscape ('u' :: '0' :: '0' :: hexDigit (c.toNat / 16) :: hexDigit (c.toNat % 16) :: rest) =
      some (some c, 5) := by
  have hzero : hexValue? '0' = some 0 := rfl
  have hvalue : hexValue4? '0' '0' (hexDigit (c.toNat / 16)) (hexDigit (c.toNat % 16)) =
      some c.toNat := by
    simp only [hexValue4?, hzero, hexValue?_hexDigit (c.toNat / 16) (by omega),
      hexValue?_hexDigit (c.toNat % 16) (by omega), Option.bind_eq_bind, Option.bind_some,
      Option.pure_def, Option.some.injEq]
    omega
  have hhigh : isHighSurrogate c.toNat = false := by
    simp only [isHighSurrogate, Bool.and_eq_false_iff, decide_eq_false_iff_not]
    omega
  have hlower : isLowSurrogate c.toNat = false := by
    simp only [isLowSurrogate, Bool.and_eq_false_iff, decide_eq_false_iff_not]
    omega
  simp [readEscape, codeUnit?, hvalue, hhigh, hlower, Char.ofNat_toNat]

/-- A character is read from what it is written as between quotes. -/
theorem readString_escapeChar (c : Char) (rest : List Char) :
    readString 0 (escapeChar c ++ rest) = (readString 0 rest).map fun (text, n) =>
      (prepend (some c) text, n + (escapeChar c).length) := by
  unfold escapeChar
  split
  case h_8 hquote hbackslash _ _ _ _ _ =>
    split
    · rename_i hlow
      exact readString_escape ['u', '0', '0', _, _] (readEscape_control hlow rest)
    · rename_i hhigh
      rw [List.singleton_append, readString]
      simp only [Nat.lt_irrefl, if_false, if_neg hquote, if_neg hbackslash, if_neg hhigh,
        Option.bind_eq_bind, List.length_singleton]
      cases readString 0 rest <;> rfl
  all_goals exact readString_escape [_] rfl

/-- A text is read up to the quote behind it. -/
theorem readString_escaped (text rest : List Char) :
    readString 0 (text.flatMap escapeChar ++ '"' :: rest) =
      some (some text, (text.flatMap escapeChar).length + 1) := by
  induction text with
  | nil => simp [readString]
  | cons c text ih =>
    rw [List.flatMap_cons, List.append_assoc, readString_escapeChar, ih]
    simp only [Option.map_some, prepend, Option.bind_some, List.length_append, Option.some.injEq,
      Prod.mk.injEq, true_and]
    omega

/-- A text begins with a string. -/
theorem Scans.string {a : List Char} {ts : List Token} (text : Option String) (ha : Scans a ts) :
    Scans (writeString text ++ a) (.string text :: ts) := by
  intro rest hrest
  have hstring : scan? 0 (writeString text ++ (a ++ rest)) =
      (scan? 0 (a ++ rest)).map (.string text :: ·) := by
    cases text with
    | none =>
      -- no second half follows the quote
      exact scan?_token ['\\', 'u', 'd', '8', '0', '0', '"'] rfl rfl
    | some text =>
      refine scan?_token (text.toList.flatMap escapeChar ++ ['"']) rfl ?_
      rw [readToken, List.append_assoc, List.singleton_append, readString_escaped]
      simp
  rw [List.append_assoc, hstring, ha rest hrest, Option.map_map]
  rfl

/-! ### Values -/

section Values

variable {tail : List Char} {us : List Token}

/-- A name, a colon and a value. -/
theorem scans_member {value : Json} (key : Option String) (level : Nat)
    (hvalue : Scans (write level value) (tokensOf value)) (htail : Closes tail us) :
    Scans (writeString key ++ (':' :: ' ' :: (write level value ++ tail)))
      (.string key :: .colon :: (tokensOf value ++ us)) :=
  .string key (.sign rfl (fun _ => rfl) (.blank rfl (hvalue.append htail)))

theorem closes_writeItems {items : List Json} (level : Nat)
    (h : ∀ j ∈ items, Scans (write level j) (tokensOf j)) (htail : Closes tail us) :
    Closes (writeItems level items ++ tail) (tokensOfItems items ++ us) := by
  induction items with
  | nil => exact htail
  | cons item items ih =>
    obtain ⟨hitem, hitems⟩ := List.forall_mem_cons.1 h
    rw [writeItems, tokensOfItems]
    simp only [List.append_assoc, List.cons_append]
    refine ⟨.sign rfl (fun _ => rfl) (.lineBreak level (hitem.append (ih hitems))), fun rest => ?_⟩
    exact endsNumber_cons (by decide)

theorem closes_writeMembers {members : List (Option String × Json)} (level : Nat)
    (h : ∀ m ∈ members, Scans (write level m.2) (tokensOf m.2)) (htail : Closes tail us) :
    Closes (writeMembers level members ++ tail) (tokensOfMembers members ++ us) := by
  induction members with
  | nil => exact htail
  | cons member members ih =>
    obtain ⟨hmember, hmembers⟩ := List.forall_mem_cons.1 h
    rw [writeMembers, tokensOfMembers]
    simp only [List.append_assoc, List.cons_append, List.nil_append]
    refine ⟨.sign rfl (fun _ => rfl) (.lineBreak level
      (scans_member member.1 level hmember (ih hmembers))), fun rest => ?_⟩
    exact endsNumber_cons (by decide)

/-- A closing bracket on its own line. -/
theorem closes_lineBreak {c : Char} {t : Token} (level : Nat) (hspace : isSpace c = false)
    (hread : ∀ rest, readToken c rest = some (t, 0)) : Closes (lineBreak level ++ [c]) [t] :=
  ⟨.lineBreak level (.sign hspace hread .nil), fun _ => endsNumber_cons (by decide)⟩

/-- A value is written for its tokens. -/
theorem scans_write {j : Json} (h : Written j) (level : Nat) :
    Scans (write level j) (tokensOf j) := by
  induction h generalizing level with
  | null => exact fun rest _ => scan?_token ['u', 'l', 'l'] rfl rfl
  | bool value =>
    cases value with
    | false => exact fun rest _ => scan?_token ['a', 'l', 's', 'e'] rfl rfl
    | true => exact fun rest _ => scan?_token ['r', 'u', 'e'] rfl rfl
  | count n => exact scans_count n
  | string text =>
    have hstring := Scans.string text .nil
    rwa [List.append_nil] at hstring
  | array h ih =>
    rename_i items
    cases items with
    | nil => exact .sign rfl (fun _ => rfl) (.sign rfl (fun _ => rfl) .nil)
    | cons item items =>
      obtain ⟨hitem, hitems⟩ := List.forall_mem_cons.1 ih
      -- the items stand on lines of their own, and the closing bracket ends the last one
      have hclose := closes_lineBreak (c := ']') level rfl fun _ => rfl
      rw [write, tokensOf]
      simp only [List.append_assoc, List.cons_append]
      exact .sign rfl (fun _ => rfl) (.lineBreak _
        ((hitem _).append (closes_writeItems _ (fun j hj => hitems j hj _) hclose)))
  | object h ih =>
    rename_i members
    cases members with
    | nil => exact .sign rfl (fun _ => rfl) (.sign rfl (fun _ => rfl) .nil)
    | cons member members =>
      obtain ⟨hmember, hmembers⟩ := List.forall_mem_cons.1 ih
      have hclose := closes_lineBreak (c := '\x7d') level rfl fun _ => rfl
      rw [write, tokensOf]
      simp only [List.append_assoc, List.cons_append, List.nil_append]
      exact .sign rfl (fun _ => rfl) (.lineBreak _ (scans_member member.1 _ (hmember _)
        (closes_writeMembers _ (fun m hm => hmembers m hm _) hclose)))

end Values

/-! ## Reading -/

/-- A place where a value is read. Its frames are those that the value stands in. -/
def Reading.Awaits (r : Reading) (frames : List Frame) : Prop :=
  ∀ t, t ≠ .closeArray → r.read? t = startValue? frames t

/-- Values that are read one after the other in any place. -/
def Reads (j : Json) : Prop :=
  ∀ (r : Reading) (frames : List Frame), r.Awaits frames →
    (tokensOf j).foldlM Reading.read? r = some (.behind j frames)

section Reads

variable {frames : List Frame}

theorem awaits_value : (Reading.value frames).Awaits frames := fun _ _ => rfl

/-- An array with an item begins as any place for a value. -/
theorem awaits_firstItem : (Reading.firstItem frames).Awaits (.array [] :: frames) := by
  intro t ht
  cases t with
  | closeArray => exact absurd rfl ht
  | _ => rfl

/-- A token that is no end of an array begins a value. -/
theorem foldlM_of_awaits {r : Reading} (hr : r.Awaits frames) (t : Token) (ht : t ≠ .closeArray)
    (ts : List Token) : (t :: ts).foldlM Reading.read? r =
      (Reading.startValue? frames t).bind fun next => ts.foldlM Reading.read? next := by
  rw [List.foldlM_cons, hr t ht]
  rfl

/-- What follows a value is read behind it. -/
theorem foldlM_of_reads {j : Json} (h : Reads j) {r : Reading} (hr : r.Awaits frames)
    (ts : List Token) : (tokensOf j ++ ts).foldlM Reading.read? r =
      ts.foldlM Reading.read? (.behind j frames) := by
  rw [List.foldlM_append, h r frames hr]
  rfl

/-- Items behind a value become items of its array. -/
theorem reads_items {items : List Json} (h : ∀ j ∈ items, Reads j) (v : Json) (read : List Json) :
    (tokensOfItems items ++ [Token.closeArray]).foldlM Reading.read?
        (.behind v (.array read :: frames)) =
      some (.behind (.array (read.reverse ++ v :: items)) frames) := by
  induction items generalizing v read with
  | nil => simp [tokensOfItems, Reading.read?]
  | cons item items ih =>
    obtain ⟨hitem, hitems⟩ := List.forall_mem_cons.1 h
    have hcomma : (Reading.behind v (.array read :: frames)).read? .comma =
      some (.value (.array (v :: read) :: frames)) := rfl
    rw [tokensOfItems, List.cons_append, List.cons_append, List.append_assoc, List.foldlM_cons,
      hcomma, Option.bind_eq_bind, Option.bind_some, foldlM_of_reads hitem awaits_value, ih hitems]
    simp

/-- Members behind a value become members of its object. -/
theorem reads_members {members : List (Option String × Json)} (h : ∀ m ∈ members, Reads m.2)
    (v : Json) (name : Option String) (read : List (Option String × Json)) :
    (tokensOfMembers members ++ [Token.closeObject]).foldlM Reading.read?
        (.behind v (.object read name :: frames)) =
      some (.behind (.object (read.reverse ++ (name, v) :: members)) frames) := by
  induction members generalizing v name read with
  | nil => simp [tokensOfMembers, Reading.read?]
  | cons member members ih =>
    obtain ⟨hmember, hmembers⟩ := List.forall_mem_cons.1 h
    have hkey (ts : List Token) : (.comma :: .string member.1 :: .colon :: ts).foldlM Reading.read?
        (.behind v (.object read name :: frames)) =
      ts.foldlM Reading.read? (.value (.object ((name, v) :: read) member.1 :: frames)) := rfl
    rw [tokensOfMembers]
    simp only [List.cons_append, List.append_assoc]
    rw [hkey, foldlM_of_reads hmember awaits_value, ih hmembers]
    simp

/-- A value is read from its tokens. -/
theorem reads_of_written {j : Json} (h : Written j) : Reads j := by
  induction h with
  | null => exact fun r frames hr => foldlM_of_awaits hr .null nofun []
  | bool value => exact fun r frames hr => foldlM_of_awaits hr (.bool value) nofun []
  | count n => exact fun r frames hr => foldlM_of_awaits hr (.number (toString n)) nofun []
  | string text => exact fun r frames hr => foldlM_of_awaits hr (.string text) nofun []
  | array h ih =>
    rename_i items
    intro r frames hr
    cases items with
    | nil => exact foldlM_of_awaits hr .openArray nofun [.closeArray]
    | cons item items =>
      obtain ⟨hitem, hitems⟩ := List.forall_mem_cons.1 ih
      rw [tokensOf, List.cons_append, List.cons_append, List.append_assoc,
        foldlM_of_awaits hr .openArray nofun, Reading.startValue?, Option.bind_some,
        foldlM_of_reads hitem awaits_firstItem, reads_items hitems]
      rfl
  | object h ih =>
    rename_i members
    intro r frames hr
    cases members with
    | nil => exact foldlM_of_awaits hr .openObject nofun [.closeObject]
    | cons member members =>
      obtain ⟨hmember, hmembers⟩ := List.forall_mem_cons.1 ih
      -- a key puts its object on the stack and awaits a value
      have hkey (ts : List Token) : (.string member.1 :: .colon :: ts).foldlM Reading.read?
          (.firstKey frames) =
        ts.foldlM Reading.read? (.value (.object [] member.1 :: frames)) := rfl
      rw [tokensOf]
      simp only [List.cons_append, List.append_assoc]
      rw [foldlM_of_awaits hr .openObject nofun, Reading.startValue?, Option.bind_some, hkey,
        foldlM_of_reads hmember awaits_value, reads_members hmembers]
      rfl

end Reads

/-- A value is read as it was written. -/
theorem parse?_render {j : Json} (h : Written j) : parse? j.render = some j := by
  have htokens : tokens? (write 0 j) = some (tokensOf j) := by
    have hscan := scans_write h 0 [] endsNumber_nil
    simpa [tokens?, scan?] using hscan
  have hread := reads_of_written h (.value []) [] awaits_value
  simp [parse?, render, htokens, hread, Reading.finish?]

end IndexQuery.Json
