import IndexQuery.Normalizer.Address

/-! # Padded addresses

    A padded address is four octets of three digits each, and is its own padded form.

    * `Unicode.trimmed_trim`: what is trimmed has nothing more to trim.
    * `Address.pad?_eq_some`: what an address and its padded form look like.
    * `Address.pad?_pad?`: padding is idempotent.
-/

namespace IndexQuery

/-! ## White space -/

namespace Unicode

/-- A text without white space at either end. -/
structure Trimmed (cs : List Char) : Prop where
  start : trimStart cs = cs
  finish : trimStart cs.reverse = cs.reverse

theorem Trimmed.trim_eq {cs : List Char} (h : Trimmed cs) : trim cs = cs := by
  rw [trim, h.start, h.finish, List.reverse_reverse]

/-- What remains behind leading white space is empty or starts with something else. -/
theorem trimStart_eq (cs : List Char) :
    trimStart cs = [] ∨ ∃ c rest, trimStart cs = c :: rest ∧ isBlank c = false := by
  cases hcs : trimStart cs with
  | nil => exact .inl rfl
  | cons c rest =>
    have hdrop : cs.dropWhile isBlank = c :: rest := hcs
    have hhead := List.head_dropWhile_not isBlank (List.ne_nil_of_mem (hdrop ▸ List.mem_cons_self))
    simp only [hdrop, List.head_cons] at hhead
    exact .inr ⟨c, rest, rfl, hhead⟩

theorem trimStart_trimStart (cs : List Char) : trimStart (trimStart cs) = trimStart cs := by
  rcases trimStart_eq cs with hnil | ⟨c, rest, hcons, hc⟩
  · rw [hnil]
    rfl
  · rw [hcons, trimStart, List.dropWhile_cons_of_neg (by simp [hc])]

theorem trimmed_trim (cs : List Char) : Trimmed (trim cs) := by
  have hfinish : trimStart (trim cs).reverse = (trim cs).reverse := by
    rw [trim, List.reverse_reverse, trimStart_trimStart]
  refine ⟨?_, hfinish⟩
  -- what is left at the end is a front part of a text that starts without white space
  obtain ⟨dropped, hdropped⟩ := List.dropWhile_suffix (l := (trimStart cs).reverse) isBlank
  have hfront : trimStart cs = trim cs ++ dropped.reverse := by
    show trimStart cs = ((trimStart cs).reverse.dropWhile isBlank).reverse ++ dropped.reverse
    rw [← List.reverse_append, hdropped, List.reverse_reverse]
  rcases trimStart_eq cs with hnil | ⟨c, rest, hcons, hc⟩
  · rw [hnil] at hfront
    rw [(List.append_eq_nil_iff.1 hfront.symm).1]
    rfl
  · cases htrim : trim cs with
    | nil => rfl
    | cons first others =>
      rw [hcons, htrim, List.cons_append] at hfront
      rw [trimStart, List.dropWhile_cons_of_neg]
      rw [← (List.cons.inj hfront).1, hc]
      decide

theorem trimmed_of_forall {cs : List Char} (h : ∀ c ∈ cs, isBlank c = false) : Trimmed cs := by
  have hstay : ∀ ds : List Char, (∀ c ∈ ds, isBlank c = false) → trimStart ds = ds := by
    intro ds hds
    cases ds with
    | nil => rfl
    | cons c rest => rw [trimStart, List.dropWhile_cons_of_neg (by simp [hds c List.mem_cons_self])]
  exact ⟨hstay cs h, hstay cs.reverse fun c hc => h c (List.mem_reverse.1 hc)⟩

/-- Only white space is trimmed. -/
theorem mem_trim_or_isBlank {cs : List Char} {c : Char} (h : c ∈ cs) :
    c ∈ trim cs ∨ isBlank c = true := by
  have hstart : ∀ ds : List Char, c ∈ ds → c ∈ trimStart ds ∨ isBlank c = true := by
    intro ds hds
    rw [← List.takeWhile_append_dropWhile (p := isBlank) (l := ds), List.mem_append] at hds
    rcases hds with htaken | hleft
    · exact .inr (List.all_eq_true.1 List.all_takeWhile c htaken)
    · exact .inl hleft
  rcases hstart cs h with hfront | hblank
  · rcases hstart _ (List.mem_reverse.2 hfront) with hback | hblank
    · exact .inl (List.mem_reverse.2 hback)
    · exact .inr hblank
  · exact .inr hblank

/-- Trimming goes with a change of characters that leaves white space alone. -/
theorem trim_map {f : Char → Char} (hf : ∀ c, isBlank (f c) = isBlank c) (cs : List Char) :
    trim (cs.map f) = (trim cs).map f := by
  have hstart : ∀ ds : List Char, trimStart (ds.map f) = (trimStart ds).map f := by
    intro ds
    rw [trimStart, List.dropWhile_map]
    congr 2
    exact funext hf
  rw [trim, hstart, ← List.map_reverse, hstart, trim, ← List.map_reverse]

end Unicode

namespace Address

/-! ## Parts -/

theorem splitDots_of_forall {part : List Char} (h : ∀ c ∈ part, c ≠ '.') :
    splitDots part = [part] := by
  induction part with
  | nil => rfl
  | cons c rest ih =>
    obtain ⟨hc, hrest⟩ := List.forall_mem_cons.1 h
    rw [splitDots, if_neg hc, ih hrest]

theorem splitDots_append {part : List Char} (rest : List Char) (h : ∀ c ∈ part, c ≠ '.') :
    splitDots (part ++ '.' :: rest) = part :: splitDots rest := by
  induction part with
  | nil => rw [List.nil_append, splitDots, if_pos rfl]
  | cons c part ih =>
    obtain ⟨hc, hpart⟩ := List.forall_mem_cons.1 h
    rw [List.cons_append, splitDots, if_neg hc, ih hpart]

/-- Every character is a dot or in one of the parts. -/
theorem mem_splitDots {cs : List Char} {c : Char} (h : c ∈ cs) :
    c = '.' ∨ ∃ part ∈ splitDots cs, c ∈ part := by
  induction cs with
  | nil => cases h
  | cons first rest ih =>
    by_cases hdot : first = '.'
    · rw [splitDots, if_pos hdot]
      rcases List.mem_cons.1 h with rfl | hrest
      · exact .inl hdot
      · rcases ih hrest with hc | ⟨part, hpart, hc⟩
        · exact .inl hc
        · exact .inr ⟨part, List.mem_cons_of_mem _ hpart, hc⟩
    · rw [splitDots, if_neg hdot]
      -- the first character goes to the front part
      cases hparts : splitDots rest with
      | nil =>
        rcases List.mem_cons.1 h with rfl | hrest
        · exact .inr ⟨_, List.mem_cons_self, List.mem_cons_self⟩
        · rcases ih hrest with hc | ⟨part, hpart, -⟩
          · exact .inl hc
          · rw [hparts] at hpart
            cases hpart
      | cons front parts =>
        rcases List.mem_cons.1 h with rfl | hrest
        · exact .inr ⟨_, List.mem_cons_self, List.mem_cons_self⟩
        · rcases ih hrest with hc | ⟨part, hpart, hc⟩
          · exact .inl hc
          · rw [hparts] at hpart
            rcases List.mem_cons.1 hpart with rfl | hpart
            · exact .inr ⟨_, List.mem_cons_self, List.mem_cons_of_mem _ hc⟩
            · exact .inr ⟨part, List.mem_cons_of_mem _ hpart, hc⟩

/-! ## Octets -/

/-- A padded octet: three digits that write a number up to 255. -/
structure Octet (octet : List Char) : Prop where
  length : octet.length = 3
  digits : ∀ c ∈ octet, c.isDigit = true
  value : decimalValue octet ≤ 255

/-- Leading zeros do not change the number. -/
theorem decimalValue_zeros (k : Nat) (digits : List Char) :
    decimalValue (List.replicate k '0' ++ digits) = decimalValue digits := by
  unfold decimalValue
  rw [List.foldl_append]
  congr 1
  induction k with
  | zero => rfl
  | succ k ih =>
    rw [List.replicate_succ, List.foldl_cons]
    exact ih

theorem padOctet_eq_some {digits octet : List Char} (h : padOctet digits = some octet) :
    Octet octet ∧ ∀ c ∈ digits, c.isDigit = true := by
  unfold padOctet at h
  split at h
  · cases h
  · rename_i hshape
    simp only [Bool.or_eq_true, decide_eq_true_eq, Bool.not_eq_true', not_or, Bool.not_eq_false,
      Nat.not_lt] at hshape
    obtain ⟨⟨-, hlength⟩, hdigits⟩ := hshape
    rw [List.all_eq_true] at hdigits
    split at h
    · cases h
    · rename_i hvalue
      cases h
      -- three digits with zeros in front, of the same value
      refine ⟨⟨?_, ?_, ?_⟩, hdigits⟩
      · rw [List.length_append, List.length_replicate]
        omega
      · intro c hc
        rcases List.mem_append.1 hc with hzero | hdigit
        · rw [(List.mem_replicate.1 hzero).2]
          rfl
        · exact hdigits c hdigit
      · rw [decimalValue_zeros]
        omega

/-- A padded octet is padded as it is. -/
theorem Octet.padOctet_eq {octet : List Char} (h : Octet octet) : padOctet octet = some octet := by
  have hne : octet.isEmpty = false := by
    cases octet with
    | nil => cases h.length
    | cons c rest => rfl
  have hdigits : octet.all Char.isDigit = true := List.all_eq_true.2 h.digits
  rw [padOctet, if_neg (by simp [hne, h.length, hdigits]), if_neg (by have := h.value; omega),
    h.length]
  rfl

theorem Octet.ne_dot {octet : List Char} (h : Octet octet) : ∀ c ∈ octet, c ≠ '.' := by
  rintro c hc rfl
  cases h.digits '.' hc

/-! ## Addresses -/

/-- An address has digits, dots and white space around, and its padded form has four
    octets. -/
theorem pad?_eq_some {text padded : List Char} (h : pad? text = some padded) :
    (∃ a b c d, Octet a ∧ Octet b ∧ Octet c ∧ Octet d ∧
        padded = a ++ '.' :: (b ++ '.' :: (c ++ '.' :: d))) ∧
      ∀ c ∈ text, c.isDigit = true ∨ c = '.' ∨ Unicode.isBlank c = true := by
  unfold pad? at h
  split at h
  · rename_i a b c d hparts
    simp only [Option.bind_eq_bind, Option.bind_eq_some_iff, Option.pure_def,
      Option.some.injEq] at h
    obtain ⟨a', ha, b', hb, c', hc, d', hd, rfl⟩ := h
    obtain ⟨ha', hadigits⟩ := padOctet_eq_some ha
    obtain ⟨hb', hbdigits⟩ := padOctet_eq_some hb
    obtain ⟨hc', hcdigits⟩ := padOctet_eq_some hc
    obtain ⟨hd', hddigits⟩ := padOctet_eq_some hd
    refine ⟨⟨a', b', c', d', ha', hb', hc', hd', by simp⟩, ?_⟩
    intro x hx
    -- what is not trimmed is a dot or in one of the four parts
    rcases Unicode.mem_trim_or_isBlank hx with htrim | hblank
    · rcases mem_splitDots htrim with hdot | ⟨part, hpart, hxpart⟩
      · exact .inr (.inl hdot)
      · rw [hparts] at hpart
        simp only [List.mem_cons, List.not_mem_nil, or_false] at hpart
        rcases hpart with rfl | rfl | rfl | rfl
        · exact .inl (hadigits x hxpart)
        · exact .inl (hbdigits x hxpart)
        · exact .inl (hcdigits x hxpart)
        · exact .inl (hddigits x hxpart)
    · exact .inr (.inr hblank)
  · cases h

theorem isBlank_of_isDigit {c : Char} (h : c.isDigit = true) : Unicode.isBlank c = false := by
  rw [Bool.eq_false_iff]
  intro hblank
  obtain ⟨range, hrange, hlow, hhigh⟩ := CharSet.exists_range_of_contains hblank
  have hdigit : 48 ≤ c.toNat ∧ c.toNat ≤ 57 := by
    simpa [Char.isDigit, UInt32.le_iff_toNat_le] using h
  simp only [Unicode.blanks, List.mem_cons, List.not_mem_nil, or_false] at hrange
  rcases hrange with rfl | rfl | rfl | rfl | rfl | rfl | rfl | rfl | rfl | rfl <;> omega

/-- Four octets have digits, and the dots between them. -/
theorem mem_octets {a b c d : List Char} (ha : Octet a) (hb : Octet b) (hc : Octet c)
    (hd : Octet d) {x : Char} (hx : x ∈ a ++ '.' :: (b ++ '.' :: (c ++ '.' :: d))) :
    x.isDigit = true ∨ x = '.' := by
  simp only [List.mem_append, List.mem_cons] at hx
  rcases hx with hx | rfl | hx | rfl | hx | rfl | hx
  · exact .inl (ha.digits x hx)
  · exact .inr rfl
  · exact .inl (hb.digits x hx)
  · exact .inr rfl
  · exact .inl (hc.digits x hx)
  · exact .inr rfl
  · exact .inl (hd.digits x hx)

theorem trimmed_octets {a b c d : List Char} (ha : Octet a) (hb : Octet b) (hc : Octet c)
    (hd : Octet d) : Unicode.Trimmed (a ++ '.' :: (b ++ '.' :: (c ++ '.' :: d))) := by
  apply Unicode.trimmed_of_forall
  intro x hx
  rcases mem_octets ha hb hc hd hx with hdigit | rfl
  · exact isBlank_of_isDigit hdigit
  · rfl

/-- Padding is idempotent. -/
theorem pad?_pad? {text padded : List Char} (h : pad? text = some padded) :
    pad? padded = some padded := by
  obtain ⟨⟨a, b, c, d, ha, hb, hc, hd, rfl⟩, -⟩ := pad?_eq_some h
  rw [pad?, (trimmed_octets ha hb hc hd).trim_eq, splitDots_append _ ha.ne_dot,
    splitDots_append _ hb.ne_dot, splitDots_append _ hc.ne_dot, splitDots_of_forall hd.ne_dot]
  simp [ha.padOctet_eq, hb.padOctet_eq, hc.padOctet_eq, hd.padOctet_eq]

end Address

end IndexQuery
