import IndexQuery.Regex.Parser
import IndexQuery.Proofs.Regex.Parts
import IndexQuery.Proofs.Regex.Rest

/-! # What a pattern begins with

    A pattern is read between anchors, in a group of its own. A token changes the innermost
    level, opens a level or closes one; only the last piece of a level may be repeated
    afterwards. So the pieces that the group begins with stay its beginning, also when the
    pattern closes the group itself.

    * `stackStep_of_read?`: what a token does to the levels.
    * `Keeps.step`: a token keeps the beginning of the group.
    * `of_parseFrom`: what every token keeps holds of the level that is left in the end.
    * `beginning_of_parseFrom`: the whole pattern is a sequence of the anchor, of the group,
      which may be repeated, and of others.
-/

namespace IndexQuery.Regex

/-! ## Levels -/

namespace Level

/-- The expressions of the pieces, the last one first. -/
def values (level : Level) : List (Option Regex) := level.pieces.map (·.value)

/-- The level has no other alternative. Its first pieces are given, and so is what the
    piece behind them repeats. -/
def Begins (level : Level) (first : List (Option Regex)) (r : Regex) : Prop :=
  level.alternatives = [] ∧
    ∃ more r', level.values = more ++ some r' :: first ∧ r'.bare = r

variable {level : Level} {first : List (Option Regex)} {r : Regex}

theorem Begins.add (h : level.Begins first r) (piece : Nested Regex) :
    (level.add piece).Begins first r := by
  obtain ⟨halternatives, more, r', hvalues, hr'⟩ := h
  exact ⟨halternatives, some piece.value :: more, r', congrArg (_ :: ·) hvalues, hr'⟩

/-- A level without other alternatives is the sequence of its pieces. -/
theorem value_regex (h : level.alternatives = []) :
    level.regex.value = ofSeq (level.values.reverse.filterMap id) := by
  have hpieces : level.values.reverse.filterMap id =
      level.pieces.reverse.filterMap (·.value) := by
    rw [values, ← List.map_reverse, List.filterMap_map]
    rfl
  rw [hpieces, regex, h]
  rfl

theorem Begins.value_regex (h : level.Begins first r) :
    ∃ r' more, r'.bare = r ∧
      level.regex.value = ofSeq (first.reverse.filterMap id ++ r' :: more) := by
  obtain ⟨halternatives, more, r', hvalues, hr'⟩ := h
  refine ⟨r', more.reverse.filterMap id, hr', ?_⟩
  rw [Level.value_regex halternatives, hvalues]
  simp

end Level

/-! ## Tokens -/

/-- The levels, the innermost first. -/
def Levels.stack (levels : Levels) : List Level := levels.inner :: levels.outer

/-- What a token other than a bar does to the levels. -/
inductive StackStep : List Level → List Level → Prop
  | change {level level' : Level} {outer : List Level}
    (h : ∀ first r, level.Begins first r → level'.Begins first r) :
    StackStep (level :: outer) (level' :: outer)
  | open {level : Level} {stack : List Level} : StackStep stack (level :: stack)
  | close {level parent : Level} {outer : List Level} :
    StackStep (level :: parent :: outer) (parent.add level.close :: outer)

theorem stackStep_of_read? {levels levels' : Levels} {t : Token} (ht : t ≠ .bar)
    (h : levels.read? t = some levels') : StackStep levels.stack levels'.stack := by
  cases t with
  | piece r =>
    cases h
    exact .change fun _ _ hbegins => hbegins.add r
  | repetition least most short =>
    simp only [Levels.read?] at h
    split at h
    · rename_i r depth rest hpieces
      cases h
      refine .change fun first s hbegins => ?_
      obtain ⟨halternatives, more, r', hvalues, hr'⟩ := hbegins
      rw [Level.values, hpieces, List.map_cons] at hvalues
      refine ⟨halternatives, ?_⟩
      cases more with
      | nil =>
        -- the piece itself is repeated
        obtain ⟨hr, hrest⟩ := List.cons.inj hvalues
        cases hr
        exact ⟨[], .repeated r least most short, congrArg (_ :: ·) hrest, hr'⟩
      | cons piece more =>
        obtain ⟨-, hrest⟩ := List.cons.inj hvalues
        exact ⟨some (.repeated r least most short) :: more, r', congrArg (_ :: ·) hrest, hr'⟩
    · cases h
  | bar => exact absurd rfl ht
  | openGroup numbered change name =>
    simp only [Levels.read?] at h
    split at h
    · cases h
    · cases h
      exact .open
  | closeGroup =>
    simp only [Levels.read?] at h
    split at h
    · cases h
    · rename_i parent outer houter
      cases h
      rw [Levels.stack, houter]
      exact .close
  | setFlags change =>
    cases h
    refine .change fun first r hbegins => ?_
    obtain ⟨halternatives, more, r', hvalues, hr'⟩ := hbegins
    exact ⟨halternatives, none :: more, r', congrArg (_ :: ·) hvalues, hr'⟩

/-- Above some levels a token opens levels or closes them; what it adds to the innermost of
    these levels is the group that it closed. -/
theorem StackStep.append {top : Level} {above s s' : List Level}
    (h : StackStep (top :: above ++ s) s') : (∃ above', s' = above' ++ s) ∨
      ∃ (parent : Level) (outer : List Level) (piece : Nested Regex),
        s = parent :: outer ∧ s' = parent.add piece :: outer := by
  cases above with
  | nil =>
    rw [List.singleton_append] at h
    cases h with
    | change => exact .inl ⟨[_], rfl⟩
    | «open» => exact .inl ⟨[_, top], rfl⟩
    | close => exact .inr ⟨_, _, _, rfl, rfl⟩
  | cons next above =>
    rw [List.cons_append, List.cons_append] at h
    cases h with
    | change => exact .inl ⟨_ :: next :: above, rfl⟩
    | «open» => exact .inl ⟨_ :: top :: next :: above, rfl⟩
    | close => exact .inl ⟨_ :: above, rfl⟩

/-- What every token but a bar keeps of the levels holds of the level that is left when a
    pattern without bars has been read. -/
theorem of_parseFrom {P : List Level → Prop} (hstep : ∀ s s', P s → StackStep s s' → P s')
    {table : PropertyTable} {bound : Nat} {levels : Levels} {cs : List Char}
    {result : Nested Regex} (hbar : '|' ∉ cs) (hlevels : P levels.stack)
    (h : parseFrom table bound levels cs = some result) :
    ∃ level : Level, P [level] ∧ result = level.regex := by
  induction bound generalizing levels cs with
  | zero => cases h
  | succ bound ih =>
    unfold parseFrom at h
    split at h
    · split at h
      · rename_i houter
        cases h
        rw [Levels.stack, List.isEmpty_iff.1 houter] at hlevels
        exact ⟨levels.inner, hlevels, rfl⟩
      · cases h
    · rename_i c rest hskip
      simp only [Option.bind_eq_bind, Option.bind_eq_some_iff] at h
      obtain ⟨⟨t, left⟩, htoken, levels', hread, h⟩ := h
      -- no reader makes up a bar, so that the alternatives stay one
      have hcs : c :: rest <:+ cs := suffix_of_skip hskip
      have ht : t ≠ .bar := by
        rintro rfl
        exact hbar (hcs.subset (eq_of_readToken_bar htoken ▸ List.mem_cons_self))
      have hleft : left <:+ cs := (readToken_suffix htoken).trans (suffix_of_cons hcs)
      exact ih (fun hmem => hbar (hleft.subset hmem))
        (hstep _ _ hlevels (stackStep_of_read? ht hread)) h

/-! ## The group around the pattern -/

/-- The levels of a pattern between anchors: the group around it is open, or closed. It
    begins with given pieces and with what the piece behind them repeats. -/
inductive Keeps (first : List (Option Regex)) (r : Regex) : List Level → Prop
  | within {group base : Level} (above : List Level) (hgroup : group.Begins first r)
    (hbase : base.alternatives = [] ∧ base.values = [some (.look .textStart)]) :
    Keeps first r (above ++ [group, base])
  | behind {base : Level} {number : Option Nat} {r' : Regex} {more : List Regex}
    (above : List Level) (hr' : r'.bare = r)
    (hbase : base.Begins [some (.look .textStart)]
      (.group number (ofSeq (first.reverse.filterMap id ++ r' :: more)))) :
    Keeps first r (above ++ [base])

section Keeps

variable {first : List (Option Regex)} {r : Regex} {s s' : List Level}

/-- The group is closed and becomes a piece behind the anchor. -/
theorem Keeps.close {group base : Level} (hgroup : group.Begins first r)
    (hbase : base.alternatives = [] ∧ base.values = [some (.look .textStart)]) :
    Keeps first r [base.add group.close] := by
  obtain ⟨r', more, hr', hvalue⟩ := hgroup.value_regex
  have hvalues : (base.add group.close).values =
      [] ++ some (.group group.number group.regex.value) :: [some (.look .textStart)] :=
    congrArg (_ :: ·) hbase.2
  exact .behind [] hr' ⟨hbase.1, [], _, hvalues, congrArg _ hvalue⟩

theorem Keeps.step (hs : Keeps first r s) (h : StackStep s s') : Keeps first r s' := by
  cases hs with
  | within above hgroup hbase =>
    -- a token changes the top alone: what is open above the group keeps it as it is
    cases above with
    | nil =>
      cases h with
      | change hchange => exact .within [] (hchange _ _ hgroup) hbase
      | «open» => exact .within [_] hgroup hbase
      | close => exact .close hgroup hbase
    | cons top above =>
      rcases h.append with ⟨above', rfl⟩ | ⟨parent, outer, piece, hparent, rfl⟩
      · exact .within above' hgroup hbase
      · cases hparent
        exact .within [] (hgroup.add piece) hbase
  | behind above hr' hbase =>
    cases above with
    | nil =>
      cases h with
      | change hchange => exact .behind [] hr' (hchange _ _ hbase)
      | «open» => exact .behind [_] hr' hbase
    | cons top above =>
      rcases h.append with ⟨above', rfl⟩ | ⟨parent, outer, piece, hparent, rfl⟩
      · exact .behind above' hr' hbase
      · cases hparent
        exact .behind [] hr' (hbase.add piece)

end Keeps

/-! ## The beginning of the group -/

/-- The levels when some expressions of the group around a pattern have been read. -/
def opened (rs : List Regex) : Levels where
  inner := { flags := Flags.initial, pieces := rs.reverse.map fun r => ⟨some r, 0⟩ }
  outer := [{ flags := Flags.initial, pieces := [⟨some (.look .textStart), 0⟩] }]

section Opened

variable {table : PropertyTable} {bound : Nat} {rs : List Regex} {r : Regex} {c : Char}
  {cs : List Char}
  {result : Nested Regex}

theorem read?_opened (rs : List Regex) (r : Regex) :
    (opened rs).read? (.piece ⟨r, 0⟩) = some (opened (rs ++ [r])) := by
  simp [opened, Levels.read?, Level.add]

theorem values_opened (rs : List Regex) : (opened rs).inner.values = rs.reverse.map some := by
  simp [opened, Level.values]

/-- Behind an expression the group begins with those before it and with what it repeats. -/
theorem keeps_opened (rs : List Regex) (r : Regex) :
    Keeps (rs.reverse.map some) r.bare (opened (rs ++ [r])).stack := by
  refine .within [] ⟨rfl, [], r, ?_, rfl⟩ ⟨rfl, rfl⟩
  rw [values_opened, List.reverse_append, List.map_append]
  rfl

/-- A pattern of which some expressions were read becomes the anchor, the group, which may
    be repeated, and what follows it. The last of the expressions may be repeated, too. -/
theorem beginning_of_parseFrom (hbar : '|' ∉ cs)
    (h : parseFrom table bound (opened (rs ++ [r])) cs = some result) :
    ∃ g number r' more rest, result.value = ofSeq (.look .textStart :: g :: rest) ∧
      g.bare = .group number (ofSeq (rs ++ r' :: more)) ∧ r'.bare = r.bare := by
  obtain ⟨level, hlevel, rfl⟩ :=
    of_parseFrom (fun _ _ => Keeps.step) hbar (keeps_opened rs r) h
  generalize hs : [level] = s at hlevel
  cases hlevel with
  | within above hgroup hbase =>
    -- one level is left, and the group would be a second one
    have hlength := congrArg List.length hs
    simp at hlength
  | @behind base number r' more above hr' hbase =>
    obtain ⟨g, rest, hg, hvalue⟩ := hbase.value_regex
    -- the level that is left is that of the pattern
    have hlevel : level = base := by
      cases above with
      | nil => exact (List.cons.inj hs).1
      | cons top above =>
        have hlength := congrArg List.length hs
        simp at hlength
    rw [hlevel]
    refine ⟨g, number, r', more, rest, hvalue, ?_, hr'⟩
    simpa [List.filterMap_map] using hg

/-! ## Characters -/

theorem exists_of_parseFrom {levels : Levels} (hverbose : levels.inner.flags.verbose = false)
    (h : parseFrom table bound levels (c :: cs) = some result) :
    ∃ bound' t rest levels', readToken table levels.inner.flags bound' c cs = some (t, rest) ∧
      levels.read? t = some levels' ∧ parseFrom table bound' levels' rest = some result := by
  cases bound with
  | zero => cases h
  | succ bound =>
    simp only [parseFrom, skip, hverbose, Bool.false_eq_true, if_false, Option.bind_eq_bind,
      Option.bind_eq_some_iff] at h
    obtain ⟨⟨t, rest⟩, htoken, levels', hread, h⟩ := h
    exact ⟨bound, t, rest, levels', htoken, hread, h⟩

/-- An expression of one character is read. -/
theorem exists_of_parseFrom_piece
    (hread : ∀ bound, readToken table Flags.initial bound c cs = some (.piece ⟨r, 0⟩, cs))
    (h : parseFrom table bound (opened rs) (c :: cs) = some result) :
    ∃ bound', parseFrom table bound' (opened (rs ++ [r])) cs = some result := by
  obtain ⟨bound', t, rest, levels', htoken, hlevels, h⟩ := exists_of_parseFrom rfl h
  rw [show (opened rs).inner.flags = Flags.initial from rfl, hread bound'] at htoken
  cases htoken
  rw [read?_opened] at hlevels
  cases hlevels
  exact ⟨bound', h⟩

theorem eq_of_parseFrom_nil {levels : Levels} (h : parseFrom table bound levels [] = some result) :
    result = levels.inner.regex := by
  cases bound with
  | zero => cases h
  | succ bound =>
    have hskip : skip levels.inner.flags.verbose [] = [] := by
      unfold skip
      split <;> rfl
    simp only [parseFrom, hskip] at h
    split at h
    · exact (Option.some.inj h).symm
    · cases h

/-- At the end of a pattern that left the group open, the group is closed. -/
theorem value_of_parseFrom (h : parseFrom table bound (opened rs) [')', '$'] = some result) :
    result.value = ofSeq [.look .textStart, .group none (ofSeq rs), .look .textEnd] := by
  obtain ⟨_, _, _, _, htoken, hlevels, h⟩ := exists_of_parseFrom rfl h
  cases htoken
  cases hlevels
  obtain ⟨_, _, _, _, htoken, hlevels, h⟩ := exists_of_parseFrom rfl h
  cases htoken
  cases hlevels
  have hgroup : (opened rs).inner.regex.value = ofSeq rs := by
    rw [Level.value_regex rfl, values_opened, ← List.map_reverse, List.reverse_reverse,
      List.filterMap_map]
    simp
  rw [eq_of_parseFrom_nil h, Level.value_regex rfl]
  show ofSeq [.look .textStart, .group none (opened rs).inner.regex.value, .look .textEnd] = _
  rw [hgroup]

end Opened

end IndexQuery.Regex
