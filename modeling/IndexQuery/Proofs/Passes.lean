import IndexQuery.Proofs.Composite.Tidy
import IndexQuery.Proofs.Executability.PushDown
import IndexQuery.Proofs.Expansion.Tidy

/-! # Passes one after the other

    A query that is read is expanded, folded and has its branches delayed, in any order and
    as often as one likes. It can be written and read again at any time.

    * `Classifier.every_pushDown`: delaying keeps a shape.
    * `Query.Pass`: a pass with what it consults.
    * `Query.parse_render_run`: what is read is tidy, passes keep tidy trees tidy, and the
      text of what they make of a query that was read is read as that.
-/

namespace IndexQuery

open Query (Shape)

variable {p : Query → Bool}

namespace Classifier

variable {c : Classifier}

theorem every_anchor (hp : Shape p) {cs : List Query} (hne : cs ≠ [])
    (hcs : ∀ q ∈ cs, q.Every p) : (c.anchor cs).Every p := by
  rw [anchor]
  split
  · refine hp.join (by simpa using hne) (List.forall_mem_map.2 fun q hq => ?_)
    rw [delayPartial]
    split
    · rw [hp.ungrouped_eq (hcs q hq)]
      exact hp.every_mark (by decide) (hcs q hq)
    · exact hcs q hq
  · exact hp.join hne hcs

/-- Delaying keeps a shape. -/
theorem every_pushDown (hp : Shape p) {q : Query} (h : q.Every p) : (c.pushDown q).Every p := by
  induction q using Query.induction with
  | junction kind cs ih =>
    have hne : cs.map c.pushDown ≠ [] := by
      rw [ne_eq, List.map_eq_nil_iff]
      exact hp.children_ne_nil h
    have hcs : ∀ q ∈ cs.map c.pushDown, q.Every p :=
      List.forall_mem_map.2 fun q hq => ih q hq (h.of_mem_children hq)
    cases kind with
    | and =>
      rw [pushDown, pushDownAll_eq_map]
      exact every_anchor hp hne hcs
    | or =>
      rw [pushDown, pushDownAll_eq_map]
      exact hp.join hne hcs
  | not q _ | compare leaf | call call =>
    rw [pushDown]
    exact h
  | group q _ => exact (hp.not_every_group h).elim
  | marked m note q ih =>
    cases hm : m.handsOn with
    | true =>
      have hkept : m ≠ .drop := by
        rintro rfl
        cases hm
      rw [pushDown_marked hm]
      exact hp.every_remark hkept h (ih (h.of_mem_children List.mem_cons_self))
    | false =>
      rw [pushDown_marked_of_not_handsOn hm]
      exact h

end Classifier

namespace Query

/-! ## Passes -/

/-- A pass over a query, with what it consults. -/
inductive Pass where
  | expand (catalog : Catalog) (config : Config)
  | fold (config : Config)
  | pushDown (catalog : Catalog) (config : Config) (mode : ExecMode)

namespace Pass

/-- What a pass makes of a query. -/
def apply : Pass → Query → Query
  | .expand catalog config, q => q.expand catalog config
  | .fold config, q => q.fold config
  | .pushDown catalog config mode, q => (Classifier.ofCatalog catalog config mode).pushDown q

/-- What several passes make of a query, one after the other. -/
def run (passes : List Pass) (q : Query) : Query := passes.foldl (fun q pass => pass.apply q) q

/-- Whether the composite fields that a pass knows have names that can be read. -/
def Readable : Pass → Prop
  | .fold config => ∀ m ∈ config.composites, isName m.name = true
  | .expand .. | .pushDown .. => True

/-- A pass keeps a shape, if the comparisons that it may write have it. -/
theorem every_apply (hp : Shape p) {pass : Pass}
    (hnamed : ∀ config, pass = .fold config → ∀ m ∈ config.composites, m.Named p) {q : Query}
    (h : q.Every p) : (pass.apply q).Every p := by
  cases pass with
  | expand catalog config => exact every_expand hp h catalog config
  | fold config => exact every_fold hp h (hnamed config rfl)
  | pushDown catalog config mode => exact Classifier.every_pushDown hp h

theorem tidy_apply (pass : Pass) {q : Query} (h : q.Tidy) : (pass.apply q).Tidy :=
  every_apply shape_isTidyNode (fun _ _ _ _ _ _ => rfl) h

theorem readBack_apply {pass : Pass} (hpass : pass.Readable) {q : Query} (h : q.ReadBack) :
    (pass.apply q).ReadBack := by
  refine readBack_iff.2 (every_apply shape_isReadableNode ?_ (readBack_iff.1 h))
  rintro config rfl m hm op text
  have hname : isName m.name = true := hpass m hm
  simp [isReadableNode, isTidyNode, isNormalNode, isPrintableNode, compareWith, hname,
    Literal.isPrintable]

theorem readBack_run {passes : List Pass} (hpasses : ∀ pass ∈ passes, pass.Readable) {q : Query}
    (h : q.ReadBack) : (run passes q).ReadBack := by
  induction passes generalizing q with
  | nil => exact h
  | cons pass passes ih =>
    obtain ⟨hpass, hpasses⟩ := List.forall_mem_cons.1 hpasses
    exact ih hpasses (readBack_apply hpass h)

end Pass

/-! ## Queries that were read -/

/-- What is read from a text is tidy, and every pass keeps a tidy query tidy. So the text of
    what passes make of a query that was read, in any order, is read as that, if the names
    of composite fields can be read. -/
theorem parse_render_run :
    (∀ text q, parse text = .ok q → q.Tidy) ∧
      (∀ q : Query, q.Tidy → ∀ (catalog : Catalog) (config : Config) (mode : ExecMode),
        (q.expand catalog config).Tidy ∧ (q.fold config).Tidy ∧
          ((Classifier.ofCatalog catalog config mode).pushDown q).Tidy) ∧
      ∀ text q, parse text = .ok q → ∀ passes : List Pass, (∀ pass ∈ passes, pass.Readable) →
        parse (Pass.run passes q).render = .ok (Pass.run passes q) := by
  refine ⟨fun text q h => (readBack_of_parse h).tidy, ?_, ?_⟩
  · intro q h catalog config mode
    exact ⟨Pass.tidy_apply (.expand catalog config) h, Pass.tidy_apply (.fold config) h,
      Pass.tidy_apply (.pushDown catalog config mode) h⟩
  · intro text q h passes hpasses
    have hread : (Pass.run passes q).ReadBack := Pass.readBack_run hpasses (readBack_of_parse h)
    rw [parse_render hread.printable, canonical_of_normal hread.normal]

/-! ### A query that is folded and of which a branch is delayed -/

/-- A composite field over two of the fields. -/
def joinedConfig : Config := { composites := [⟨"AB", ["A", "B"], ',', none⟩] }

/-- The composite field has index entries beside its components. -/
def joinedCatalog : Catalog :=
  { fields := .ofList
      [("A", { indexed := true }), ("B", { indexed := true }), ("AB", { indexed := true })] }

def joinedPasses : List Pass :=
  [.fold joinedConfig, .pushDown joinedCatalog joinedConfig .fieldIndex]

def joinedText : String := "A == '1' && (B == '2' && (A == 'a' || EVENT == 'x'))"

/-- What is read from it. -/
def joinedQuery : Query :=
  .junction .and
    [.compareWith .eq "A" (.string "1"), .compareWith .eq "B" (.string "2"),
      .junction .or
        [.compareWith .eq "A" (.string "a"), .compareWith .eq "EVENT" (.string "x")]]

/-- What the passes make of it. -/
def delayedQuery : Query :=
  .junction .and
    [.compareWith .eq "AB" (.string "1,2"),
      .mark .delayed (.junction .or
        [.compareWith .eq "A" (.string "a"), .compareWith .eq "EVENT" (.string "x")])]

theorem run_joinedPasses : Pass.run joinedPasses joinedQuery = delayedQuery := by
  rw [joinedPasses, Pass.run, List.foldl_cons, Pass.apply, Query.fold, Folder.ofConfig,
    joinedConfig, List.mergeSort_singleton]
  rfl

theorem parse_render_run_joinedText :
    parse joinedText = .ok joinedQuery ∧ joinedQuery.Tidy ∧
      (∀ pass ∈ joinedPasses, pass.Readable) ∧ Pass.run joinedPasses joinedQuery = delayedQuery ∧
      parse delayedQuery.render = .ok delayedQuery := by
  have htext : (parse joinedText).toOption = some joinedQuery := by decide +kernel
  have hread : parse joinedText = .ok joinedQuery := by
    cases hparse : parse joinedText with
    | error e =>
      rw [hparse] at htext
      cases htext
    | ok q =>
      rw [hparse] at htext
      cases htext
      rfl
  have hreadable : ∀ pass ∈ joinedPasses, pass.Readable := by
    have hname : isName "AB" = true := by decide +kernel
    simp [joinedPasses, Pass.Readable, joinedConfig, hname]
  have hagain := parse_render_run.2.2 joinedText joinedQuery hread joinedPasses hreadable
  rw [run_joinedPasses] at hagain
  exact ⟨hread, parse_render_run.1 joinedText joinedQuery hread, hreadable, run_joinedPasses, hagain⟩

end Query

end IndexQuery
