import IndexQuery.Proofs.Store.Range
import IndexQuery.Proofs.Text.Order
import IndexQuery.Store.Record
import Mathlib.Data.List.DropRight

/-! # What qualifiers say

    The qualifier of a field index entry begins with the value and goes on with NUL. The
    range of the values up to a greatest one ends in U+0001 behind that one, so that the
    order of the values has to carry over to texts that go on differently.

    * `FieldEntry.ofQualifier?_eq_some_iff`, `RecordId.termEntry?_eq_some_iff`: which entry
      a qualifier is read as.
    * `RecordId.contains_fieldRange_of_le`: the range of the values between two texts holds
      the entries of these values, if the greater text is free of NUL.
    * `RecordId.contains_termRange`: the range of the term frequency entries of a record
      holds them all.
-/

namespace IndexQuery

/-! ## Reading qualifiers -/

namespace FieldEntry

theorem toList_qualifier (e : FieldEntry) :
    e.qualifier.toList = e.value.toList ++ nul :: (e.datatype.toList ++ nul :: e.uid.toList) := by
  simp [qualifier, joinNul]

/-- Qualifiers do not come before their values. -/
theorem value_le_qualifier (e : FieldEntry) : e.value ≤ e.qualifier :=
  Text.le_of_prefix (by rw [toList_qualifier]; exact List.prefix_append _ _)

/-- A qualifier is read as the entry that it is the qualifier of, where only the value may
    hold NUL. -/
theorem ofQualifier?_eq_some_iff {text : String} {e : FieldEntry} :
    ofQualifier? text = some e ↔
      text = e.qualifier ∧ nul ∉ e.datatype.toList ∧ nul ∉ e.uid.toList := by
  have hread : ofQualifier? text = some e ↔
      ∃ front, Text.splitLast? nul text.toList = some (front, e.uid.toList) ∧
        Text.splitLast? nul front = some (e.value.toList, e.datatype.toList) := by
    simp only [ofQualifier?, bind, Option.bind_eq_some_iff, Prod.exists, pure, Option.some.injEq]
    constructor
    · rintro ⟨front, uid, hfront, value, datatype, hvalue, rfl⟩
      simp only [String.toList_ofList]
      exact ⟨front, hfront, hvalue⟩
    · rintro ⟨front, hfront, hvalue⟩
      exact ⟨front, _, hfront, _, _, hvalue, by simp only [String.ofList_toList]⟩
  have htext : text = e.qualifier ↔
      text.toList = e.value.toList ++ nul :: (e.datatype.toList ++ nul :: e.uid.toList) := by
    rw [← toList_qualifier, String.toList_inj]
  rw [hread, htext]
  simp only [Text.splitLast?_eq_some_iff]
  constructor
  · rintro ⟨front, ⟨hfront, huid⟩, hvalue, hdatatype⟩
    exact ⟨by simp [hfront, hvalue], hdatatype, huid⟩
  · rintro ⟨hqualifier, hdatatype, huid⟩
    exact ⟨_, ⟨by simp [hqualifier], huid⟩, rfl, hdatatype⟩

end FieldEntry

namespace RecordId

variable (r : RecordId)

theorem toList_termPrefix :
    r.termPrefix.toList = r.datatype.toList ++ nul :: (r.uid.toList ++ [nul]) := by
  simp [termPrefix, joinNul]

/-- A qualifier is read as a term frequency entry of a record if it goes on behind the
    prefix of the record with the value and a field that is free of NUL. -/
theorem termEntry?_eq_some_iff {text : String} {e : TermEntry} :
    r.termEntry? text = some e ↔
      text = r.termPrefix ++ joinNul [e.value, e.field] ∧ nul ∉ e.field.toList := by
  have hread : r.termEntry? text = some e ↔
      ∃ rest, r.termPrefix.toList.isPrefixOf? text.toList = some rest ∧
        Text.splitLast? nul rest = some (e.value.toList, e.field.toList) := by
    simp only [ termEntry?, bind, Option.bind_eq_some_iff, Prod.exists, pure, Option.some.injEq]
    constructor
    · rintro ⟨rest, hrest, value, field, hvalue, rfl⟩
      simp only [String.toList_ofList]
      exact ⟨rest, hrest, hvalue⟩
    · rintro ⟨rest, hrest, hvalue⟩
      exact ⟨rest, hrest, _, _, hvalue, by simp only [String.ofList_toList]⟩
  have htext : text = r.termPrefix ++ joinNul [e.value, e.field] ↔
      text.toList = r.termPrefix.toList ++ (e.value.toList ++ nul :: e.field.toList) := by
    rw [← String.toList_inj]
    simp [joinNul]
  rw [hread, htext]
  simp only [Text.splitLast?_eq_some_iff]
  constructor
  · rintro ⟨rest, hrest, rfl, hfield⟩
    exact ⟨(List.isPrefixOf?_eq_some_iff_append_eq.1 hrest).symm, hfield⟩
  · rintro ⟨hqualifier, hfield⟩
    exact ⟨_, List.isPrefixOf?_eq_some_iff_append_eq.2 hqualifier.symm, rfl, hfield⟩

end RecordId

/-! ## The order of qualifiers -/

namespace Text

theorem nul_lt_of_ne {c : Char} (h : c ≠ nul) : nul < c := by
  have hpositive : c.toNat ≠ 0 := fun hzero => h (Char.toNat_inj.1 hzero)
  show 0 < c.toNat
  omega

/-- Text that goes on with NUL comes before the same text that goes on with U+0001. -/
theorem append_nul_lt (front rest : List Char) : front ++ nul :: rest < front ++ ['\x01'] :=
  List.append_left_lt (.rel (by decide))

/-- Where the greater of two texts is free of NUL, the smaller one may be continued with
    NUL. -/
theorem append_nul_lt_of_not_lt : ∀ {value upper : List Char}, ¬ upper < value →
    nul ∉ upper → ∀ rest : List Char, value ++ nul :: rest < upper ++ ['\x01']
  | [], [], _, _, rest => append_nul_lt [] rest
  | [], c :: upper, _, hnul, rest => by
    -- the value ends where the greater text goes on with another character than NUL
    have hc : nul < c := nul_lt_of_ne fun hc => hnul (hc ▸ List.mem_cons_self)
    exact .rel hc
  | v :: vs, [], hle, _, _ => absurd .nil hle
  | v :: vs, c :: upper, hle, hnul, rest => by
    by_cases hvc : v = c
    · subst hvc
      have hle' : ¬ upper < vs := fun hlt => hle (.cons hlt)
      have hnul' : nul ∉ upper := fun hmem => hnul (List.mem_cons_of_mem _ hmem)
      exact .cons (append_nul_lt_of_not_lt hle' hnul' rest)
    · have hcv : ¬ c < v := fun hlt => hle (.rel hlt)
      have hlt : v < c := Std.lt_of_le_of_ne (Char.not_lt.1 hcv) hvc
      exact .rel hlt

end Text

/-! ## Entries in a range -/

namespace RecordId

variable (r : RecordId)

/-- The entry of a value lies in the range of the values between two texts when the value
    is between them, and is the greater one or that one is free of NUL. -/
theorem contains_fieldRange_of_le {field lower upper : String} {e : FieldEntry} {key : Key}
    (hrow : key.row = r.row) (hfamily : key.family = FieldEntry.family field)
    (hqualifier : key.qualifier = e.qualifier) (hlower : lower ≤ e.value) (hupper : e.value ≤ upper)
    (hnul : nul ∉ upper.toList ∨ e.value = upper) :
    (r.fieldRange field lower upper).contains key = true := by
  have hafter : lower ≤ e.qualifier := Std.le_trans hlower e.value_le_qualifier
  have hbefore : e.qualifier < upper ++ afterSeparator := by
    rw [String.lt_iff, FieldEntry.toList_qualifier, String.toList_append]
    rcases hnul with hnul | heq
    · have hle : ¬ upper.toList < e.value.toList := fun hlt => hupper (String.lt_iff.2 hlt)
      exact Text.append_nul_lt_of_not_lt hle hnul _
    · rw [← heq]
      exact Text.append_nul_lt _ _
  rw [fieldRange, KeyRange.contains_qualifiers, hqualifier]
  exact ⟨hrow, hfamily, hafter, hbefore⟩

/-- The prefix consists of the stem that is left without the separators at its end, and of
    these. There is at least one. -/
theorem exists_termPrefix_eq :
    ∃ rest, r.termPrefix.toList = r.termPrefix.toList.rdropWhile (· = nul) ++ nul :: rest := by
  have hsplit := List.rdropWhile_append_rtakeWhile (p := (· = nul)) (l := r.termPrefix.toList)
  have hend : r.termPrefix.toList.rtakeWhile (· = nul) ≠ [] := by
    rw [Ne, List.rtakeWhile_eq_nil_iff, toList_termPrefix]
    simp
  obtain ⟨c, rest, hrest⟩ := List.exists_cons_of_ne_nil hend
  have hc : c = nul := by
    have hmem : c ∈ r.termPrefix.toList.rtakeWhile (· = nul) := hrest ▸ List.mem_cons_self
    simpa using List.mem_rtakeWhile_imp hmem
  rw [hrest, hc] at hsplit
  exact ⟨rest, hsplit.symm⟩

/-- The range of the term frequency entries holds all keys whose qualifiers begin with the
    prefix of the record. -/
theorem contains_termRange {key : Key} {rest : String} (hrow : key.row = r.row)
    (hfamily : key.family = TermEntry.family) (hqualifier : key.qualifier = r.termPrefix ++ rest) :
    r.termRange.contains key = true := by
  have hafter : r.termPrefix ≤ r.termPrefix ++ rest :=
    Text.le_of_prefix (by rw [String.toList_append]; exact List.prefix_append _ _)
  obtain ⟨separators, hprefix⟩ := r.exists_termPrefix_eq
  rw [termRange, KeyRange.contains_qualifiers, hqualifier]
  refine ⟨hrow, hfamily, hafter, ?_⟩
  have hbefore : r.termPrefix.toList ++ rest.toList <
      r.termPrefix.toList.rdropWhile (· = nul) ++ ['\x01'] := by
    have htext : r.termPrefix.toList ++ rest.toList =
        r.termPrefix.toList.rdropWhile (· = nul) ++ nul :: (separators ++ rest.toList) := by
      rw [← List.cons_append, ← List.append_assoc, ← hprefix]
    rw [htext]
    exact Text.append_nul_lt _ _
  rwa [String.lt_iff, String.toList_append, String.toList_append, String.toList_ofList]

end RecordId

end IndexQuery
