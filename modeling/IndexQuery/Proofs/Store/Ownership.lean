import IndexQuery.Proofs.Store.Entry

/-! # Whose an entry is

    The two kinds of entries put the value, which may hold NUL, on opposite sides of the
    names that may not. A qualifier is taken apart from the side of the names, and that in
    one way only, so that no record reads the entries of another one as its own.

    * `RecordId.termPrefix_append_inj`: the prefixes of records are prefix-free.
    * `RecordId.ofQualifier?_fieldKey`, `RecordId.termEntry?_termKey_eq_some_iff`: what is
      read from the keys of a record.
    * `FieldEntry.qualifier_fieldKey`, `RecordId.qualifier_termKey`: an entry that was read
      is written to the same qualifier again.
    * `RecordId.entries_of_keys`: all of this, for the keys of one record and for another
      record that reads them.
-/

namespace IndexQuery

/-- Text in front of the first separator is not mistaken for other text in front of it. -/
theorem Text.append_nul_inj {front front' rest rest' : List Char} (h : nul ∉ front)
    (h' : nul ∉ front') :
    front ++ nul :: rest = front' ++ nul :: rest' ↔ front = front' ∧ rest = rest' := by
  constructor
  · intro heq
    induction front generalizing front' with
    | nil =>
      cases front' with
      | nil => exact ⟨rfl, (List.cons.inj heq).2⟩
      | cons c front' =>
        -- the other text would begin with the separator
        obtain ⟨hc, -⟩ := List.cons.inj heq
        exact absurd (hc ▸ List.mem_cons_self) h'
    | cons c front ih =>
      cases front' with
      | nil =>
        obtain ⟨hc, -⟩ := List.cons.inj heq
        exact absurd (hc ▸ List.mem_cons_self) h
      | cons c' front' =>
        obtain ⟨hc, htail⟩ := List.cons.inj heq
        have hrest := ih (fun hmem => h (List.mem_cons_of_mem c hmem))
          (fun hmem => h' (List.mem_cons_of_mem c' hmem)) htail
        exact ⟨by rw [hc, hrest.1], hrest.2⟩
  · rintro ⟨rfl, rfl⟩
    rfl

/-! ## Names without separators -/

namespace RecordId

/-- The separator of qualifiers does not break up the datatype and the identifier. -/
structure NulFree (r : RecordId) : Prop where
  datatype : nul ∉ r.datatype.toList
  uid : nul ∉ r.uid.toList

instance (r : RecordId) : Decidable r.NulFree :=
  decidable_of_iff (nul ∉ r.datatype.toList ∧ nul ∉ r.uid.toList)
    ⟨fun ⟨h, h'⟩ => ⟨h, h'⟩, fun h => ⟨h.datatype, h.uid⟩⟩

/-- Whether two records have the same names. In one row they are the same record then. -/
def SameNames (r₁ r₂ : RecordId) : Prop := r₁.datatype = r₂.datatype ∧ r₁.uid = r₂.uid

instance (r₁ r₂ : RecordId) : Decidable (r₁.SameNames r₂) := inferInstanceAs (Decidable (_ ∧ _))

variable {r r₁ r₂ : RecordId}

/-- The prefix of a record can be split off the front of any text: no prefix begins like
    that of another record, even if the names do. -/
theorem termPrefix_append_inj (h₁ : r₁.NulFree) (h₂ : r₂.NulFree) {rest₁ rest₂ : String} :
    r₁.termPrefix ++ rest₁ = r₂.termPrefix ++ rest₂ ↔ r₁.SameNames r₂ ∧ rest₁ = rest₂ := by
  have htoList : ∀ (r : RecordId) (rest : String), (r.termPrefix ++ rest).toList =
      r.datatype.toList ++ nul :: (r.uid.toList ++ nul :: rest.toList) := by
    intro r rest
    rw [String.toList_append, toList_termPrefix]
    simp
  rw [← String.toList_inj, htoList, htoList, Text.append_nul_inj h₁.datatype h₂.datatype,
    Text.append_nul_inj h₁.uid h₂.uid, String.toList_inj, String.toList_inj, String.toList_inj,
    SameNames, and_assoc]

/-! ## Reading the keys of a record -/

/-- A field index entry is read as its value and the names of its record. -/
theorem ofQualifier?_fieldKey (h : r.NulFree) (field value : String) (timestamp : Int64) :
    FieldEntry.ofQualifier? (r.fieldKey field value timestamp).qualifier =
      some ⟨value, r.datatype, r.uid⟩ := by
  rw [FieldEntry.ofQualifier?_eq_some_iff]
  exact ⟨rfl, h.datatype, h.uid⟩

/-- An entry belongs to the records with the names that it says. -/
theorem owns_iff {value : String} :
    r₂.owns ⟨value, r₁.datatype, r₁.uid⟩ = true ↔ r₁.SameNames r₂ := by
  unfold owns SameNames
  rw [Bool.and_eq_true, decide_eq_true_eq, decide_eq_true_eq]

/-- Values and fields are told apart, whatever the value, if the field is free of NUL. -/
theorem joinNul_inj {value value' field field' : String} (h : nul ∉ field.toList)
    (h' : nul ∉ field'.toList) :
    joinNul [value, field] = joinNul [value', field'] ↔ value = value' ∧ field = field' := by
  constructor
  · intro heq
    -- both sides split at the last separator, which is the one between value and field
    have hsplit : ∀ value field : String, nul ∉ field.toList →
        Text.splitLast? nul (joinNul [value, field]).toList = some (value.toList, field.toList) := by
      intro value field hfield
      rw [Text.splitLast?_eq_some_iff]
      exact ⟨by simp [joinNul], hfield⟩
    have hparts := hsplit value field h
    rw [heq, hsplit value' field' h', Option.some.injEq, Prod.mk.injEq, String.toList_inj,
      String.toList_inj] at hparts
    exact ⟨hparts.1.symm, hparts.2.symm⟩
  · rintro ⟨rfl, rfl⟩
    rfl

/-- A term frequency entry of a record is read by the records with its names alone, and as
    what it was written for. -/
theorem termEntry?_termKey_eq_some_iff (h₁ : r₁.NulFree) (h₂ : r₂.NulFree) {field value : String}
    (hfield : nul ∉ field.toList) {timestamp : Int64} {e : TermEntry} :
    r₂.termEntry? (r₁.termKey field value timestamp).qualifier = some e ↔
      r₁.SameNames r₂ ∧ e = ⟨value, field⟩ := by
  have hqualifier : (r₁.termKey field value timestamp).qualifier =
      r₁.termPrefix ++ joinNul [value, field] := rfl
  rw [termEntry?_eq_some_iff, hqualifier, termPrefix_append_inj h₁ h₂]
  constructor
  · rintro ⟨⟨hnames, hrest⟩, hnul⟩
    obtain ⟨rfl, rfl⟩ := (joinNul_inj hfield hnul).1 hrest
    exact ⟨hnames, rfl⟩
  · rintro ⟨hnames, rfl⟩
    exact ⟨⟨hnames, rfl⟩, hfield⟩

/-! ## Writing what was read -/

/-- A qualifier that is read as a field index entry is written for that entry, by the record
    that it says, whose names are free of NUL. -/
theorem qualifier_fieldKey {text : String} {e : FieldEntry}
    (h : FieldEntry.ofQualifier? text = some e) (row field : String) (timestamp : Int64) :
    RecordId.NulFree ⟨row, e.datatype, e.uid⟩ ∧
      (RecordId.fieldKey ⟨row, e.datatype, e.uid⟩ field e.value timestamp).qualifier = text := by
  obtain ⟨htext, hdatatype, huid⟩ := FieldEntry.ofQualifier?_eq_some_iff.1 h
  exact ⟨⟨hdatatype, huid⟩, htext.symm⟩

/-- A qualifier that a record reads as a term frequency entry is written for that entry. -/
theorem qualifier_termKey {text : String} {e : TermEntry} (h : r.termEntry? text = some e)
    (timestamp : Int64) :
    nul ∉ e.field.toList ∧ (r.termKey e.field e.value timestamp).qualifier = text := by
  obtain ⟨htext, hfield⟩ := r.termEntry?_eq_some_iff.1 h
  exact ⟨hfield, htext.symm⟩

/-- The keys of a record are read as what they were written for, whatever the value holds,
    and by no record with other names. What is read from a qualifier, on the other hand, is
    written to the same qualifier. -/
theorem entries_of_keys {r₁ r₂ : RecordId} (h₁ : r₁.NulFree) (h₂ : r₂.NulFree) {field : String}
    (hfield : nul ∉ field.toList) (value : String) (timestamp : Int64) :
    (∃ e, FieldEntry.ofQualifier? (r₁.fieldKey field value timestamp).qualifier = some e ∧
        e = ⟨value, r₁.datatype, r₁.uid⟩ ∧ (r₂.owns e = true ↔ r₁.SameNames r₂)) ∧
      (∀ e, r₂.termEntry? (r₁.termKey field value timestamp).qualifier = some e ↔
        r₁.SameNames r₂ ∧ e = ⟨value, field⟩) ∧
      (∀ text e, FieldEntry.ofQualifier? text = some e → ∀ row : String,
        RecordId.NulFree ⟨row, e.datatype, e.uid⟩ ∧
          (RecordId.fieldKey ⟨row, e.datatype, e.uid⟩ field e.value timestamp).qualifier = text) ∧
      ∀ (r : RecordId) (text : String) (e : TermEntry), r.termEntry? text = some e →
        nul ∉ e.field.toList ∧ (r.termKey e.field e.value timestamp).qualifier = text := by
  refine ⟨⟨_, ofQualifier?_fieldKey h₁ field value timestamp, rfl, owns_iff⟩, ?_, ?_, ?_⟩
  · intro e
    exact termEntry?_termKey_eq_some_iff h₁ h₂ hfield
  · intro text e h row
    exact qualifier_fieldKey h row field timestamp
  · intro r text e h
    exact qualifier_termKey h timestamp

/-- A record and one whose identifier begins like that of the first. -/
def shortUid : RecordId := ⟨"20240101_0", "event", "uid.1"⟩

def longUid : RecordId := ⟨"20240101_0", "event", "uid.12"⟩

/-- The entry of a value that looks like a field and a record itself. -/
theorem entries_of_keys_nulValue :
    shortUid.NulFree ∧ longUid.NulFree ∧ nul ∉ "BODY".toList ∧
      FieldEntry.ofQualifier? (shortUid.fieldKey "BODY" "a\x00event\x00uid.12" 1).qualifier =
        some ⟨"a\x00event\x00uid.12", "event", "uid.1"⟩ ∧
      longUid.termEntry? (shortUid.termKey "BODY" "a\x00event\x00uid.12" 1).qualifier = none := by
  have hshort : shortUid.NulFree := by decide
  have hlong : longUid.NulFree := by decide
  have hfield : nul ∉ "BODY".toList := by decide
  obtain ⟨⟨e, hread, rfl, -⟩, hterm, -, -⟩ :=
    entries_of_keys hshort hlong hfield "a\x00event\x00uid.12" 1
  refine ⟨hshort, hlong, hfield, hread, ?_⟩
  rw [Option.eq_none_iff_forall_ne_some]
  intro e he
  have hnames : ¬ shortUid.SameNames longUid := by decide
  exact hnames ((hterm e).1 he).1

end RecordId

end IndexQuery
