import IndexQuery.Config.Codec
import IndexQuery.Proofs.Config.Instant
import IndexQuery.Proofs.Json.RoundTrip
import Mathlib.Data.List.Nodup
import Std.Data.String.ToNat

/-! # Configurations are read as they were written

    A configuration that was read is written with every setting and read again from that.
    What was missing is then there with its default, and what was read last of several
    members of a map is the only one.

    * `Config.Writable`: the configurations that are read again.
    * `Config.writable_of_decode?`: what is read is one of them.
    * `Config.decode?_toJson`: they are read as they were written.
    * `Config.ofJson_toJson`: a consistent configuration that was read is read again.
-/

namespace IndexQuery

namespace Json

/-! ## What is written -/

theorem written_ofStrings (texts : List String) : Written (.ofStrings texts) :=
  .array <| List.forall_mem_map.2 fun text _ => .string (some text)

theorem written_ofMembers {members : List (String × Json)} (h : ∀ m ∈ members, Written m.2) :
    Written (.ofMembers members) :=
  .object <| List.forall_mem_map.2 h

theorem written_toJson? (t : Option Instant) : Written (Instant.toJson? t) := by
  cases t with
  | none => exact .null
  | some t => exact .string (some t.render)

/-! ## What is read again -/

/-- Items are read one by one. -/
theorem mapM_map {α : Type} {β : Type} {write : α → β} {read : β → Option α} {l : List α}
    (h : ∀ a ∈ l, read (write a) = some a) : (l.map write).mapM read = some l := by
  induction l with
  | nil => rfl
  | cons a l ih =>
    obtain ⟨ha, hl⟩ := List.forall_mem_cons.1 h
    simp [ha, ih hl]

theorem text?_ofString (text : String) : (ofString text).text? = some text := rfl

theorem members?_ofMembers (members : List (String × Json)) :
    (ofMembers members).members? = some members :=
  mapM_map fun _ _ => rfl

theorem texts?_ofStrings (texts : List String) : (ofStrings texts).texts? = some texts :=
  mapM_map fun _ _ => rfl

theorem textSet?_ofStrings (s : SortedSet String) : (ofStrings s.toList).textSet? = some s := by
  rw [textSet?, texts?_ofStrings, Option.map_some, SortedSet.ofList_toList]

theorem count?_ofNat {n : Nat} (h : n ≤ maxCount) : (ofNat n).count? = some n := by
  simp [count?, ofNat, Nat.toNat?_repr, h]

theorem char?_ofString (c : Char) : (ofString (String.singleton c)).char? = some c := by
  simp [char?, ofString, text?]

theorem instant??_toJson? {t : Option Instant} (h : ∀ u ∈ t, u.Valid) :
    (Instant.toJson? t).instant?? = some t := by
  cases t with
  | none => rfl
  | some t =>
    have hread := Instant.read?_render (h t rfl)
    simp [Instant.toJson?, ofString, instant??, text?, hread]

theorem alphabet?_ofString (a : Alphabet) : (ofString a.name).alphabet? = some a := by
  cases a <;> decide +kernel

theorem alphabets?_ofMembers {m : SortedMap String Alphabet}
    {write : String × Alphabet → String × Json} (h : ∀ e, write e = (e.1, ofString e.2.name)) :
    (ofMembers (m.entries.map write)).alphabets? = some m := by
  simp only [alphabets?, members?_ofMembers, Option.bind_eq_bind, Option.bind_some]
  rw [mapM_map fun e _ => by simp [h, alphabet?_ofString], Option.bind_some,
    SortedMap.ofList_entries]
  rfl

/-! ## What was read -/

/-- What holds of each item that is read holds of all of them. -/
theorem forall_of_mapM {α β : Type} {p : β → Prop} {read : α → Option β} {l : List α}
    {results : List β} (h : l.mapM read = some results) (hread : ∀ a b, read a = some b → p b) :
    ∀ b ∈ results, p b := by
  induction l generalizing results with
  | nil =>
    cases h
    exact fun _ => nofun
  | cons a l ih =>
    simp only [List.mapM_cons, Option.bind_eq_bind, Option.bind_eq_some_iff, Option.pure_def,
      Option.some.injEq] at h
    obtain ⟨b, hb, rest, hrest, rfl⟩ := h
    exact List.forall_mem_cons.2 ⟨hread a b hb, ih hrest⟩

theorem valid_of_instant?? {j : Json} {t : Option Instant} (h : j.instant?? = some t) :
    ∀ u ∈ t, u.Valid := by
  unfold instant?? at h
  split at h
  · cases h
    exact fun _ => nofun
  · obtain ⟨u, hu, rfl⟩ := Option.map_eq_some_iff.1 h
    obtain ⟨text, -, hread⟩ := Option.bind_eq_some_iff.1 hu
    intro v hv
    obtain rfl := Option.mem_some.1 hv
    exact Instant.valid_of_read? hread

/-- No default is an instant. -/
theorem valid_of_orDefault {j : Option Json} {t : Option Instant}
    (h : orDefault instant?? none j = some t) : ∀ u ∈ t, u.Valid := by
  cases j with
  | none =>
    cases h
    exact fun _ => nofun
  | some j => exact valid_of_instant?? h

theorem le_maxCount_of_orDefault {j : Option Json} {default n : Nat} (hdefault : default ≤ maxCount)
    (h : orDefault count? default j = some n) : n ≤ maxCount := by
  cases j with
  | none =>
    cases h
    exact hdefault
  | some j =>
    cases j with
    | number text => simpa using (Option.filter_eq_some_iff.1 h).2
    | _ => exact nomatch h

/-- The fields of an object are its members. -/
theorem fields?_ofMembers {members : List (String × Json)} (h : (members.map (·.1)).Nodup) :
    (ofMembers members).fields? (members.map (·.1)) = some (members.map fun m => some m.2) := by
  have hcount : ∀ name, (members.filter (·.1 == name)).length ≤ 1 := by
    intro name
    have hone := List.nodup_iff_count_le_one.1 h name
    rwa [List.count, List.countP_map, List.countP_eq_length_filter] at hone
  have hmembers := members?_ofMembers members
  rw [ofMembers] at hmembers
  have hlookup : (members.map (·.1)).map (fun name => members.lookup name) =
      members.map fun m => some m.2 := by
    rw [List.map_map]
    exact List.map_congr_left fun m hm => (lookup_eq_some_iff_mem h).2 hm
  simp only [ofMembers, fields?, hmembers, Option.bind_eq_bind, Option.bind_some]
  rw [if_pos (by simp [hcount]), hlookup]
  rfl

end Json

open Json

/-! ## Composite fields -/

theorem Mapping.written_toJson (m : Mapping) : Written m.toJson := by
  refine written_ofMembers ?_
  simp only [List.forall_mem_cons]
  exact ⟨.string _, written_ofStrings _, .string _, written_toJson? _, fun _ => nofun⟩

/-- A composite field whose transition is an instant of the calendar is read again. -/
theorem Mapping.ofJson?_toJson {m : Mapping} (h : ∀ t ∈ m.transition, t.Valid) :
    Mapping.ofJson? m.toJson = some m := by
  have hfields : m.toJson.fields? ["name", "components", "separator", "transition_date"] = _ :=
    fields?_ofMembers (by simp only [List.map_cons, List.map_nil]; decide)
  rw [Mapping.ofJson?, hfields]
  simp [orDefault, text?_ofString, texts?_ofStrings, char?_ofString, instant??_toJson? h]

/-- The transition of a composite field that was read is an instant of the calendar. -/
theorem Mapping.valid_of_ofJson? {j : Json} {m : Mapping} (h : Mapping.ofJson? j = some m) :
    ∀ t ∈ m.transition, t.Valid := by
  obtain ⟨fields, -, h⟩ := Option.bind_eq_some_iff.1 h
  split at h
  · simp only [Option.bind_eq_bind, Option.bind_eq_some_iff, Option.pure_def,
      Option.some.injEq] at h
    obtain ⟨name, -, components, -, separator, -, transition, htransition, rfl⟩ := h
    exact valid_of_orDefault htransition
  · exact nomatch h

namespace Config

/-! ## Configurations -/

/-- A configuration whose count fits 64 bits and whose instants stand in the calendar. -/
structure Writable (c : Config) : Prop where
  maxTerms : c.maxTermsToPrint ≤ maxCount
  composites : ∀ m ∈ c.composites, ∀ t ∈ m.transition, t.Valid
  beginDate : ∀ t ∈ c.beginDate, t.Valid
  endDate : ∀ t ∈ c.endDate, t.Valid

theorem valid_of_composites {j : Option Json} {composites : List Mapping}
    (h : orDefault (fun j => j.items?.bind fun items => items.mapM Mapping.ofJson?) [] j =
      some composites) : ∀ m ∈ composites, ∀ t ∈ m.transition, t.Valid := by
  cases j with
  | none =>
    cases h
    exact fun _ => nofun
  | some j =>
    obtain ⟨items, -, hitems⟩ := Option.bind_eq_some_iff.1 h
    exact forall_of_mapM hitems fun _ _ => Mapping.valid_of_ofJson?

/-- What is read can be written. -/
theorem writable_of_ofJsonValue? {j : Json} {c : Config} (h : ofJsonValue? j = some c) :
    c.Writable := by
  obtain ⟨fields, -, h⟩ := Option.bind_eq_some_iff.1 h
  split at h
  · simp only [Option.bind_eq_bind, Option.bind_eq_some_iff, Option.pure_def,
      Option.some.injEq] at h
    obtain ⟨maxTerms, hmaxTerms, _, -, _, -, composites, hcomposites, _, -, start, hstart, finish,
      hfinish, _, -, _, -, _, -, _, -, rfl⟩ := h
    exact {
      maxTerms := le_maxCount_of_orDefault (by decide) hmaxTerms
      composites := valid_of_composites hcomposites
      beginDate := valid_of_orDefault hstart
      endDate := valid_of_orDefault hfinish }
  · exact nomatch h

/-- Every setting is written. -/
theorem written_toJsonValue (c : Config) : Written c.toJsonValue := by
  have hcomposites : Written (.array (c.composites.map Mapping.toJson)) :=
    .array <| List.forall_mem_map.2 fun m _ => m.written_toJson
  refine written_ofMembers ?_
  simp only [List.forall_mem_cons]
  exact ⟨.count _, written_ofStrings _, written_ofStrings _, hcomposites,
    written_ofMembers (List.forall_mem_map.2 fun e _ => .string (some e.2.name)),
    written_toJson? _, written_toJson? _, written_ofStrings _, written_ofStrings _,
    written_ofStrings _, written_ofStrings _, fun _ => nofun⟩

theorem ofJsonValue?_toJsonValue {c : Config} (h : c.Writable) :
    ofJsonValue? c.toJsonValue = some c := by
  have hfields : c.toJsonValue.fields?
      ["max_terms_to_print", "lenient_fields", "strict_fields", "composites",
        "fixed_length_fields", "begin_date", "end_date", "index_only_fields",
        "term_frequency_fields", "aggregation_fields", "datatype_filter"] = _ :=
    fields?_ofMembers (by simp only [List.map_cons, List.map_nil]; decide)
  have hcomposites : (c.composites.map Mapping.toJson).mapM Mapping.ofJson? = some c.composites :=
    mapM_map fun m hm => Mapping.ofJson?_toJson (h.composites m hm)
  simp only [ofJsonValue?]
  rw [hfields]
  simp [orDefault, textSet?_ofStrings, count?_ofNat h.maxTerms, items?, hcomposites,
    alphabets?_ofMembers, instant??_toJson? h.beginDate, instant??_toJson? h.endDate]

/-- A configuration that can be written is read as it was written. -/
theorem decode?_toJson {c : Config} (h : c.Writable) : decode? c.toJson = some c := by
  rw [decode?, toJson, parse?_render c.written_toJsonValue, Option.bind_some,
    ofJsonValue?_toJsonValue h]

/-- Reading gives the consistent configurations that the text writes. -/
theorem ofJson_eq_ok {text : String} {c : Config} :
    ofJson text = .ok c ↔ decode? text = some c ∧ c.fault? = none := by
  unfold ofJson
  split
  · simp_all
  · split <;> grind

/-- A configuration that was read is consistent as it was, and is read again from what it is
    written as: its sets, its maps, its dates in universal time and its texts with all their
    characters. -/
theorem ofJson_toJson {text : String} {c : Config} (h : ofJson text = .ok c) :
    ofJson c.toJson = .ok c := by
  obtain ⟨hdecode, hfault⟩ := ofJson_eq_ok.1 h
  obtain ⟨j, -, hvalue⟩ := Option.bind_eq_some_iff.1 hdecode
  exact ofJson_eq_ok.2 ⟨decode?_toJson (writable_of_ofJsonValue? hvalue), hfault⟩

/-- A text with a repeated field, a repeated alphabet and a leap second in a time zone. -/
def leapSecondText : String :=
  "\x7b\"strict_fields\": [\"Gr\\u00f6ße\", \"Größe\"],
    \"fixed_length_fields\": \x7b\"ID\": \"hex\", \"ID\": \"ascii\"\x7d,
    \"begin_date\": \"2017-01-01t01:59:60.5+02:00\"\x7d"

/-- The configuration of that text, with its leap second in universal time. -/
def leapSecond : Config :=
  { strictFields := SortedSet.ofList ["Größe"]
    fixedLengthFields := SortedMap.ofList [("ID", .ascii)]
    beginDate := some ⟨⟨2016, 12, 31⟩, 86399, 1500000000⟩ }

theorem ofJson_toJson_leapSecond :
    ofJson leapSecondText = .ok leapSecond ∧ ofJson leapSecond.toJson = .ok leapSecond := by
  have hread : ofJson leapSecondText = .ok leapSecond :=
    ofJson_eq_ok.2 ⟨by decide +kernel, by decide +kernel⟩
  exact ⟨hread, ofJson_toJson hread⟩

end Config

end IndexQuery
