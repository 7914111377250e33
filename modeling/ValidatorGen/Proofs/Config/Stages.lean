import ValidatorGen.Proofs.Check.Idempotent
import ValidatorGen.Proofs.Check.Validate
import ValidatorGen.Proofs.Config.Record
import ValidatorGen.Proofs.Json.Basic

/-!
# The two stages of reading a configuration

The JSON of a configuration has to pass the validator of `Config.schema` before it is read as a
record.  The two describe the same configurations but for one thing: a mapping takes an array for
an object of its elements under their indices, and a record does not.  `stages_agree` says that
this is all: what the first stage accepts is read by the second one unless a table is written as an
array, and the configuration is then what the first stage returned.

## Strategy

The first stage is taken apart by the lemmas on acceptance, one for each kind of schema, and the
second by those on records.  What is left are the tables (`table_cases`) and, built on them, the
entries.
-/

namespace ValidatorGen

open Json Check

namespace Config

/-! ## Tables -/

theorem isDistinct_tableToJson_iff {table : Table String} :
    (tableToJson table).isDistinct = true ↔ table.names.Nodup := by
  rw [tableToJson, isDistinct_object_iff, List.map_map]
  refine and_iff_left fun member hmember => ?_
  obtain ⟨entry, -, rfl⟩ := List.mem_map.mp hmember
  rfl

theorem ofJson_tableToJson {table : Table String} (h : table.names.Nodup) :
    (Decoder.table .text).ofJson (tableToJson table) = .ok table := by
  refine map_eq_ok_iff.mpr ⟨table, ?_, (Table.ofPairs_eq_self h).symm⟩
  rw [Decoder.membersOfJson_eq_ok_iff, List.forall₂_map_left_iff, List.forall₂_same]
  exact fun entry _ => ⟨rfl, rfl⟩

theorem values_eq_map_snd {properties : List (String × Json)} {values : List Json}
    (h : List.Forall₂ (fun property item => some (string (some property.2)) = some (.ok item))
      properties values) : properties.map Prod.snd = values := by
  refine List.forall₂_eq_eq_eq ▸ List.forall₂_map_left_iff.mpr (h.imp fun property item hitem => ?_)
  obtain ⟨text, htext, rfl⟩ := string_eq_ok_iff.mp (Option.some.inj hitem)
  exact Option.some.inj htext

/-- A mapping of texts takes a table that is not written as an array, and returns it as it is. -/
theorem exists_table_of_run {valueSchema : Schema}
    (hschema : ∀ x, run [] valueSchema x = some (string x)) {json value : Json}
    (hdistinct : json.isDistinct = true)
    (h : run [] (.mapping .string valueSchema) (some json) = some (.ok value))
    (hobject : ∀ items, json ≠ .array items) :
    ∃ table, (Decoder.table .text).ofJson json = .ok table ∧ value = tableToJson table := by
  rw [run_mapping] at h
  obtain ⟨properties, keys, values, hproperties, hkeys, hvalues, rfl⟩ := mapping_eq_ok_iff.mp h
  simp only [hschema] at hvalues
  cases json with
  | object members =>
      cases hproperties
      -- every value was accepted as a text, so the members are a table of texts
      have htexts : ∃ table : Table String,
          (table.map fun entry => (entry.1, Json.string entry.2)) = properties := by
        refine Set.mem_range.mp ((Set.range_list_map _).symm ▸ fun member hmember => ?_)
        obtain ⟨value, -, hvalue⟩ := exists_mem_of_forall₂ hvalues hmember
        obtain ⟨text, htext, -⟩ := string_eq_ok_iff.mp (Option.some.inj hvalue)
        exact ⟨(member.1, text), Prod.ext rfl (Option.some.inj htext).symm⟩
      obtain ⟨table, rfl⟩ := htexts
      have hnames : table.names.Nodup := isDistinct_tableToJson_iff.mp hdistinct
      refine ⟨table, ofJson_tableToJson hnames, ?_⟩
      rw [map_propertyName_eq hkeys fun _ _ _ => eq_string_of_run, ← values_eq_map_snd hvalues,
        ← List.unzip_fst, ← List.unzip_snd, List.zip_unzip, Table.ofPairs_eq_self ?_]
      · rfl
      · rwa [List.map_map]
  | array items => exact absurd rfl (hobject items)
  | null | bool value | number value | string value => cases hproperties

theorem ne_array_of_ofJson {json : Json} {table : Table String}
    (h : (Decoder.table .text).ofJson json = .ok table) (items : List Json) :
    json ≠ .array items := by
  rintro rfl
  cases h

/-! ## Objects without optional fields -/

theorem run_required_eq_ok {type : FlowType} {fields : List (String × Schema)}
    (hnames : (fields.map Prod.fst).Nodup) {x : Input} {value : Json}
    (h : run [] (.object type fields []) x = some (.ok value)) :
    ∃ members values, members? x = .ok members ∧
      List.Forall₂ (fun field value =>
        run [] field.2 (Table.get? members field.1) = some (.ok value)) fields values ∧
        value = .object ((fields.map Prod.fst).zip values) := by
  rw [← runWith_customs] at h
  obtain ⟨members, values, hmembers, hvalues, rfl⟩ := runWith_object_eq_ok_iff.mp h
  have hnone : lookedAt true members [] = [] := rfl
  rw [hnone, List.append_nil] at hvalues ⊢
  simp only [FieldsAccept, runWith_customs] at hvalues
  exact ⟨members, values, hmembers, hvalues, by rw [setFields_eq_zip hnames hvalues.length_eq]⟩

theorem eq_object_of_members? {x : Input} {members : List (String × Json)} {name : String}
    {json : Json} (h : members? x = .ok members) (hget : Table.get? members name = some json) :
    x = some (.object members) := by
  rcases members?_eq_ok h with hx | ⟨items, -, rfl⟩
  · exact hx
  · cases hget

/-! ## Entries -/

namespace Entry

/-- What the first stage makes of an entry, member by member. -/
theorem exists_of_run {json value : Json} (h : run [] entrySchema (some json) = some (.ok value)) :
    ∃ members exports exports' input output, json = .object members ∧
      Table.get? members "exports" = some exports ∧
      run [] (.mapping .string .string) (some exports) = some (.ok exports') ∧
      Table.get? members "inputFile" = some (.string input) ∧
      Table.get? members "outputFile" = some (.string output) ∧
      value = .object [("exports", exports'), ("inputFile", .string input),
        ("outputFile", .string output)] := by
  obtain ⟨members, values, hmembers, hvalues, rfl⟩ := run_required_eq_ok (by decide) h
  simp only [List.forall₂_cons_left_iff, List.forall₂_nil_left_iff] at hvalues
  obtain ⟨exports', _, hexports, ⟨_, _, hinput, ⟨_, _, houtput, rfl, rfl⟩, rfl⟩, rfl⟩ := hvalues
  obtain ⟨input, hgetInput, rfl⟩ := string_eq_ok_iff.mp (Option.some.inj hinput)
  obtain ⟨output, hgetOutput, rfl⟩ := string_eq_ok_iff.mp (Option.some.inj houtput)
  obtain ⟨exports, hget, -⟩ := prunes_of_conforms (conforms_of_run hexports) hexports
  cases eq_object_of_members? hmembers hget
  exact ⟨members, exports, exports', input, output, rfl, hget, hget ▸ hexports, hgetInput,
    hgetOutput, rfl⟩

/-- The table of an entry is not written as an array. -/
def WritesObject (json : Json) : Prop := ∀ items, json.member? "exports" ≠ some (.array items)

/-- An entry that the second stage reads as well is what the first one returned. -/
theorem exists_of_writesObject {json value : Json} (hdistinct : json.isDistinct = true)
    (h : run [] entrySchema (some json) = some (.ok value)) (hobject : WritesObject json) :
    ∃ entry, decoder.ofJson json = .ok entry ∧ value = entry.toJson := by
  obtain ⟨members, exports, exports', input, output, rfl, hexports, hrun, hinput, houtput, rfl⟩ :=
    exists_of_run h
  obtain ⟨hnames, hmembers⟩ := isDistinct_object_iff.mp hdistinct
  obtain ⟨table, htable, rfl⟩ := exists_table_of_run (fun _ => rfl)
    (hmembers _ (Table.mem_of_get? hexports)) hrun fun items hitems =>
      hobject items (hitems ▸ hexports)
  refine ⟨⟨table, input, output⟩, (ofJson_eq_ok_iff hnames).mpr ?_, rfl⟩
  exact ⟨⟨_, hexports, htable⟩, ⟨_, hinput, rfl⟩, ⟨_, houtput, rfl⟩⟩

theorem writesObject_of_ofJson {json value : Json} (hdistinct : json.isDistinct = true)
    (h : run [] entrySchema (some json) = some (.ok value)) {entry : Entry}
    (hentry : decoder.ofJson json = .ok entry) : WritesObject json := by
  obtain ⟨members, -, -, -, -, rfl, -⟩ := exists_of_run h
  obtain ⟨⟨exports, hexports, hread⟩, -⟩ :=
    (ofJson_eq_ok_iff (isDistinct_object_iff.mp hdistinct).1).mp hentry
  intro items hitems
  exact ne_array_of_ofJson hread items (Option.some.inj (hexports.symm.trans hitems))

end Entry

/-! ## The configuration -/

/-- What the first stage makes of a configuration, member by member. -/
theorem exists_of_run {json value : Json} (h : run [] schema (some json) = some (.ok value)) :
    ∃ members base preamble types types' imports imports' generators generators',
      json = .object members ∧
      Table.get? members "baseDir" = some (.string base) ∧
      Table.get? members "generatedPreamble" = some (.string preamble) ∧
      Table.get? members "typeLocations" = some types ∧
      run [] locationsSchema (some types) = some (.ok types') ∧
      Table.get? members "importLocations" = some imports ∧
      run [] locationsSchema (some imports) = some (.ok imports') ∧
      Table.get? members "generators" = some (.array generators) ∧
      List.Forall₂ (fun item value => run [] entrySchema (some item) = some (.ok value))
        generators generators' ∧
      value = .object [("baseDir", .string base), ("generatedPreamble", .string preamble),
        ("typeLocations", types'), ("importLocations", imports'),
        ("generators", .array generators')] := by
  obtain ⟨members, values, hmembers, hvalues, rfl⟩ := run_required_eq_ok (by decide) h
  simp only [List.forall₂_cons_left_iff, List.forall₂_nil_left_iff] at hvalues
  obtain ⟨_, _, hbase, ⟨_, _, hpreamble, ⟨types', _, htypes, ⟨imports', _, himports,
    ⟨_, _, hgenerators, rfl, rfl⟩, rfl⟩, rfl⟩, rfl⟩, rfl⟩ := hvalues
  obtain ⟨base, hgetBase, rfl⟩ := string_eq_ok_iff.mp (Option.some.inj hbase)
  obtain ⟨preamble, hgetPreamble, rfl⟩ := string_eq_ok_iff.mp (Option.some.inj hpreamble)
  obtain ⟨types, hgetTypes, -⟩ := prunes_of_run htypes
  obtain ⟨imports, hgetImports, -⟩ := prunes_of_run himports
  rw [run_list] at hgenerators
  obtain ⟨generators, generators', hgetGenerators, hrun, rfl⟩ := list_eq_ok_iff.mp hgenerators
  cases eq_object_of_members? hmembers hgetBase
  exact ⟨members, base, preamble, types, types', imports, imports', generators, generators', rfl,
    hgetBase, hgetPreamble, hgetTypes, hgetTypes ▸ htypes, hgetImports, hgetImports ▸ himports,
    hgetGenerators, hrun, rfl⟩

/-- No table of a configuration is written as an array. -/
structure WritesObjects (json : Json) : Prop where
  typeLocations : ∀ items, json.member? "typeLocations" ≠ some (.array items)
  importLocations : ∀ items, json.member? "importLocations" ≠ some (.array items)
  exports : ∀ entries, json.member? "generators" = some (.array entries) →
    ∀ entry ∈ entries, Entry.WritesObject entry

/-- A configuration as JSON, its members in the order in which the schema declares them. -/
def toSchemaJson (config : Config) : Json :=
  .object [
    ("baseDir", .string config.baseDir),
    ("generatedPreamble", .string config.generatedPreamble),
    ("typeLocations", tableToJson config.typeLocations),
    ("importLocations", tableToJson config.importLocations),
    ("generators", .array (config.generators.map Entry.toJson))]

theorem exists_entries_of_writesObject {items values : List Json}
    (hdistinct : ∀ item ∈ items, item.isDistinct = true)
    (hobjects : ∀ item ∈ items, Entry.WritesObject item)
    (h : List.Forall₂ (fun item value => run [] entrySchema (some item) = some (.ok value))
      items values) :
    ∃ entries, Decoder.itemsOfJson Entry.decoder.ofJson 0 items = .ok entries ∧
      values = entries.map Entry.toJson := by
  have hentries : List.Forall₂ (fun item value => ∃ entry,
      Entry.decoder.ofJson item = .ok entry ∧ entry.toJson = value) items values := by
    have hall := (List.forall₂_and_left _ _).mpr ⟨fun item hitem =>
      And.intro (hdistinct item hitem) (hobjects item hitem), h⟩
    refine hall.imp fun item value hitem => ?_
    obtain ⟨⟨hdistinct, hobject⟩, hrun⟩ := hitem
    obtain ⟨entry, hentry, rfl⟩ := Entry.exists_of_writesObject hdistinct hrun hobject
    exact ⟨entry, hentry, rfl⟩
  obtain ⟨entries, hread, hvalues⟩ := exists_forall₂_comp_iff.mpr hentries
  rw [← List.forall₂_map_left_iff, List.forall₂_eq_eq_eq] at hvalues
  exact ⟨entries, Decoder.itemsOfJson_eq_ok_iff.mpr hread, hvalues.symm⟩

/-- The second stage reads what the first one accepts unless a table is written as an array. -/
theorem exists_of_writesObjects {json value : Json} (hdistinct : json.isDistinct = true)
    (h : run [] schema (some json) = some (.ok value)) (hobjects : WritesObjects json) :
    ∃ config, decoder.ofJson json = .ok config ∧ value = config.toSchemaJson := by
  obtain ⟨members, base, preamble, types, types', imports, imports', generators, generators', rfl,
    hbase, hpreamble, htypes, hrunTypes, himports, hrunImports, hgenerators, hrun, rfl⟩ :=
    exists_of_run h
  obtain ⟨hnames, hmembers⟩ := isDistinct_object_iff.mp hdistinct
  have hdistinctMember : ∀ {name json}, Table.get? members name = some json →
      json.isDistinct = true := fun hget => hmembers _ (Table.mem_of_get? hget)
  obtain ⟨typeTable, htypeTable, rfl⟩ := exists_table_of_run (fun _ => rfl)
    (hdistinctMember htypes) hrunTypes fun items hitems =>
      hobjects.typeLocations items (hitems ▸ htypes)
  obtain ⟨importTable, himportTable, rfl⟩ := exists_table_of_run (fun _ => rfl)
    (hdistinctMember himports) hrunImports fun items hitems =>
      hobjects.importLocations items (hitems ▸ himports)
  obtain ⟨entries, hentries, rfl⟩ := exists_entries_of_writesObject
    (isDistinct_array_iff.mp (hdistinctMember hgenerators))
    (hobjects.exports generators hgenerators) hrun
  refine ⟨⟨base, preamble, entries, importTable, typeTable⟩,
    (ofJson_object_eq_ok_iff hnames).mpr ?_, rfl⟩
  exact ⟨⟨_, hbase, rfl⟩, ⟨_, hpreamble, rfl⟩, ⟨_, hgenerators, hentries⟩,
    ⟨_, himports, himportTable⟩, ⟨_, htypes, htypeTable⟩⟩

theorem writesObjects_of_ofJson {json value : Json} (hdistinct : json.isDistinct = true)
    (h : run [] schema (some json) = some (.ok value)) {config : Config}
    (hconfig : decoder.ofJson json = .ok config) : WritesObjects json := by
  obtain ⟨members, _, _, _, _, _, _, generators, _, rfl, -, -, -, -, -, -, hgenerators, hrun, -⟩ :=
    exists_of_run h
  obtain ⟨hnames, hmembers⟩ := isDistinct_object_iff.mp hdistinct
  obtain ⟨-, -, ⟨_, hitems, hread⟩, ⟨imports, himports, hreadImports⟩, types, htypes, hreadTypes⟩ :=
    (ofJson_object_eq_ok_iff hnames).mp hconfig
  refine ⟨fun items hitems => ?_, fun items hitems => ?_, fun entries hentries entry hentry => ?_⟩
  · exact ne_array_of_ofJson hreadTypes items (Option.some.inj (htypes.symm.trans hitems))
  · exact ne_array_of_ofJson hreadImports items (Option.some.inj (himports.symm.trans hitems))
  · cases hgenerators.symm.trans hentries
    cases hgenerators.symm.trans hitems
    have hdistinctItems := isDistinct_array_iff.mp (hmembers _ (Table.mem_of_get? hgenerators))
    obtain ⟨_, -, hrun⟩ := exists_mem_of_forall₂ hrun hentry
    obtain ⟨_, -, hread⟩ := exists_mem_of_forall₂ (Decoder.itemsOfJson_eq_ok_iff.mp hread) hentry
    exact Entry.writesObject_of_ofJson (hdistinctItems entry hentry) hrun hread

/-- What the first stage accepts is read by the second one, as what the first one returned, unless a
table is written as an array; then the second stage reports its fault. -/
theorem stages_agree (path : Path) {json value : Json} (hdistinct : json.isDistinct = true)
    (h : validate schema (some json) = .ok value) :
    (WritesObjects json → ∃ config, decoder.ofJson json = .ok config ∧
      ofJson path json = .ok config ∧ value = config.toSchemaJson) ∧
    (¬WritesObjects json → ∃ fault, decoder.ofJson json = .error fault ∧
      ofJson path json = .error (.invalidConfig path.text fault.message)) := by
  have hrun : run [] schema (some json) = some (.ok value) := by rw [run_nil, h]
  constructor
  · intro hobjects
    obtain ⟨config, hconfig, hvalue⟩ := exists_of_writesObjects hdistinct hrun hobjects
    exact ⟨config, hconfig, by rw [ofJson, h, hconfig]; rfl, hvalue⟩
  · intro harray
    cases hread : decoder.ofJson json with
    | ok config => exact absurd (writesObjects_of_ofJson hdistinct hrun hread) harray
    | error fault => exact ⟨fault, rfl, by rw [ofJson, h, hread]; rfl⟩

/-- A configuration with two generators, given the exports of the second one. -/
def listingJson (exports : Json) : Json := .object [
  ("typeLocations", .object [("U", .string "./u.js"), ("T", .string "./t.js")]),
  ("importLocations", .object [("deNumber", .string "./r.js"), ("deString", .string "runtime")]),
  ("generators", .array [
    .object [("outputFile", .string "o.js"), ("inputFile", .string "in.json"),
      ("exports", .object [("B", .string "deB"), ("A", .string "deA")])],
    .object [("exports", exports), ("inputFile", .string "in.json"),
      ("outputFile", .string "lib/p.js")]]),
  ("generatedPreamble", .string "// generated"), ("baseDir", .string ".")]

/-- The exports of a generator stand in an object in the one configuration and in an array in the
other. -/
theorem stages_agree_listingJson :
    (∃ config, decoder.ofJson (listingJson (.object [("D", .string "deD"), ("C", .string "deC")])) =
        .ok config ∧
      ofJson ⟨"degen.json"⟩ (listingJson (.object [("D", .string "deD"), ("C", .string "deC")])) =
        .ok config ∧
      Json.object [("baseDir", .string "."), ("generatedPreamble", .string "// generated"),
        ("typeLocations", .object [("U", .string "./u.js"), ("T", .string "./t.js")]),
        ("importLocations",
          .object [("deNumber", .string "./r.js"), ("deString", .string "runtime")]),
        ("generators", .array [
          .object [("exports", .object [("B", .string "deB"), ("A", .string "deA")]),
            ("inputFile", .string "in.json"), ("outputFile", .string "o.js")],
          .object [("exports", .object [("D", .string "deD"), ("C", .string "deC")]),
            ("inputFile", .string "in.json"), ("outputFile", .string "lib/p.js")]])] =
        config.toSchemaJson) ∧
    ∃ fault, decoder.ofJson (listingJson (.array [.string "deD", .string "deC"])) = .error fault ∧
      ofJson ⟨"degen.json"⟩ (listingJson (.array [.string "deD", .string "deC"])) =
        .error (.invalidConfig "degen.json" fault.message) := by
  constructor
  · refine (stages_agree ⟨"degen.json"⟩ (by decide) rfl).1 ⟨?_, ?_, ?_⟩
    · rintro items ⟨⟩
    · rintro items ⟨⟩
    · intro entries hentries entry hentry
      cases hentries
      rcases List.mem_cons.mp hentry with rfl | hentry
      · rintro items ⟨⟩
      · obtain rfl := List.mem_singleton.mp hentry
        rintro items ⟨⟩
  · refine (stages_agree ⟨"degen.json"⟩ (by decide) rfl).2 fun hobjects => ?_
    exact hobjects.exports _ rfl _ (List.mem_cons_of_mem _ List.mem_cons_self) _ rfl

/-- A configuration without generators, given the locations of types. -/
def emptyJson (types : Json) : Json :=
  .object [("typeLocations", types), ("importLocations", .object []), ("generators", .array []),
    ("generatedPreamble", .string ""), ("baseDir", .string ".")]

/-- The first stage takes an array for a table, and the second one does not. -/
theorem exists_accepted_and_not_read : ∃ json value : Json, json.isDistinct = true ∧
    validate schema (some json) = .ok value ∧
    ofJson ⟨"degen.json"⟩ json = .error (.invalidConfig "degen.json"
      "at JSON path typeLocations → invalid type: sequence, expected a map") := by
  have hvalid : validate schema (some (emptyJson (.array [.string "./t.js"]))) =
      .ok (.object [("baseDir", .string "."), ("generatedPreamble", .string ""),
        ("typeLocations", .object [("0", .string "./t.js")]), ("importLocations", .object []),
        ("generators", .array [])]) := rfl
  have hread : decoder.ofJson (emptyJson (.array [.string "./t.js"])) = .error
      ⟨[.member "typeLocations"], .mismatch (.array [.string "./t.js"]) "a map", none⟩ := rfl
  refine ⟨_, _, by decide, hvalid, ?_⟩
  rw [ofJson, hvalid, hread]
  rfl

end Config

end ValidatorGen
