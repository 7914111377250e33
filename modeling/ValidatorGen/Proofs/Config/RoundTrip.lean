import ValidatorGen.Proofs.Config.Stages

/-!
# Configurations are read as they are written

The JSON of a configuration passes both stages of reading, and what is read is the configuration
itself, with the entries of its tables in their order: `ofJson_writtenAs`.  Neither the order in
which the members of its objects stand makes a difference nor further members among them.  The
tables of a configuration are different: there every member is an entry.

## Strategy

Both stages look members up by their names, and an object that extends another one answers as the
other one does (`Extends.get?_eq`).  So for entries and then for configurations it is enough to
know, for each of the members that are written, that it conforms to the schema of its field and
that it is read as the part of the record that it was written for.
-/

namespace ValidatorGen

open Json Check

namespace Json

/-- An object has the members of another one, in any order and among others of other names. -/
inductive Extends : Json → Json → Prop where
  | object {members extended : List (String × Json)} : members ⊆ extended →
      (extended.map Prod.fst).Nodup → Extends (.object members) (.object extended)

theorem Extends.refl {members : List (String × Json)} (h : (members.map Prod.fst).Nodup) :
    Extends (.object members) (.object members) :=
  .object (List.Subset.refl members) h

/-- Every member of the one object is found in the other. -/
theorem Extends.exists_members {members : List (String × Json)} {json : Json}
    (h : Extends (.object members) json) : ∃ extended, json = .object extended ∧
      (extended.map Prod.fst).Nodup ∧
      ∀ member ∈ members, Table.get? extended member.1 = some member.2 := by
  cases h with
  | object hsubset hnames =>
      exact ⟨_, rfl, hnames, fun member hmember =>
        (Table.get?_eq_some_iff hnames).mpr (hsubset hmember)⟩

end Json

namespace Check

variable {named : Table Schema}

theorem conforms_object {type : FlowType} {fields : List (String × Schema)}
    {members : List (String × Json)}
    (h : ∀ field ∈ fields, Conforms named field.2 (Table.get? members field.1)) :
    Conforms named (.object type fields []) (some (.object members)) :=
  .object (fun field hfield => has_of_conforms (h field hfield)) h (by simp)

end Check

namespace Config

/-! ## Tables -/

theorem conforms_tableToJson {valueSchema : Schema}
    (h : ∀ text, Conforms [] valueSchema (some (.string text))) (table : Table String) :
    Conforms [] (.mapping .string valueSchema) (some (tableToJson table)) := by
  refine .mapping (fun member _ => .string member.1) fun member hmember => ?_
  obtain ⟨entry, -, rfl⟩ := List.mem_map.mp hmember
  exact h entry.2

/-! ## Entries -/

namespace Entry

variable {entry : Entry} {json : Json}

theorem conforms_of_extends (h : entry.toJson.Extends json) :
    Conforms [] entrySchema (some json) := by
  obtain ⟨members, rfl, -, hget⟩ := h.exists_members
  simp only [List.forall_mem_cons] at hget
  obtain ⟨hexports, hinput, houtput, -⟩ := hget
  refine conforms_object ?_
  simp only [List.forall_mem_cons]
  refine ⟨?_, ?_, ?_, List.forall_mem_nil _⟩
  · rw [hexports]
    exact conforms_tableToJson .string entry.exports
  · rw [hinput]
    exact .filePath entry.inputFile
  · rw [houtput]
    exact .filePath entry.outputFile

theorem ofJson_of_extends (h : entry.toJson.Extends json) (hnames : entry.exports.names.Nodup) :
    decoder.ofJson json = .ok entry := by
  obtain ⟨members, rfl, hmembers, hget⟩ := h.exists_members
  simp only [List.forall_mem_cons] at hget
  obtain ⟨hexports, hinput, houtput, -⟩ := hget
  exact (ofJson_eq_ok_iff hmembers).mpr
    ⟨⟨_, hexports, ofJson_tableToJson hnames⟩, ⟨_, hinput, rfl⟩, _, houtput, rfl⟩

end Entry

/-! ## Configurations -/

/-- No name stands twice in a table of a configuration. -/
structure HasDistinctNames (config : Config) : Prop where
  importLocations : config.importLocations.names.Nodup
  typeLocations : config.typeLocations.names.Nodup
  exports : ∀ entry ∈ config.generators, entry.exports.names.Nodup

/-- A configuration as JSON, given the JSON of its entries. -/
def toJsonOf (config : Config) (entries : List Json) : Json :=
  .object [
    ("baseDir", .string config.baseDir),
    ("generatedPreamble", .string config.generatedPreamble),
    ("generators", .array entries),
    ("importLocations", tableToJson config.importLocations),
    ("typeLocations", tableToJson config.typeLocations)]

/-- The JSON of a configuration, where its object and those of its entries may have further
members. -/
def WrittenAs (config : Config) (json : Json) : Prop :=
  ∃ entries, List.Forall₂ (fun entry item => entry.toJson.Extends item) config.generators entries ∧
    (config.toJsonOf entries).Extends json

variable {config : Config} {json : Json}

theorem writtenAs_toJson (config : Config) : config.WrittenAs config.toJson := by
  refine ⟨config.generators.map Entry.toJson, ?_, .refl (by simp)⟩
  rw [List.forall₂_map_right_iff, List.forall₂_same]
  exact fun entry _ => .refl (by simp)

theorem conforms_of_writtenAs (h : config.WrittenAs json) : Conforms [] schema (some json) := by
  obtain ⟨entries, hentries, hextends⟩ := h
  obtain ⟨members, rfl, -, hget⟩ := hextends.exists_members
  simp only [List.forall_mem_cons] at hget
  obtain ⟨hbase, hpreamble, hgenerators, himports, htypes, -⟩ := hget
  refine conforms_object ?_
  simp only [List.forall_mem_cons]
  refine ⟨?_, ?_, ?_, ?_, ?_, List.forall_mem_nil _⟩
  · rw [hbase]
    exact .filePath config.baseDir
  · rw [hpreamble]
    exact .string config.generatedPreamble
  · rw [htypes]
    exact conforms_tableToJson .filePath config.typeLocations
  · rw [himports]
    exact conforms_tableToJson .filePath config.importLocations
  · rw [hgenerators]
    refine .list fun item hitem => ?_
    obtain ⟨entry, -, hentry⟩ := exists_mem_of_forall₂ hentries.flip hitem
    exact Entry.conforms_of_extends hentry

/-- The second stage reads a configuration from its JSON. -/
theorem decoder_ofJson_of_writtenAs (h : config.WrittenAs json)
    (hdistinct : config.HasDistinctNames) : decoder.ofJson json = .ok config := by
  obtain ⟨entries, hentries, hextends⟩ := h
  obtain ⟨members, rfl, hmembers, hget⟩ := hextends.exists_members
  simp only [List.forall_mem_cons] at hget
  obtain ⟨hbase, hpreamble, hgenerators, himports, htypes, -⟩ := hget
  -- an entry is read back from each item, whatever further members it has
  have hread : (Decoder.list Entry.decoder).ofJson (.array entries) = .ok config.generators := by
    have hall := (List.forall₂_and_left _ _).mpr ⟨hdistinct.exports, hentries⟩
    exact Decoder.itemsOfJson_eq_ok_iff.mpr (hall.imp fun entry item hentry =>
      Entry.ofJson_of_extends hentry.2 hentry.1).flip
  exact (ofJson_object_eq_ok_iff hmembers).mpr ⟨⟨_, hbase, rfl⟩, ⟨_, hpreamble, rfl⟩,
    ⟨_, hgenerators, hread⟩, ⟨_, himports, ofJson_tableToJson hdistinct.importLocations⟩,
    _, htypes, ofJson_tableToJson hdistinct.typeLocations⟩

theorem isDistinct_toJson (hdistinct : config.HasDistinctNames) : config.toJson.isDistinct := by
  have hentries : ∀ item ∈ config.generators.map Entry.toJson, item.isDistinct = true := by
    intro item hitem
    obtain ⟨entry, hentry, rfl⟩ := List.mem_map.mp hitem
    refine isDistinct_object_iff.mpr ⟨by simp, ?_⟩
    simp only [List.forall_mem_cons]
    exact ⟨isDistinct_tableToJson_iff.mpr (hdistinct.exports entry hentry), rfl, rfl,
      List.forall_mem_nil _⟩
  refine isDistinct_object_iff.mpr ⟨by simp, ?_⟩
  simp only [List.forall_mem_cons]
  exact ⟨rfl, rfl, isDistinct_array_iff.mpr hentries,
    isDistinct_tableToJson_iff.mpr hdistinct.importLocations,
    isDistinct_tableToJson_iff.mpr hdistinct.typeLocations, List.forall_mem_nil _⟩

theorem depth_tableToJson_le (table : Table String) : (tableToJson table).depth ≤ 1 := by
  refine Nat.succ_le_succ (depthOfMembers_le fun member hmember => ?_)
  obtain ⟨entry, -, rfl⟩ := List.mem_map.mp hmember
  exact Nat.le_refl 0

theorem Entry.depth_toJson_le (entry : Entry) : entry.toJson.depth ≤ 2 := by
  refine Nat.succ_le_succ (depthOfMembers_le ?_)
  simp only [List.forall_mem_cons]
  exact ⟨depth_tableToJson_le entry.exports, Nat.zero_le 1, Nat.zero_le 1, List.forall_mem_nil _⟩

/-- A configuration nests no deeper than a reader goes. -/
theorem depth_toJson_le (config : Config) : config.toJson.depth ≤ 4 := by
  have hentries : (Json.array (config.generators.map Entry.toJson)).depth ≤ 3 := by
    refine Nat.succ_le_succ (depthOfItems_le fun item hitem => ?_)
    obtain ⟨entry, -, rfl⟩ := List.mem_map.mp hitem
    exact entry.depth_toJson_le
  have htable (table : Table String) : (tableToJson table).depth ≤ 3 :=
    (depth_tableToJson_le table).trans (by decide)
  refine Nat.succ_le_succ (depthOfMembers_le ?_)
  simp only [List.forall_mem_cons]
  exact ⟨Nat.zero_le 3, Nat.zero_le 3, hentries, htable _, htable _, List.forall_mem_nil _⟩

/-- A configuration is read from its JSON, and from the same JSON with further members: the entries
of its tables keep their order.  The JSON is in turn what the text of it is read as. -/
theorem ofJson_writtenAs (path : Path) (hdistinct : config.HasDistinctNames) :
    ofJson path config.toJson = .ok config ∧
    (∀ json, config.WrittenAs json → ofJson path json = .ok config) ∧
    Json.Decoder.json.read config.toJson.text = .ok config.toJson := by
  have hread (json : Json) (h : config.WrittenAs json) : ofJson path json = .ok config := by
    obtain ⟨value, hrun⟩ := exists_run_of_conforms (conforms_of_writtenAs h)
    rw [run_nil, Option.some.injEq] at hrun
    rw [ofJson, hrun, decoder_ofJson_of_writtenAs h hdistinct]
    rfl
  -- the general statement has any text behind the value, here there is none
  have htext := read_text_append config.integral_toJson (isDistinct_toJson hdistinct)
    (config.depth_toJson_le.trans (by decide)) (show Reader.EndsNumber "".toList by
      simp [Reader.EndsNumber])
  rw [String.append_empty] at htext
  exact ⟨hread _ (writtenAs_toJson config), hread, htext⟩

/-- A configuration whose tables are not in alphabetical order. -/
def shapesConfig : Config where
  baseDir := "src"
  generatedPreamble := "// It's generated\n"
  generators := [⟨[("Square", "deSquare"), ("Circle", "deCircle")], "shapes.json", "shapes.js"⟩]
  importLocations := [("dePoint", "./point.js"), ("deAngle", "./angle.js")]
  typeLocations := []

/-- The JSON of its only entry, with a note. -/
def annotatedEntryJson : Json :=
  .object [
    ("exports", .object [("Square", .string "deSquare"), ("Circle", .string "deCircle")]),
    ("note", .object [("exports", .null)]),
    ("inputFile", .string "shapes.json"),
    ("outputFile", .string "shapes.js")]

/-- Its JSON with a version and with that entry, the other members reordered. -/
def annotatedJson : Json :=
  .object [
    ("version", .number (.int 2)),
    ("typeLocations", .object []),
    ("importLocations", .object [
      ("dePoint", .string "./point.js"), ("deAngle", .string "./angle.js")]),
    ("baseDir", .string "src"),
    ("generators", .array [annotatedEntryJson]),
    ("generatedPreamble", .string "// It's generated\n")]

theorem ofJson_writtenAs_annotated : shapesConfig.HasDistinctNames ∧
    shapesConfig.WrittenAs annotatedJson ∧
    ofJson ⟨"degen.json"⟩ annotatedJson = .ok shapesConfig ∧
    Json.Decoder.json.read shapesConfig.toJson.text = .ok shapesConfig.toJson := by
  have hdistinct : shapesConfig.HasDistinctNames := ⟨by decide, by decide, by decide⟩
  have hwritten : shapesConfig.WrittenAs annotatedJson := by
    refine ⟨[annotatedEntryJson], .cons (.object ?_ ?_) .nil, .object ?_ ?_⟩
    all_goals simp [shapesConfig, tableToJson]
  obtain ⟨-, hread, htext⟩ := ofJson_writtenAs ⟨"degen.json"⟩ hdistinct
  exact ⟨hdistinct, hwritten, hread _ hwritten, htext⟩

end Config

end ValidatorGen
