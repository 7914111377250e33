import ValidatorGen.Config.Basic
import ValidatorGen.Proofs.Json.Record
import ValidatorGen.Proofs.Json.RoundTrip

/-!
# Configurations as records

A configuration and each of its entries is read from an object if every member of the record is
there and is read: `Entry.ofJson_eq_ok_iff` and `ofJson_object_eq_ok_iff`.  The order of the members
and members that the record does not have make no difference.  What is written of a configuration
consists of texts only (`integral_toJson`), so it is read back from its compact text.
-/

namespace ValidatorGen

open Json

namespace Config

/-! ## Entries -/

namespace Entry

theorem keeps_exports : record.Keeps "exports" (Decoder.table .text) (·.exports) where
  slot? := ⟨_, rfl, fun _ _ => rfl⟩
  spares := by
    simp only [record, List.forall_mem_cons]
    exact ⟨fun h => absurd rfl h, fun _ => .of_map fun _ _ => rfl,
      fun _ => .of_map fun _ _ => rfl, List.forall_mem_nil _⟩

theorem keeps_inputFile : record.Keeps "inputFile" .text (·.inputFile) where
  slot? := ⟨_, rfl, fun _ _ => rfl⟩
  spares := by
    simp only [record, List.forall_mem_cons]
    exact ⟨fun _ => .of_map fun _ _ => rfl, fun h => absurd rfl h,
      fun _ => .of_map fun _ _ => rfl, List.forall_mem_nil _⟩

theorem keeps_outputFile : record.Keeps "outputFile" .text (·.outputFile) where
  slot? := ⟨_, rfl, fun _ _ => rfl⟩
  spares := by
    simp only [record, List.forall_mem_cons]
    exact ⟨fun _ => .of_map fun _ _ => rfl, fun _ => .of_map fun _ _ => rfl,
      fun h => absurd rfl h, List.forall_mem_nil _⟩

/-- An entry is read if its three members are. -/
theorem ofJson_eq_ok_iff {members : List (String × Json)}
    (hnames : (members.map Prod.fst).Nodup) {entry : Entry} :
    Entry.decoder.ofJson (.object members) = .ok entry ↔
      (Decoder.table .text).Finds members "exports" entry.exports ∧
        Decoder.text.Finds members "inputFile" entry.inputFile ∧
          Decoder.text.Finds members "outputFile" entry.outputFile := by
  simp only [decoder, Decoder.record, bind_eq_ok_iff, Fault.atRoot, mapError_eq_ok_iff]
  constructor
  · rintro ⟨parts, hparts, hbuild⟩
    simp only [record, bind_eq_ok_iff, Decoder.require_eq_ok_iff] at hbuild
    obtain ⟨exports, hexports, input, hinput, output, houtput, hentry⟩ := hbuild
    cases hentry
    exact ⟨(keeps_exports.part_eq_some_iff rfl hparts).mp hexports,
      (keeps_inputFile.part_eq_some_iff rfl hparts).mp hinput,
      (keeps_outputFile.part_eq_some_iff rfl hparts).mp houtput⟩
  · rintro ⟨hexports, hinput, houtput⟩
    obtain ⟨parts, hparts⟩ : ∃ parts, record.membersOfJson members record.empty = .ok parts := by
      refine Decoder.Record.exists_parts hnames ?_
      simp only [record, List.forall_mem_cons]
      exact ⟨⟨_, _, _, _, keeps_exports, rfl, hexports⟩, ⟨_, _, _, _, keeps_inputFile, rfl, hinput⟩,
        ⟨_, _, _, _, keeps_outputFile, rfl, houtput⟩, List.forall_mem_nil _⟩
    refine ⟨parts, hparts, ?_⟩
    simp only [record, bind_eq_ok_iff, Decoder.require_eq_ok_iff]
    exact ⟨_, (keeps_exports.part_eq_some_iff rfl hparts).mpr hexports,
      _, (keeps_inputFile.part_eq_some_iff rfl hparts).mpr hinput,
      _, (keeps_outputFile.part_eq_some_iff rfl hparts).mpr houtput, rfl⟩

end Entry

/-! ## The configuration -/

theorem keeps_baseDir : record.Keeps "baseDir" .text (·.baseDir) where
  slot? := ⟨_, rfl, fun _ _ => rfl⟩
  spares := by
    simp only [record, List.forall_mem_cons]
    exact ⟨fun h => absurd rfl h, fun _ => .of_map fun _ _ => rfl,
      fun _ => .of_map fun _ _ => rfl, fun _ => .of_map fun _ _ => rfl,
      fun _ => .of_map fun _ _ => rfl, List.forall_mem_nil _⟩

theorem keeps_generatedPreamble : record.Keeps "generatedPreamble" .text (·.generatedPreamble) where
  slot? := ⟨_, rfl, fun _ _ => rfl⟩
  spares := by
    simp only [record, List.forall_mem_cons]
    exact ⟨fun _ => .of_map fun _ _ => rfl, fun h => absurd rfl h,
      fun _ => .of_map fun _ _ => rfl, fun _ => .of_map fun _ _ => rfl,
      fun _ => .of_map fun _ _ => rfl, List.forall_mem_nil _⟩

theorem keeps_generators : record.Keeps "generators" (.list Entry.decoder) (·.generators) where
  slot? := ⟨_, rfl, fun _ _ => rfl⟩
  spares := by
    simp only [record, List.forall_mem_cons]
    exact ⟨fun _ => .of_map fun _ _ => rfl, fun _ => .of_map fun _ _ => rfl,
      fun h => absurd rfl h, fun _ => .of_map fun _ _ => rfl,
      fun _ => .of_map fun _ _ => rfl, List.forall_mem_nil _⟩

theorem keeps_importLocations :
    record.Keeps "importLocations" (.table .text) (·.importLocations) where
  slot? := ⟨_, rfl, fun _ _ => rfl⟩
  spares := by
    simp only [record, List.forall_mem_cons]
    exact ⟨fun _ => .of_map fun _ _ => rfl, fun _ => .of_map fun _ _ => rfl,
      fun _ => .of_map fun _ _ => rfl, fun h => absurd rfl h,
      fun _ => .of_map fun _ _ => rfl, List.forall_mem_nil _⟩

theorem keeps_typeLocations : record.Keeps "typeLocations" (.table .text) (·.typeLocations) where
  slot? := ⟨_, rfl, fun _ _ => rfl⟩
  spares := by
    simp only [record, List.forall_mem_cons]
    exact ⟨fun _ => .of_map fun _ _ => rfl, fun _ => .of_map fun _ _ => rfl,
      fun _ => .of_map fun _ _ => rfl, fun _ => .of_map fun _ _ => rfl,
      fun h => absurd rfl h, List.forall_mem_nil _⟩

/-- A configuration is read if its five members are. -/
theorem ofJson_object_eq_ok_iff {members : List (String × Json)}
    (hnames : (members.map Prod.fst).Nodup) {config : Config} :
    decoder.ofJson (.object members) = .ok config ↔
      Decoder.text.Finds members "baseDir" config.baseDir ∧
        Decoder.text.Finds members "generatedPreamble" config.generatedPreamble ∧
          (Decoder.list Entry.decoder).Finds members "generators" config.generators ∧
            (Decoder.table .text).Finds members "importLocations" config.importLocations ∧
              (Decoder.table .text).Finds members "typeLocations" config.typeLocations := by
  simp only [decoder, Decoder.record, bind_eq_ok_iff, Fault.atRoot, mapError_eq_ok_iff]
  constructor
  · rintro ⟨parts, hparts, hbuild⟩
    simp only [record, bind_eq_ok_iff, Decoder.require_eq_ok_iff] at hbuild
    obtain ⟨_, hbase, _, hpreamble, _, hgenerators, _, himports, _, htypes, hconfig⟩ := hbuild
    cases hconfig
    exact ⟨(keeps_baseDir.part_eq_some_iff rfl hparts).mp hbase,
      (keeps_generatedPreamble.part_eq_some_iff rfl hparts).mp hpreamble,
      (keeps_generators.part_eq_some_iff rfl hparts).mp hgenerators,
      (keeps_importLocations.part_eq_some_iff rfl hparts).mp himports,
      (keeps_typeLocations.part_eq_some_iff rfl hparts).mp htypes⟩
  · rintro ⟨hbase, hpreamble, hgenerators, himports, htypes⟩
    obtain ⟨parts, hparts⟩ : ∃ parts, record.membersOfJson members record.empty = .ok parts := by
      refine Decoder.Record.exists_parts hnames ?_
      simp only [record, List.forall_mem_cons]
      exact ⟨⟨_, _, _, _, keeps_baseDir, rfl, hbase⟩,
        ⟨_, _, _, _, keeps_generatedPreamble, rfl, hpreamble⟩,
        ⟨_, _, _, _, keeps_generators, rfl, hgenerators⟩,
        ⟨_, _, _, _, keeps_importLocations, rfl, himports⟩,
        ⟨_, _, _, _, keeps_typeLocations, rfl, htypes⟩, List.forall_mem_nil _⟩
    refine ⟨parts, hparts, ?_⟩
    simp only [record, bind_eq_ok_iff, Decoder.require_eq_ok_iff]
    exact ⟨_, (keeps_baseDir.part_eq_some_iff rfl hparts).mpr hbase,
      _, (keeps_generatedPreamble.part_eq_some_iff rfl hparts).mpr hpreamble,
      _, (keeps_generators.part_eq_some_iff rfl hparts).mpr hgenerators,
      _, (keeps_importLocations.part_eq_some_iff rfl hparts).mpr himports,
      _, (keeps_typeLocations.part_eq_some_iff rfl hparts).mpr htypes, rfl⟩

/-! ## What is written -/

theorem integral_tableToJson (table : Table String) : Integral (tableToJson table) := by
  refine .object fun member hmember => ?_
  obtain ⟨entry, -, rfl⟩ := List.mem_map.mp hmember
  exact .string entry.2

theorem Entry.integral_toJson (entry : Entry) : Integral entry.toJson := by
  refine .object (List.forall_mem_cons.mpr ⟨integral_tableToJson entry.exports, ?_⟩)
  simp [Integral.string]

theorem integral_toJson (config : Config) : Integral config.toJson := by
  have hgenerators : Integral (.array (config.generators.map Entry.toJson)) := by
    refine .array fun item hitem => ?_
    obtain ⟨entry, -, rfl⟩ := List.mem_map.mp hitem
    exact entry.integral_toJson
  refine .object ?_
  simp [Integral.string, hgenerators, integral_tableToJson]

end Config

end ValidatorGen
