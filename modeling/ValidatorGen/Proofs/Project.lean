import ValidatorGen.Project
import ValidatorGen.Proofs.Module.Bindings
import ValidatorGen.Proofs.Text.Lines

/-!
# What is generated for a configuration

Generating succeeds exactly if it succeeds for every entry, and then there is one file for each, in
their order (`generate_eq_ok_iff`).  The file of an entry is the module that is built of its job,
and it declares every export that the entry lists (`Makes.declares`).
-/

namespace ValidatorGen

/-! ## Texts of modules -/

namespace Module

variable {module : Module} {entry : String × Schema}

/-- A text contains the declaration of a validator under a name. -/
def Declares (text : String) (entry : String × Schema) : Prop :=
  (exportText entry).toList <:+: text.toList

/-- The text of a module contains the declarations of its exports. -/
theorem declares_text (h : entry ∈ module.exports) : Declares module.text entry := by
  have hblock : exportText entry ∈ module.blocks :=
    List.mem_append_right _ (List.mem_map_of_mem h)
  unfold Declares text
  rw [String.toList_append]
  exact (Text.isInfix_intercalate hblock).trans (List.prefix_append _ _).isInfix

end Module

/-! ## Entries -/

namespace Config.Entry

variable {entry : Config.Entry} {module : Table Schema} {exports : List (String × Schema)}

/-- What an entry lists is taken from the module. -/
theorem mem_of_select {input output : String} (h : entry.select module = .ok exports)
    (hlisted : entry.exports.get? input = some output) :
    ∃ schema, module.get? input = some schema ∧ (output, schema) ∈ exports := by
  unfold select at h
  split at h
  · cases h
  · next hnone =>
      obtain rfl := Except.ok.inj h
      have hname : input ∈ entry.exports.names := by
        by_contra hnew
        rw [Table.get?_eq_none_iff.mpr hnew] at hlisted
        cases hlisted
      have hhas : module.has input = true := by
        simpa using List.find?_eq_none.mp hnone input hname
      obtain ⟨schema, hschema⟩ := Option.isSome_iff_exists.mp hhas
      refine ⟨schema, hschema, List.mem_filterMap.mpr ⟨(input, schema), ?_, ?_⟩⟩
      · obtain ⟨before, after, rfl, -⟩ := List.lookup_eq_some_iff.mp hschema
        exact List.mem_append_right before List.mem_cons_self
      · simp [hlisted]

end Config.Entry

namespace Project

variable {read : Files Id} {config : Config} {base path : Path} {entry : Config.Entry}
  {file : File} {files : List File}

theorem run_bind {α β : Type} {first : ExceptT Problem Id α} {outcome : Except Problem α}
    (h : first.run = outcome) (next : α → ExceptT Problem Id β) :
    (first >>= next).run = outcome >>= fun value => (next value).run := by
  rw [ExceptT.run_bind, h]
  cases outcome <;> rfl

theorem run_bind_eq_ok_iff {α β : Type} {first : ExceptT Problem Id α}
    {next : α → ExceptT Problem Id β} {result : β} : (first >>= next).run = .ok result ↔
      ∃ value, first.run = .ok value ∧ (next value).run = .ok result := by
  rw [run_bind rfl]
  exact bind_eq_ok_iff

theorem run_mapM_eq_ok_iff {α β : Type} {question : α → ExceptT Problem Id β} {list : List α}
    {answers : List β} : (list.mapM question).run = .ok answers ↔
      List.Forall₂ (fun x answer => (question x).run = .ok answer) list answers := by
  have hrun : (list.mapM question).run =
      list.mapM fun x => (show Except Problem β from (question x).run) := by
    clear answers
    induction list with
    | nil => rfl
    | cons head tail ih =>
        rw [List.mapM_cons, List.mapM_cons, run_bind rfl]
        refine congrArg _ (funext fun value => ?_)
        rw [run_bind ih]
        rfl
  rw [hrun]
  exact mapM_eq_ok_iff

theorem readTyped_eq_ok_iff {α : Type} {decoder : Json.Decoder α} {value : α} :
    (readTyped read decoder path).run = .ok value ↔
      ∃ text, (read path).run = .ok text ∧ decoder.read text = .ok value := by
  unfold readTyped
  rw [run_bind_eq_ok_iff]
  refine exists_congr fun text => and_congr_right fun _ => ?_
  cases decoder.read text with
  | error fault => exact ⟨nofun, nofun⟩
  | ok value' =>
      show (Except.ok value' : Except Problem α) = .ok value ↔ _
      rw [Except.ok.injEq, Except.ok.injEq]

theorem loadConfig_eq_ok_iff : (loadConfig read path).run = .ok config ↔
    ∃ json, (readTyped read Json.Decoder.json path).run = .ok json ∧
      Config.ofJson path json = .ok config := run_bind_eq_ok_iff

/-- The job of an entry exports what is selected from the schemas of its input file. -/
theorem loadJob_eq_ok_iff {job : Job} : (loadJob read base entry).run = .ok job ↔
    ∃ schemas, (readTyped read Schema.moduleDecoder (entry.inputPath base)).run = .ok schemas ∧
      ∃ exports, entry.select schemas = .ok exports ∧ job = ⟨⟨entry.outputFile⟩, exports⟩ := by
  unfold loadJob
  rw [run_bind_eq_ok_iff]
  refine exists_congr fun schemas => and_congr_right fun _ => ?_
  show entry.job base schemas = .ok job ↔ _
  unfold Config.Entry.job
  cases entry.select schemas with
  | error name => simp
  | ok exports => simp [eq_comm]

/-- A file is what is generated for an entry. -/
def Makes (read : Files Id) (config : Config) (base : Path) (entry : Config.Entry) (file : File) :
    Prop :=
  ∃ job, (loadJob read base entry).run = .ok job ∧ ∃ module,
    Module.build base config.generatedPreamble config.locations job = .ok module ∧
      file = module.file

theorem makes_of_eq_ok {schemas : Table Schema} {exports : List (String × Schema)}
    (hread : (readTyped read Schema.moduleDecoder (entry.inputPath base)).run = .ok schemas)
    (hselect : entry.select schemas = .ok exports)
    (hbuild : (Module.build base config.generatedPreamble config.locations
      ⟨⟨entry.outputFile⟩, exports⟩).toOption.map Module.file = some file) :
    Makes read config base entry file := by
  obtain ⟨module, hmodule, rfl⟩ := exists_eq_ok_of_map_toOption hbuild
  exact ⟨_, loadJob_eq_ok_iff.mpr ⟨schemas, hread, exports, hselect, rfl⟩, module, hmodule, rfl⟩

/-- Generating succeeds if it succeeds for every entry of the configuration. -/
theorem generate_eq_ok_iff : (generate read path).run = .ok files ↔
    ∃ config, (loadConfig read path).run = .ok config ∧
      List.Forall₂ (Makes read config (config.resolveBaseDir path)) config.generators files := by
  unfold generate
  simp only [run_bind_eq_ok_iff, run_mapM_eq_ok_iff]
  refine exists_congr fun config => and_congr_right fun _ => ?_
  -- all jobs are loaded before the first module is built
  have hfiles (jobs : List Job) :
      (ofResult (Module.files (config.resolveBaseDir path) config.generatedPreamble
        config.locations jobs) : ExceptT Problem Id _).run = .ok files ↔
      List.Forall₂ (fun job file => ∃ module, Module.build (config.resolveBaseDir path)
        config.generatedPreamble config.locations job = .ok module ∧ file = module.file)
        jobs files := by
    simp only [← map_eq_ok_iff]
    exact mapM_eq_ok_iff
  simp only [hfiles]
  exact exists_forall₂_comp_iff

/-- Every export that an entry lists is declared in a text: under its name, as the schema that the
input file of the entry holds. -/
def DeclaresAll (read : Files Id) (base : Path) (entry : Config.Entry) (text : String) : Prop :=
  ∀ input output, entry.exports.get? input = some output → ∃ schemas schema,
    (readTyped read Schema.moduleDecoder (entry.inputPath base)).run = .ok schemas ∧
      schemas.get? input = some schema ∧ Module.Declares text (output, schema)

theorem Makes.path_eq (h : Makes read config base entry file) :
    file.path = Module.outputPath base ⟨entry.outputFile⟩ := by
  obtain ⟨job, hjob, module, hbuild, rfl⟩ := h
  obtain ⟨schemas, -, exports, -, rfl⟩ := loadJob_eq_ok_iff.mp hjob
  exact (Module.build_eq_ok_iff.mp hbuild).path

/-- One file is generated for an entry. -/
theorem Makes.unique {other : File} (h : Makes read config base entry file)
    (hother : Makes read config base entry other) : other = file := by
  obtain ⟨job, hjob, module, hbuild, rfl⟩ := h
  obtain ⟨job', hjob', module', hbuild', rfl⟩ := hother
  obtain rfl := Except.ok.inj (hjob.symm.trans hjob')
  obtain rfl := Except.ok.inj (hbuild.symm.trans hbuild')
  rfl

/-- A file that is generated declares what its entry lists. -/
theorem Makes.declares (h : Makes read config base entry file) :
    DeclaresAll read base entry file.contents := by
  obtain ⟨job, hjob, module, hbuild, rfl⟩ := h
  obtain ⟨schemas, hread, exports, hselect, rfl⟩ := loadJob_eq_ok_iff.mp hjob
  have built := Module.build_eq_ok_iff.mp hbuild
  intro input output hlisted
  obtain ⟨schema, hschema, hmem⟩ := Config.Entry.mem_of_select hselect hlisted
  refine ⟨schemas, schema, hread, hschema, ?_⟩
  exact Module.declares_text (built.perm_exports.mem_iff.mpr hmem)

end Project

end ValidatorGen
