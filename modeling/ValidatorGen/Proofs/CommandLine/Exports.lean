import Mathlib
import ValidatorGen.Proofs.CommandLine.Write
import ValidatorGen.Proofs.Config.Record
import ValidatorGen.Proofs.Project

/-!
# What becomes of the exports that a configuration lists

A run that succeeds writes the file of every entry, one after the other.  Nothing keeps two entries
from being written to the same place: there, the file of the later one replaces that of the earlier
one, and the run reports no failure.  So the exports of an entry are kept exactly if the last file
that is written to its place declares them as well (`keepsAll_iff`).

## Strategy

The files of a configuration correspond to its entries (`generate_eq_ok_iff`), and of the files at
one place the last one can be read there (`Wrote.readText_of_last`).  Both are put together for the
last entry at a place (`exists_keeps_iff`); an entry is either that one itself or replaced by it.
-/

namespace ValidatorGen.CommandLine

open Disk Project

variable {before after : Disk} {machine : Machine} {config : Config} {path base : Path}
  {entry last : Config.Entry} {entries : List Config.Entry} {file : File} {files : List File}

/-! ## The file at a place -/

/-- Once files are written, the last of those at a place can be read under the path of any of
them. -/
theorem Wrote.readText_of_last {earlier later : List File} {other : File}
    (h : Wrote (earlier ++ file :: later) (earlier ++ file :: later).length before after)
    (hother : other ∈ earlier ++ file :: later)
    (hplace : before.placeOf other.path = before.placeOf file.path)
    (hlast : ∀ next ∈ later, before.placeOf next.path ≠ before.placeOf file.path) :
    after.readText other.path = .ok file.contents := by
  have htarget := h.targets other (by rwa [List.take_length])
  rw [placeOf_congr h.workingDirectory, hplace] at htarget
  have hfile : after.file? (before.placeOf file.path) = some (.text file.contents) := by
    rw [h.regular, List.take_length]
    exact overlaid_last hlast
  refine readText_of_target htarget ?_
  unfold Disk.file? at hfile
  split at hfile
  · cases hfile
  · exact hfile

/-- A run that succeeds writes one file for each entry of its configuration. -/
theorem exists_wrote_of_run (hconfig : (loadConfig machine.disk.texts path).run = .ok config)
    {later : Machine}
    (hrun : (run Machine.system ⟨some path, false, none⟩).run machine = (.ok (), later)) :
    ∃ files, List.Forall₂ (Makes machine.disk.texts config (config.resolveBaseDir path))
      config.generators files ∧ Wrote files files.length machine.disk later.disk := by
  have hends := runEnds_run ⟨some path, false, none⟩ machine
  rw [hrun] at hends
  cases hends with
  | generated hpath hgenerated hwriting =>
      obtain rfl := Option.some.inj hpath
      obtain ⟨config', hconfig', hfiles⟩ := generate_eq_ok_iff.mp hgenerated
      obtain rfl := Except.ok.inj (hconfig.symm.trans hconfig')
      refine ⟨_, hfiles, ?_⟩
      have houtputs (files : List File) : outputs ⟨some path, false, none⟩ files = files :=
        List.append_nil files
      rw [houtputs] at hwriting
      cases hwriting with
      | written _ _ hwrote => exact hwrote

/-! ## The exports of an entry -/

/-- Where the file of an entry is written. -/
def placeOfEntry (disk : Disk) (base : Path) (entry : Config.Entry) : List String :=
  disk.placeOf (Module.outputPath base ⟨entry.outputFile⟩)

/-- After a run, the file of an entry declares everything that the entry lists. -/
def Keeps (before after : Disk) (base : Path) (entry : Config.Entry) : Prop :=
  ∃ text, after.readText (Module.outputPath base ⟨entry.outputFile⟩) = .ok text ∧
    DeclaresAll before.texts base entry text

/-- An entry comes before another one, the last of all that are written to the same place. -/
def Replaces (disk : Disk) (base : Path) (entries : List Config.Entry)
    (entry last : Config.Entry) : Prop :=
  ∃ first between others, entries = first ++ entry :: (between ++ last :: others) ∧
    placeOfEntry disk base last = placeOfEntry disk base entry ∧
      ∀ other ∈ others, placeOfEntry disk base other ≠ placeOfEntry disk base entry

/-- The last entry that is written to a place decides what is kept there. -/
theorem exists_keeps_iff (earlier : List Config.Entry) {later : List Config.Entry}
    (hfiles : List.Forall₂ (Makes before.texts config base) (earlier ++ last :: later) files)
    (hwrote : Wrote files files.length before after) (hentry : entry ∈ earlier ++ last :: later)
    (hplace : placeOfEntry before base last = placeOfEntry before base entry)
    (hlast : ∀ other ∈ later, placeOfEntry before base other ≠ placeOfEntry before base entry) :
    ∃ file, Makes before.texts config base last file ∧
      (Keeps before after base entry ↔ DeclaresAll before.texts base entry file.contents) := by
  obtain ⟨other, hother, hmakes⟩ := exists_mem_of_forall₂ hfiles hentry
  obtain ⟨front, rest, -, hrest, rfl⟩ := forall₂_append_left_iff.mp hfiles
  obtain ⟨file, back, hmade, hback, rfl⟩ := List.forall₂_cons_left_iff.mp hrest
  refine ⟨file, hmade, ?_⟩
  -- what the file holds in the end was written for the last entry of its place
  have hread : after.readText other.path = .ok file.contents := by
    refine hwrote.readText_of_last hother ?_ ?_
    · rw [hmakes.path_eq, hmade.path_eq]
      exact hplace.symm
    · intro next hnext
      obtain ⟨later', hlater', hmakes'⟩ := exists_mem_of_forall₂ hback.flip hnext
      have hne := hlast later' hlater'
      rw [← hplace] at hne
      rwa [Makes.path_eq hmakes', hmade.path_eq]
  rw [hmakes.path_eq] at hread
  constructor
  · rintro ⟨text, htext, hdeclares⟩
    obtain rfl := Except.ok.inj (hread.symm.trans htext)
    exact hdeclares
  · exact fun hdeclares => ⟨file.contents, hread, hdeclares⟩

/-- The last element of a kind. -/
theorem exists_last {α : Type} {list : List α} {kind : α → Prop} (h : ∃ x ∈ list, kind x) :
    ∃ earlier last later, list = earlier ++ last :: later ∧ kind last ∧
      ∀ x ∈ later, ¬kind x := by
  induction list with
  | nil => simp at h
  | cons head tail ih =>
      by_cases htail : ∃ x ∈ tail, kind x
      · obtain ⟨earlier, last, later, rfl, hlast⟩ := ih htail
        exact ⟨head :: earlier, last, later, rfl, hlast⟩
      · obtain ⟨x, hx, hkind⟩ := h
        rcases List.mem_cons.mp hx with rfl | hx
        · exact ⟨[], x, tail, rfl, hkind, fun y hy hky => htail ⟨y, hy, hky⟩⟩
        · exact absurd ⟨x, hx, hkind⟩ htail

section

variable {later : Machine} (hconfig : (loadConfig machine.disk.texts path).run = .ok config)
  (hrun : (run Machine.system ⟨some path, false, none⟩).run machine = (.ok (), later))

include hconfig hrun

/-- The exports of an entry are kept unless another one is written to its place later. -/
theorem keeps_of_forall_ne {first others : List Config.Entry}
    (hentries : config.generators = first ++ entry :: others)
    (hlast : ∀ other ∈ others, placeOfEntry machine.disk (config.resolveBaseDir path) other ≠
      placeOfEntry machine.disk (config.resolveBaseDir path) entry) :
    Keeps machine.disk later.disk (config.resolveBaseDir path) entry := by
  obtain ⟨files, hfiles, hwrote⟩ := exists_wrote_of_run hconfig hrun
  rw [hentries] at hfiles
  obtain ⟨file, hmakes, hkeeps⟩ := exists_keeps_iff _ hfiles hwrote (by simp) rfl hlast
  exact hkeeps.mpr hmakes.declares

/-- The exports of an entry that is replaced are kept if the file that replaces its own declares
them. -/
theorem exists_keeps_iff_of_replaces
    (h : Replaces machine.disk (config.resolveBaseDir path) config.generators entry last) :
    ∃ file, Makes machine.disk.texts config (config.resolveBaseDir path) last file ∧
      (Keeps machine.disk later.disk (config.resolveBaseDir path) entry ↔
        DeclaresAll machine.disk.texts (config.resolveBaseDir path) entry file.contents) := by
  obtain ⟨files, hfiles, hwrote⟩ := exists_wrote_of_run hconfig hrun
  obtain ⟨first, between, others, hentries, hplace, hlast⟩ := h
  have hsplit : config.generators = (first ++ entry :: between) ++ last :: others := by
    rw [hentries, List.append_assoc, List.cons_append]
  rw [hsplit] at hfiles
  exact exists_keeps_iff _ hfiles hwrote (by simp) hplace hlast

/-- A run that succeeds keeps everything that is listed if no two entries have the same place. -/
theorem keepsAll_of_nodup (hplaces :
    (config.generators.map (placeOfEntry machine.disk (config.resolveBaseDir path))).Nodup) :
    ∀ entry ∈ config.generators,
      Keeps machine.disk later.disk (config.resolveBaseDir path) entry := by
  intro entry hentry
  obtain ⟨first, others, hentries⟩ := List.append_of_mem hentry
  refine keeps_of_forall_ne hconfig hrun hentries fun other hother heq => ?_
  rw [hentries, List.map_append, List.map_cons] at hplaces
  have hfirst := (List.nodup_cons.mp hplaces.of_append_right).1
  exact hfirst (heq ▸ List.mem_map_of_mem hother)

/-- A run that succeeds keeps everything that is listed exactly if, wherever an entry is replaced by
a later one, the file of the later one declares what the replaced one lists. -/
theorem keepsAll_iff :
    (∀ entry ∈ config.generators,
      Keeps machine.disk later.disk (config.resolveBaseDir path) entry) ↔
    ∀ entry last file,
      Replaces machine.disk (config.resolveBaseDir path) config.generators entry last →
      Makes machine.disk.texts config (config.resolveBaseDir path) last file →
      DeclaresAll machine.disk.texts (config.resolveBaseDir path) entry file.contents := by
  constructor
  · intro hkeeps entry last file hreplaces hmakes
    obtain ⟨file', hmakes', hiff⟩ := exists_keeps_iff_of_replaces hconfig hrun hreplaces
    obtain rfl := hmakes'.unique hmakes
    obtain ⟨first, between, others, hentries, -⟩ := hreplaces
    exact hiff.mp (hkeeps entry (by simp [hentries]))
  · intro hdeclares entry hentry
    obtain ⟨first, others, hentries⟩ := List.append_of_mem hentry
    -- the file is replaced by that of a later entry, or stays
    by_cases hreplaced : ∃ other ∈ others,
        placeOfEntry machine.disk (config.resolveBaseDir path) other =
          placeOfEntry machine.disk (config.resolveBaseDir path) entry
    · obtain ⟨between, last, others, rfl, hplace, hlast⟩ := exists_last hreplaced
      have hreplaces : Replaces machine.disk (config.resolveBaseDir path) config.generators entry
          last := ⟨first, between, others, hentries, hplace, hlast⟩
      obtain ⟨file, hmakes, hiff⟩ := exists_keeps_iff_of_replaces hconfig hrun hreplaces
      exact hiff.mpr (hdeclares entry last file hreplaces hmakes)
    · exact keeps_of_forall_ne hconfig hrun hentries
        fun other hother heq => hreplaced ⟨other, hother, heq⟩

end

/-! ## A project with two entries for one file -/

/-- A configuration of which two entries are written to `o.js`. -/
def replacingConfig : Config where
  baseDir := "."
  generatedPreamble := ""
  generators := [⟨[("A", "deA")], "in.json", "o.js"⟩, ⟨[("B", "deB")], "in.json", "o.js"⟩]
  importLocations := [("deNumber", "./r.js")]
  typeLocations := []

/-- A machine with the configuration and the module that it takes schemas from. -/
def replacingMachine : Machine where
  printed := ""
  disk.entries := [
    (["work"], .directory),
    (["work", "degen.json"], .text <|
      "\x7b\"baseDir\":\".\",\"generatedPreamble\":\"\",\"generators\":[" ++
      "\x7b\"exports\":\x7b\"A\":\"deA\"\x7d," ++
      "\"inputFile\":\"in.json\",\"outputFile\":\"o.js\"\x7d," ++
      "\x7b\"exports\":\x7b\"B\":\"deB\"\x7d," ++
      "\"inputFile\":\"in.json\",\"outputFile\":\"o.js\"\x7d]," ++
      "\"importLocations\":\x7b\"deNumber\":\"./r.js\"\x7d,\"typeLocations\":\x7b\x7d\x7d"),
    (["work", "in.json"], .text
      "\x7b\"A\":\x7b\"kind\":\"number\"\x7d,\"B\":\x7b\"kind\":\"number\"\x7d\x7d")]
  disk.staged := []
  disk.workingDirectory := ["work"]

/-- What is generated for the two entries. -/
def replacingFiles : List File := [
  ⟨⟨"o.js"⟩, "import \x7b deNumber \x7d from './r.js'\n\nexport const deA = deNumber\n"⟩,
  ⟨⟨"o.js"⟩, "import \x7b deNumber \x7d from './r.js'\n\nexport const deB = deNumber\n"⟩]

theorem texts_eq_ok_iff {disk : Disk} {text : String} :
    (disk.texts path).run = .ok text ↔ disk.readText path = .ok text := mapError_eq_ok_iff

theorem loadConfig_replacingMachine :
    (loadConfig replacingMachine.disk.texts ⟨"degen.json"⟩).run = .ok replacingConfig := by
  -- the file holds the compact text of the configuration
  have hfile : replacingMachine.disk.readText ⟨"degen.json"⟩ =
      .ok (replacingConfig.toJson.text ++ "") := toOption_eq_some_iff.mp (by decide +kernel)
  have hends : Json.Reader.EndsNumber "".toList := by simp [Json.Reader.EndsNumber]
  have hread := Json.read_text_append replacingConfig.integral_toJson (by decide +kernel)
    (by decide +kernel) hends
  refine loadConfig_eq_ok_iff.mpr ⟨replacingConfig.toJson, readTyped_eq_ok_iff.mpr
    ⟨_, texts_eq_ok_iff.mpr hfile, hread⟩, ?_⟩
  cbv

theorem resolveBaseDir_replacingConfig : replacingConfig.resolveBaseDir ⟨"degen.json"⟩ = ⟨"."⟩ := by
  decide +kernel

theorem readTyped_replacingMachine :
    (readTyped replacingMachine.disk.texts Schema.moduleDecoder ⟨"./in.json"⟩).run =
      .ok [("A", .number), ("B", .number)] := by
  refine readTyped_eq_ok_iff.mpr ⟨_, texts_eq_ok_iff.mpr rfl, ?_⟩
  cbv

theorem makes_replacingMachine :
    List.Forall₂ (Makes replacingMachine.disk.texts replacingConfig ⟨"."⟩)
      replacingConfig.generators replacingFiles := by
  refine .cons ?_ (.cons ?_ .nil)
  · exact makes_of_eq_ok readTyped_replacingMachine rfl (by decide +kernel)
  · exact makes_of_eq_ok readTyped_replacingMachine rfl (by decide +kernel)

theorem exists_run_replacingMachine : ∃ later,
    (run Machine.system ⟨some ⟨"degen.json"⟩, false, none⟩).run replacingMachine =
      (.ok (), later) := by
  have hgenerated : replacingMachine.disk.generated ⟨"degen.json"⟩ = .ok replacingFiles := by
    refine generate_eq_ok_iff.mpr ⟨replacingConfig, loadConfig_replacingMachine, ?_⟩
    rw [resolveBaseDir_replacingConfig]
    exact makes_replacingMachine
  have hprinted := run_print replacingMachine
    (output ⟨some ⟨"degen.json"⟩, false, none⟩ replacingFiles)
  have hwrites : ((writeAll Machine.system replacingFiles).run { replacingMachine with
      printed := replacingMachine.printed ++
        output ⟨some ⟨"degen.json"⟩, false, none⟩ replacingFiles }).1.toOption = some () := by
    decide +kernel
  have hends (ends : Except Failure Unit × Machine) (h : ends.1.toOption = some ()) :
      ∃ later, ends = (.ok (), later) := by
    obtain ⟨failure | answer, later⟩ := ends
    · cases h
    · exact ⟨later, rfl⟩
  unfold run
  dsimp only
  rw [run_bind (generate_system _ _), hgenerated]
  dsimp only
  rw [run_bind hprinted]
  exact hends _ hwrites

/-- A run may succeed although a validator is lost: `deA` is declared nowhere. -/
theorem exists_run_losing_an_export : ∃ config later,
    (loadConfig replacingMachine.disk.texts ⟨"degen.json"⟩).run = .ok config ∧
      (run Machine.system ⟨some ⟨"degen.json"⟩, false, none⟩).run replacingMachine =
        (.ok (), later) ∧
      ¬∀ entry ∈ config.generators, Keeps replacingMachine.disk later.disk
        (config.resolveBaseDir ⟨"degen.json"⟩) entry := by
  obtain ⟨later, hrun⟩ := exists_run_replacingMachine
  refine ⟨replacingConfig, later, loadConfig_replacingMachine, hrun, fun hkeeps => ?_⟩
  -- the second file stands at the place of both entries
  obtain ⟨files, hfiles, hwrote⟩ :=
    @exists_wrote_of_run replacingMachine _ _ loadConfig_replacingMachine _ hrun
  obtain ⟨file, hmakes, hiff⟩ := exists_keeps_iff [_] hfiles hwrote List.mem_cons_self
    rfl (by simp)
  have hdeclares := hiff.mp (hkeeps _ List.mem_cons_self)
  rw [resolveBaseDir_replacingConfig] at hmakes hdeclares
  have hlast := (List.forall₂_cons.mp (List.forall₂_cons.mp makes_replacingMachine).2).1
  obtain rfl := hmakes.unique hlast
  obtain ⟨schemas, schema, hschemas, hschema, hdeclared⟩ := hdeclares "A" "deA" rfl
  obtain rfl := Except.ok.inj (readTyped_replacingMachine.symm.trans hschemas)
  obtain rfl := Option.some.inj hschema
  revert hdeclared
  unfold Module.Declares
  decide +kernel

/-- The condition at work: `o.js` is written for both entries. -/
theorem keepsAll_iff_of_replacingMachine : ∃ config later,
    (loadConfig replacingMachine.disk.texts ⟨"degen.json"⟩).run = .ok config ∧
      (run Machine.system ⟨some ⟨"degen.json"⟩, false, none⟩).run replacingMachine =
        (.ok (), later) ∧
      ((∀ entry ∈ config.generators, Keeps replacingMachine.disk later.disk
        (config.resolveBaseDir ⟨"degen.json"⟩) entry) ↔
      ∀ entry last file, Replaces replacingMachine.disk (config.resolveBaseDir ⟨"degen.json"⟩)
        config.generators entry last →
        Makes replacingMachine.disk.texts config (config.resolveBaseDir ⟨"degen.json"⟩) last file →
        DeclaresAll replacingMachine.disk.texts (config.resolveBaseDir ⟨"degen.json"⟩) entry
          file.contents) := by
  obtain ⟨later, hrun⟩ := exists_run_replacingMachine
  exact ⟨replacingConfig, later, loadConfig_replacingMachine, hrun,
    @keepsAll_iff replacingMachine _ _ _ loadConfig_replacingMachine hrun⟩

end ValidatorGen.CommandLine
