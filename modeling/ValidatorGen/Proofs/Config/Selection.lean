import Mathlib
import ValidatorGen.Proofs.Json.Names
import ValidatorGen.Proofs.Project

/-!
# What an entry takes from its input file

An entry lists names of schemas and under which names to export them; its input file is a module
that holds schemas under their names, in an order of its own.  The list says what is exported, and
the module in which order: `loadJob_selects` says that every listed schema is exported exactly once,
that nothing else is, and what is reported where the module lacks a listed schema.

## Strategy

The names of the module differ, because it was read from a text, and so do those of the list.  So
the names of the module that are listed are a permutation of the list (`perm_names_listed`), and
what they are exported as is a permutation of what the list exports them as (`perm_exports`).  The
order of the list matters to look-ups in it no more than to the set of its names
(`get?_eq_of_perm`).
-/

namespace ValidatorGen

namespace Table

variable {α : Type} {table other : Table α}

theorem has_iff {name : String} : table.has name = true ↔ name ∈ table.names := by
  rw [has, Option.isSome_iff_ne_none, ne_eq, get?_eq_none_iff, not_not]

/-- The order of a table does not matter to what is found in it. -/
theorem get?_eq_of_perm (h : table.Perm other) (hnames : table.names.Nodup) (name : String) :
    table.get? name = other.get? name := by
  have hother : other.names.Nodup := (h.map Prod.fst).nodup_iff.mp hnames
  refine Option.ext fun value => ?_
  rw [get?_eq_some_iff hnames, get?_eq_some_iff hother, h.mem_iff]

theorem map_get?_names (hnames : table.names.Nodup) :
    table.names.map table.get? = table.map fun entry => some entry.2 := by
  rw [names, List.map_map]
  exact List.map_congr_left fun entry hentry => (get?_eq_some_iff hnames).mpr hentry

end Table

namespace Config.Entry

variable {entry : Entry} {module : Table Schema} {exports : List (String × Schema)} {name : String}

/-- The schemas of a module that are listed, in the order of the module. -/
def listed (entry : Entry) (module : Table Schema) : Table Schema :=
  module.filter fun named => entry.exports.has named.1

/-- A listed schema of a module is exported as it is, under the name that the list gives it. -/
def Exports (entry : Entry) (named exported : String × Schema) : Prop :=
  entry.exports.get? named.1 = some exported.1 ∧ exported.2 = named.2

/-- The first name of the list that a module lacks. -/
def LacksFirst (entry : Entry) (module : Table Schema) (name : String) : Prop :=
  ∃ before after, entry.exports.names = before ++ name :: after ∧ name ∉ module.names ∧
    ∀ earlier ∈ before, earlier ∈ module.names

theorem select_eq_error_iff : entry.select module = .error name ↔ entry.LacksFirst module name := by
  have hlacks (other : String) : (!module.has other) = true ↔ other ∉ module.names := by
    rw [Bool.not_eq_true', ← Bool.not_eq_true, Table.has_iff]
  have hfind : (entry.exports.names.find? fun name => !module.has name) = some name ↔
      entry.LacksFirst module name := by
    rw [List.find?_eq_some_iff_append, hlacks, LacksFirst]
    constructor
    · rintro ⟨hname, before, after, hnames, hbefore⟩
      exact ⟨before, after, hnames, hname, fun earlier hmem => by
        simpa [Table.has_iff] using hbefore earlier hmem⟩
    · rintro ⟨before, after, hnames, hname, hbefore⟩
      exact ⟨hname, before, after, hnames, fun earlier hmem => by
        simpa [Table.has_iff] using hbefore earlier hmem⟩
  rw [← hfind, select]
  split
  · next first hfirst => rw [hfirst, Except.error.injEq, Option.some.injEq]
  · next hnone => rw [hnone]; exact iff_of_false nofun nofun

theorem forall₂_filterMap (entry : Entry) (module : Table Schema) :
    List.Forall₂ entry.Exports (entry.listed module) (module.filterMap fun named =>
      (entry.exports.get? named.1).map fun renamed => (renamed, named.2)) := by
  induction module with
  | nil => exact .nil
  | cons named others ih =>
      cases hget : entry.exports.get? named.1 with
      | none =>
          have hunlisted : entry.exports.has named.1 = false := by rw [Table.has, hget]; rfl
          rw [listed, List.filter_cons, hunlisted, if_neg Bool.false_ne_true,
            List.filterMap_cons_none (by rw [hget]; rfl)]
          exact ih
      | some renamed =>
          have hlisted : entry.exports.has named.1 = true := by rw [Table.has, hget]; rfl
          rw [listed, List.filter_cons, hlisted, if_pos rfl,
            List.filterMap_cons_some (by rw [hget, Option.map_some])]
          exact .cons ⟨hget, rfl⟩ ih

theorem mem_names_of_select {exports : List (String × Schema)}
    (h : entry.select module = .ok exports) :
    ∀ name ∈ entry.exports.names, name ∈ module.names := by
  unfold select at h
  split at h
  · cases h
  · next hnone =>
      intro name hname
      exact Table.has_iff.mp (by simpa using List.find?_eq_none.mp hnone name hname)

/-- If the module has all listed schemas, they are what is selected. -/
theorem exists_select_eq_ok (h : ∀ name ∈ entry.exports.names, name ∈ module.names) :
    ∃ exports, entry.select module = .ok exports ∧
      List.Forall₂ entry.Exports (entry.listed module) exports := by
  have hnone : (entry.exports.names.find? fun name => !module.has name) = none := by
    simpa [List.find?_eq_none, Table.has_iff] using h
  refine ⟨_, ?_, entry.forall₂_filterMap module⟩
  rw [select, hnone]

/-- In whatever order all listed schemas are listed, the same are selected. -/
theorem select_reorder {reordered : Table String} {exports : List (String × Schema)}
    (h : entry.select module = .ok exports) (hperm : reordered.Perm entry.exports)
    (hlist : entry.exports.names.Nodup) :
    ({ entry with exports := reordered } : Entry).select module = .ok exports := by
  have hget : reordered.get? = entry.exports.get? :=
    funext fun name => (Table.get?_eq_of_perm hperm.symm hlist name).symm
  have hnone (list : Table String) (hlist : list.Perm entry.exports) :
      (list.names.find? fun name => !module.has name) = none := by
    have hmem (name : String) : name ∈ list.names ↔ name ∈ entry.exports.names :=
      (hlist.map Prod.fst).mem_iff
    simpa [List.find?_eq_none, Table.has_iff, hmem] using mem_names_of_select h
  rw [select, hnone _ (.refl _)] at h
  rw [select, hnone _ hperm, hget]
  exact h

/-- The names of the module that are listed are those of the list. -/
theorem perm_names_listed (h : ∀ name ∈ entry.exports.names, name ∈ module.names)
    (hlist : entry.exports.names.Nodup) (hmodule : module.names.Nodup) :
    (entry.listed module).names.Perm entry.exports.names := by
  have hnames : (entry.listed module).names =
      module.names.filter fun name => entry.exports.has name := by
    rw [Table.names, Table.names, List.filter_map]
    rfl
  rw [hnames, List.perm_ext_iff_of_nodup (hmodule.filter _) hlist]
  intro name
  rw [List.mem_filter, Table.has_iff]
  exact ⟨And.right, fun hname => ⟨h name hname, hname⟩⟩

/-- What is exported are the names that the list gives, each as often as it gives it. -/
theorem perm_exports (h : ∀ name ∈ entry.exports.names, name ∈ module.names)
    (hlist : entry.exports.names.Nodup) (hmodule : module.names.Nodup)
    (hexports : List.Forall₂ entry.Exports (entry.listed module) exports) :
    (exports.map Prod.fst).Perm (entry.exports.map Prod.snd) := by
  have hlisted : (entry.listed module).names.map entry.exports.get? =
      exports.map fun exported => some exported.1 := by
    rw [Table.names, List.map_map, ← List.forall₂_eq_eq_eq, List.forall₂_map_left_iff,
      List.forall₂_map_right_iff]
    exact hexports.imp fun _ _ hexported => hexported.1
  have hperm := (perm_names_listed h hlist hmodule).map entry.exports.get?
  rw [hlisted, Table.map_get?_names hlist] at hperm
  refine (List.map_perm_map_iff fun _ _ => Option.some.inj).mp ?_
  rwa [List.map_map, List.map_map]

end Config.Entry

namespace Project

variable {read : Files Id} {base : Path} {entry : Config.Entry} {module : Table Schema}

theorem loadJob_of_readTyped
    (hread : (readTyped read Schema.moduleDecoder (entry.inputPath base)).run = .ok module) :
    (loadJob read base entry).run = entry.job base module := by
  rw [loadJob, run_bind hread]
  rfl

/-- Whatever module the input file of an entry holds: the job of the entry fails exactly if the
module lacks a listed schema, and the first such name of the list is reported.  Otherwise it exports
the listed schemas of the module in the order of the module, and in whatever order they are
listed. -/
theorem loadJob_selects
    (hread : (readTyped read Schema.moduleDecoder (entry.inputPath base)).run = .ok module)
    (hlist : entry.exports.names.Nodup) :
    ((∃ file name, (loadJob read base entry).run = .error (.missingExport file name)) ↔
      ∃ name ∈ entry.exports.names, name ∉ module.names) ∧
    (∀ file name, (loadJob read base entry).run = .error (.missingExport file name) ↔
      file = (entry.inputPath base).text ∧ entry.LacksFirst module name) ∧
    ((∀ name ∈ entry.exports.names, name ∈ module.names) → ∃ exports,
      (loadJob read base entry).run = .ok ⟨⟨entry.outputFile⟩, exports⟩ ∧
      List.Forall₂ entry.Exports (entry.listed module) exports ∧
      (exports.map Prod.fst).Perm (entry.exports.map Prod.snd) ∧
      exports.length = entry.exports.length ∧
      ∀ reordered, reordered.Perm entry.exports →
        (loadJob read base { entry with exports := reordered }).run =
          .ok ⟨⟨entry.outputFile⟩, exports⟩) := by
  have hmodule : module.names.Nodup := by
    obtain ⟨text, -, htable⟩ := readTyped_eq_ok_iff.mp hread
    exact Json.nodup_names_of_read htable
  have hfails (file name : String) :
      (loadJob read base entry).run = .error (.missingExport file name) ↔
        file = (entry.inputPath base).text ∧ entry.LacksFirst module name := by
    rw [loadJob_of_readTyped hread, Config.Entry.job, ← Config.Entry.select_eq_error_iff]
    cases entry.select module with
    | error first =>
        rw [Except.error.injEq, Except.error.injEq, Problem.missingExport.injEq]
        exact and_congr_left' eq_comm
    | ok exports => exact ⟨nofun, nofun⟩
  refine ⟨?_, hfails, fun h => ?_⟩
  · constructor
    · rintro ⟨file, name, hrun⟩
      obtain ⟨-, before, after, hnames, hname, -⟩ := (hfails file name).mp hrun
      exact ⟨name, by simp [hnames], hname⟩
    · rintro ⟨name, hlisted, hname⟩
      -- some name is missing, so there is a first one
      cases hselect : entry.select module with
      | error first =>
          exact ⟨_, first, (hfails _ first).mpr ⟨rfl, Config.Entry.select_eq_error_iff.mp hselect⟩⟩
      | ok exports => exact absurd (Config.Entry.mem_names_of_select hselect name hlisted) hname
  · obtain ⟨exports, hselect, hexports⟩ := Config.Entry.exists_select_eq_ok h
    have hperm := Config.Entry.perm_exports h hlist hmodule hexports
    refine ⟨exports, ?_, hexports, hperm, ?_, fun reordered hreordered => ?_⟩
    · rw [loadJob_of_readTyped hread, Config.Entry.job, hselect]
    · simpa using hperm.length_eq
    · rw [@loadJob_of_readTyped read base { entry with exports := reordered } module hread,
        Config.Entry.job, Config.Entry.select_reorder hselect hreordered hlist]

/-- Files that hold the same module of three schemas. -/
def threeSchemas : Files Id := fun _ =>
  pure ("\x7b\"A\":\x7b\"kind\":\"number\"\x7d,\"B\":\x7b\"kind\":\"string\"\x7d," ++
    "\"C\":\x7b\"kind\":\"string\"\x7d\x7d")

/-- Two of three schemas are exported in the order of the module, in whichever order they are
listed. -/
theorem loadJob_selects_two_of_three :
    (Table.names [("C", "deC"), ("A", "deA")]).Nodup ∧
    (readTyped threeSchemas Schema.moduleDecoder ⟨"src/in.json"⟩).run =
      .ok [("A", .number), ("B", .string), ("C", .string)] ∧
    (loadJob threeSchemas ⟨"src"⟩ ⟨[("C", "deC"), ("A", "deA")], "in.json", "o.js"⟩).run =
      .ok ⟨⟨"o.js"⟩, [("deA", .number), ("deC", .string)]⟩ ∧
    (loadJob threeSchemas ⟨"src"⟩ ⟨[("A", "deA"), ("C", "deC")], "in.json", "o.js"⟩).run =
      .ok ⟨⟨"o.js"⟩, [("deA", .number), ("deC", .string)]⟩ := by
  have hread : (readTyped threeSchemas Schema.moduleDecoder ⟨"src/in.json"⟩).run =
      .ok [("A", .number), ("B", .string), ("C", .string)] := by
    refine readTyped_eq_ok_iff.mpr ⟨_, rfl, ?_⟩
    cbv
  have hlist : (Table.names [("C", "deC"), ("A", "deA")]).Nodup := by decide
  obtain ⟨-, -, hselects⟩ := @loadJob_selects threeSchemas ⟨"src"⟩
    ⟨[("C", "deC"), ("A", "deA")], "in.json", "o.js"⟩ _ hread hlist
  obtain ⟨exports, hrun, hexports, -, -, hreorder⟩ := hselects (by decide)
  -- only `A` and `C` are listed
  obtain ⟨⟨name, schema⟩, others, ⟨hname, rfl⟩, hothers, rfl⟩ :=
    List.forall₂_cons_left_iff.mp hexports
  obtain ⟨⟨name', schema'⟩, others', ⟨hname', rfl⟩, hnone, rfl⟩ :=
    List.forall₂_cons_left_iff.mp hothers
  obtain rfl := List.forall₂_nil_left_iff.mp hnone
  obtain rfl := Option.some.inj hname
  obtain rfl := Option.some.inj hname'
  exact ⟨hlist, hread, hrun, hreorder _ (.swap ..)⟩

end Project

end ValidatorGen
