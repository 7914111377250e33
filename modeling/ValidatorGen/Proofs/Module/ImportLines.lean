import ValidatorGen.Proofs.Code.Quoted
import ValidatorGen.Proofs.Module.Names

/-!
# Import lines and what they say

An import line is a keyword, names between braces, and the literal of a specifier.  `Spells` says so
character by character; the literal is left to `literal?`, which reads literals as the language
does.

`readImport?` reads a line back.  Of the lines of a module it reads those of functions with one
keyword (`readImports_importLines`) and those of types with the other, so the text of a module tells
what the module imports: two modules that differ in their imports alone have different texts
(`imports_eq_of_text_eq`).

Names are read as long as nothing in them looks like the line around them.  Those of functions are
identifiers; those of types may be anything, and are asked to be `Separable`.
-/

namespace ValidatorGen.Module

open Code

variable {keyword text : String} {line : Import} {module moved : Module}

/-! ## Lines -/

/-- A text imports the names of a line, with a literal that reads as its specifier. -/
def Spells (keyword : String) (line : Import) (text : String) : Prop :=
  ∃ literal, literal? literal.toList = some (line.specifier, []) ∧
    text = keyword ++ " \x7b " ++ ", ".intercalate line.names ++ " \x7d from " ++ literal

theorem spells_importLine (keyword : String) (line : Import) :
    Spells keyword line (importLine keyword line) := by
  have hliteral := literal?_quote line.specifier []
  rw [List.append_nil] at hliteral
  exact ⟨quote line.specifier, hliteral, rfl⟩

/-- The names between the braces of a line. -/
def readNames (text : List Char) : List String :=
  (Text.cut ',' (text.filter (· ≠ ' '))).map String.ofList

/-- Reads a line that imports names. -/
def readImport? (keyword : String) (text : String) : Option Import := do
  let inner ← text.toList.dropPrefix? (keyword ++ " \x7b ").toList
  let rest ← (inner.dropWhile (· ≠ '\x7d')).dropPrefix? "\x7d from ".toList
  match literal? rest with
  | some (specifier, []) => some ⟨specifier, readNames (inner.takeWhile (· ≠ '\x7d'))⟩
  | _ => none

/-- A name holds nothing that stands between the names of a line or ends them. -/
def Separable (name : String) : Prop := ∀ c ∈ name.toList, c ∉ [' ', ',', '\x7d', '\n']

theorem separable_of_isIdentifier {name : String} (h : isIdentifier name = true) :
    Separable name := by
  intro c hc hmem
  have hcontinues := forall_continues_of_isIdentifier h c hc
  have hapart : [' ', ',', '\x7d', '\n'].all (!continuesIdentifier ·) = true := by decide
  have hstops := List.all_eq_true.mp hapart c hmem
  rw [hcontinues] at hstops
  cases hstops

/-! ## Reading -/

section Reading

variable {names : List String}

theorem mem_intercalate_names {c : Char} (h : c ∈ (", ".intercalate names).toList) :
    c ∈ [' ', ','] ∨ ∃ name ∈ names, c ∈ name.toList := by
  induction names with
  | nil => cases h
  | cons name names ih =>
      cases names with
      | nil =>
          rw [String.intercalate_singleton] at h
          exact Or.inr ⟨name, List.mem_cons_self, h⟩
      | cons next names =>
          rw [String.intercalate_cons_cons, String.toList_append, String.toList_append,
            List.mem_append, List.mem_append] at h
          rcases h with (hname | hseparator) | hrest
          · exact Or.inr ⟨name, List.mem_cons_self, hname⟩
          · exact Or.inl (List.Perm.mem_iff (List.Perm.swap ' ' ',' []) |>.mp hseparator)
          · rcases ih hrest with hseparator | ⟨other, hother, hc⟩
            · exact Or.inl hseparator
            · exact Or.inr ⟨other, List.mem_cons_of_mem _ hother, hc⟩

/-- Neither a brace nor the end of a line stands between names. -/
theorem notMem_intercalate_names (h : ∀ name ∈ names, Separable name) :
    '\x7d' ∉ (", ".intercalate names).toList ∧ '\n' ∉ (", ".intercalate names).toList := by
  have hapart {c : Char} (hc : c ∈ [' ', ',', '\x7d', '\n']) (hseparator : c ∉ [' ', ',']) :
      c ∉ (", ".intercalate names).toList := by
    intro hmem
    rcases mem_intercalate_names hmem with hmem | ⟨name, hname, hmem⟩
    · exact hseparator hmem
    · exact h name hname c hmem hc
  exact ⟨hapart (by decide) (by decide), hapart (by decide) (by decide)⟩

theorem filter_intercalate_names (h : ∀ name ∈ names, Separable name) :
    (", ".intercalate names).toList.filter (· ≠ ' ') =
      [','].intercalate (names.map String.toList) := by
  have hname (name : String) (hseparable : Separable name) :
      name.toList.filter (· ≠ ' ') = name.toList := by
    refine List.filter_eq_self.mpr fun c hc => decide_eq_true ?_
    rintro rfl
    exact hseparable ' ' hc List.mem_cons_self
  induction names with
  | nil => rfl
  | cons name names ih =>
      rw [List.forall_mem_cons] at h
      cases names with
      | nil => simpa using hname name h.1
      | cons next names =>
          rw [String.intercalate_cons_cons, String.toList_append, String.toList_append,
            List.filter_append, List.filter_append, ih h.2, hname name h.1]
          simp only [List.map_cons, List.intercalate_cons_cons]
          rfl

/-- Separable names come back from what stands between the braces. -/
theorem readNames_intercalate (hne : names ≠ []) (h : ∀ name ∈ names, Separable name) :
    readNames ((", ".intercalate names).toList ++ [' ']) = names := by
  have hparts : ∀ part ∈ names.map String.toList, ',' ∉ part := by
    refine List.forall_mem_map.mpr fun name hname hmem => ?_
    exact h name hname ',' hmem (by decide)
  have hback : (names.map String.toList).map String.ofList = names := by
    rw [List.map_map]
    exact List.map_congr_left (fun name _ => String.ofList_toList) |>.trans (List.map_id names)
  rw [readNames, List.filter_append, filter_intercalate_names h]
  simp only [ne_eq, not_true_eq_false, decide_false, Bool.false_eq_true, not_false_eq_true,
    List.filter_cons_of_neg, List.filter_nil, List.append_nil]
  rw [Text.cut_intercalate (by simpa using hne) hparts, hback]

/-- A line is read as what it spells. -/
theorem readImport?_of_spells (hspells : Spells keyword line text) (hne : line.names ≠ [])
    (h : ∀ name ∈ line.names, Separable name) : readImport? keyword text = some line := by
  obtain ⟨literal, hliteral, rfl⟩ := hspells
  have hstops : ∀ c ∈ (", ".intercalate line.names).toList ++ [' '],
      decide (c ≠ '\x7d') = true := by
    intro c hc
    rw [decide_eq_true_eq]
    rintro rfl
    rcases List.mem_append.mp hc with hmem | hmem
    · exact (notMem_intercalate_names h).1 hmem
    · exact absurd hmem (by decide)
  have htext : (keyword ++ " \x7b " ++ ", ".intercalate line.names ++ " \x7d from " ++
      literal).toList = (keyword ++ " \x7b ").toList ++
        (((", ".intercalate line.names).toList ++ [' ']) ++
          ("\x7d from ".toList ++ literal.toList)) := by
    simp only [String.toList_append, List.append_assoc]
    rfl
  have hprefix := List.dropPrefix?_append_of_beq (((", ".intercalate line.names).toList ++ [' ']) ++
    ("\x7d from ".toList ++ literal.toList)) (beq_self_eq_true (keyword ++ " \x7b ").toList)
  have hbetween := List.dropPrefix?_append_of_beq literal.toList
    (beq_self_eq_true "\x7d from ".toList)
  have hbrace : "\x7d from ".toList = '\x7d' :: " from ".toList := rfl
  rw [readImport?, htext, hprefix]
  simp only [Option.bind_eq_bind, Option.bind_some]
  rw [List.dropWhile_append_of_pos hstops, List.takeWhile_append_of_pos hstops]
  rw [hbrace, List.cons_append, List.dropWhile_cons_of_neg (by decide),
    List.takeWhile_cons_of_neg (by decide), List.append_nil, ← List.cons_append, ← hbrace, hbetween,
    Option.bind_some, hliteral]
  dsimp only
  rw [readNames_intercalate hne h]

example : readImport? "import" "import \x7b deA, deB \x7d from '../it\\'s.js'" =
    some ⟨"../it's.js", ["deA", "deB"]⟩ := by decide +kernel

/-- The keywords keep functions and types apart. -/
theorem readImport?_type_of_spells (h : Spells "import" line text) :
    readImport? "import type" text = none := by
  obtain ⟨literal, -, rfl⟩ := h
  rw [readImport?, String.append_assoc, String.append_assoc, String.toList_append,
    String.toList_append]
  rfl

theorem readImport?_of_spells_type (h : Spells "import type" line text) :
    readImport? "import" text = none := by
  obtain ⟨literal, -, rfl⟩ := h
  rw [readImport?, String.append_assoc, String.append_assoc, String.toList_append,
    String.toList_append]
  rfl

end Reading

/-! ## The lines of a module -/

/-- A line imports some names, and they can be told apart. -/
def Readable (line : Import) : Prop := line.names ≠ [] ∧ ∀ name ∈ line.names, Separable name

theorem filterMap_readImport?_of_forall {lines : List Import} (h : ∀ line ∈ lines, Readable line) :
    (lines.map (importLine keyword)).filterMap (readImport? keyword) = lines := by
  have hread : ∀ line ∈ lines, readImport? keyword (importLine keyword line) = some line :=
    fun line hline =>
      readImport?_of_spells (spells_importLine keyword line) (h line hline).1 (h line hline).2
  rw [List.filterMap_map]
  exact (List.filterMap_congr hread).trans List.filterMap_some

/-- The lines of a module tell which functions it imports. -/
theorem readImports_importLines (h : ∀ line ∈ module.imports, Readable line) :
    module.importLines.filterMap (readImport? "import") = module.imports := by
  have htypes : (module.typeImports.map (importLine "import type")).filterMap
      (readImport? "import") = [] := by
    rw [List.filterMap_map]
    exact List.filterMap_eq_nil_iff.mpr fun line _ =>
      readImport?_of_spells_type (spells_importLine "import type" line)
  rw [importLines, List.filterMap_append, filterMap_readImport?_of_forall h, htypes,
    List.append_nil]

/-- They tell which types it imports, too. -/
theorem readTypeImports_importLines (h : ∀ line ∈ module.typeImports, Readable line) :
    module.importLines.filterMap (readImport? "import type") = module.typeImports := by
  have hfunctions : (module.imports.map (importLine "import")).filterMap
      (readImport? "import type") = [] := by
    rw [List.filterMap_map]
    exact List.filterMap_eq_nil_iff.mpr fun line _ =>
      readImport?_type_of_spells (spells_importLine "import" line)
  rw [importLines, List.filterMap_append, filterMap_readImport?_of_forall h, hfunctions,
    List.nil_append]

theorem newline_notMem_importLine (hkeyword : '\n' ∉ keyword.toList)
    (h : ∀ name ∈ line.names, Separable name) : '\n' ∉ (importLine keyword line).toList := by
  have hquote : '\n' ∉ (quote line.specifier).toList := by
    intro hmem
    exact absurd (isPrintable_of_mem_quote line.specifier _ hmem) (by decide)
  unfold importLine
  simp only [String.toList_append, List.mem_append, not_or]
  exact ⟨⟨⟨⟨hkeyword, by decide⟩, (notMem_intercalate_names h).2⟩, by decide⟩, hquote⟩

theorem newline_notMem_importLines
    (h : ∀ line ∈ module.imports ++ module.typeImports, Readable line) :
    ∀ part ∈ module.importLines.map String.toList, '\n' ∉ part := by
  refine List.forall_mem_map.mpr (List.forall_mem_append.mpr
    ⟨List.forall_mem_map.mpr fun line hline => ?_, List.forall_mem_map.mpr fun line hline => ?_⟩)
  · exact newline_notMem_importLine (by decide) (h line (List.mem_append_left _ hline)).2
  · exact newline_notMem_importLine (by decide) (h line (List.mem_append_right _ hline)).2

theorem cut_importLines (h : ∀ line ∈ module.imports ++ module.typeImports, Readable line)
    (hlines : module.importLines ≠ []) :
    Text.cut '\n' ("\n".intercalate module.importLines).toList =
      module.importLines.map String.toList := by
  rw [String.toList_intercalate]
  exact Text.cut_intercalate (by simpa using hlines) (newline_notMem_importLines h)

/-! ## Texts -/

/-- What the text of a module holds in front of its imports. -/
def opening (module : Module) : String :=
  if Text.allBlank module.preamble then "" else Text.trimEnd module.preamble ++ "\n\n"

/-- What the text of a module holds behind its imports. -/
def closing (module : Module) : String :=
  String.join ((module.hoists.map Hoist.text ++ module.exports.map exportText).map ("\n\n" ++ ·)) ++
    "\n"

/-- Blocks that follow a first one. -/
theorem intercalate_cons_eq (separator first : String) (others : List String) :
    separator.intercalate (first :: others) =
      first ++ String.join (others.map (separator ++ ·)) := by
  induction others generalizing first with
  | nil => simp [String.join]
  | cons second others ih =>
      rw [String.intercalate_cons_cons, ih, List.map_cons, String.join_cons, String.append_assoc,
        String.append_assoc]

theorem text_eq_of_importLines (h : module.importLines ≠ []) :
    module.text = module.opening ++ "\n".intercalate module.importLines ++ module.closing := by
  have hlines : module.importLines.isEmpty = false := List.isEmpty_eq_false_iff.mpr h
  unfold text blocks opening closing
  rw [hlines, if_neg Bool.false_ne_true, List.append_assoc, List.append_assoc,
    List.singleton_append]
  split
  · rw [List.nil_append, intercalate_cons_eq, String.empty_append, String.append_assoc]
  · rw [List.singleton_append, String.intercalate_cons_cons, intercalate_cons_eq]
    simp only [String.append_assoc]

/-- A block more makes a text longer. -/
theorem length_intercalate_lt (separator : String) (before after : List String) {block : String}
    (hblock : 0 < block.length) :
    (separator.intercalate (before ++ after)).length <
      (separator.intercalate (before ++ block :: after)).length := by
  induction before with
  | nil =>
      cases after with
      | nil => simpa using hblock
      | cons next after =>
          rw [List.nil_append, List.nil_append, String.intercalate_cons_cons, String.length_append,
            String.length_append]
          omega
  | cons first before ih =>
      rw [List.cons_append, List.cons_append]
      -- whether a separator follows the first block depends on what stands behind it
      cases hrest : before ++ after with
      | nil =>
          obtain ⟨rfl, rfl⟩ := List.append_eq_nil_iff.mp hrest
          rw [List.nil_append, String.intercalate_singleton, String.intercalate_cons_cons,
            String.intercalate_singleton, String.length_append, String.length_append]
          omega
      | cons next rest =>
          obtain ⟨second, others, hmore⟩ := List.exists_cons_of_ne_nil
            (by simp : before ++ block :: after ≠ [])
          rw [hrest, hmore] at ih
          rw [hmore, String.intercalate_cons_cons, String.intercalate_cons_cons,
            String.length_append, String.length_append]
          rw [String.length_append, String.length_append]
          omega

theorem length_importLines_pos (h : module.importLines ≠ []) :
    0 < ("\n".intercalate module.importLines).length := by
  obtain ⟨first, others, hlines⟩ := List.exists_cons_of_ne_nil h
  have hfirst : 0 < first.length := by
    have hmem : first ∈ module.importLines := hlines ▸ List.mem_cons_self
    have hbrace : 0 < " \x7b ".length := by decide
    rcases List.mem_append.mp hmem with hmem | hmem <;>
      obtain ⟨line, -, rfl⟩ := List.mem_map.mp hmem <;>
      simp only [importLine, String.length_append] <;> omega
  rw [hlines, intercalate_cons_eq, String.length_append]
  omega

theorem length_text_lt (hpreamble : moved.preamble = module.preamble)
    (hhoists : moved.hoists = module.hoists) (hexports : moved.exports = module.exports)
    (hnone : moved.importLines = []) (hlines : module.importLines ≠ []) :
    moved.text.length < module.text.length := by
  have hsome : module.importLines.isEmpty = false := List.isEmpty_eq_false_iff.mpr hlines
  unfold text blocks
  rw [hpreamble, hhoists, hexports, hnone, hsome, List.isEmpty_nil, if_pos rfl,
    if_neg Bool.false_ne_true, List.append_nil, List.append_assoc, List.append_assoc,
    List.append_assoc, String.length_append, String.length_append, List.singleton_append]
  exact Nat.add_lt_add_right (length_intercalate_lt _ _ _ (length_importLines_pos hlines)) _

/-- Modules that differ in their imports alone have different texts. -/
theorem imports_eq_of_text_eq
    (h : ∀ line ∈ module.imports ++ module.typeImports, Readable line)
    (hmoved : ∀ line ∈ moved.imports ++ moved.typeImports, Readable line)
    (hpreamble : moved.preamble = module.preamble) (hhoists : moved.hoists = module.hoists)
    (hexports : moved.exports = module.exports) (htext : moved.text = module.text) :
    moved.imports = module.imports ∧ moved.typeImports = module.typeImports := by
  have hlength := congrArg String.length htext
  have hlines : moved.importLines = module.importLines := by
    by_cases hnone : module.importLines = []
    · -- further lines make a longer text
      by_contra hne
      rw [hnone] at hne
      have hlt := length_text_lt hpreamble.symm hhoists.symm hexports.symm hnone hne
      omega
    · by_cases hmovedNone : moved.importLines = []
      · have hlt := length_text_lt hpreamble hhoists hexports hmovedNone hnone
        omega
      · -- both texts hold their lines between the same beginning and the same end
        have hopening : moved.opening = module.opening := by rw [opening, opening, hpreamble]
        have hclosing : moved.closing = module.closing := by
          rw [closing, closing, hhoists, hexports]
        rw [text_eq_of_importLines hmovedNone, text_eq_of_importLines hnone, hopening, hclosing,
          ← String.toList_inj] at htext
        simp only [String.toList_append, List.append_left_inj, List.append_right_inj] at htext
        have hcut := congrArg (Text.cut '\n') htext
        rw [cut_importLines h hnone, cut_importLines hmoved hmovedNone] at hcut
        exact List.map_inj_right (fun _ _ => String.toList_inj.mp) |>.mp hcut
  rw [List.forall_mem_append] at h hmoved
  rw [← readImports_importLines h.1, ← readImports_importLines hmoved.1,
    ← readTypeImports_importLines h.2, ← readTypeImports_importLines hmoved.2, hlines]
  exact ⟨rfl, rfl⟩

end ValidatorGen.Module
