import ValidatorGen.Proofs.Module.Bindings
import ValidatorGen.Proofs.Schema.Literals
import ValidatorGen.Proofs.Schema.SelfContained

/-!
# Texts stay within their literals

A module takes over texts that may be anything: enumerated values, keys of variants, names of fields
and discriminants, types in messages, and specifiers.  `quote_selfDelimiting` says that none of them
gets out of its literal.  The literal reads back as the text and ends where it is written to end,
there is nothing in it that ends a line or the literal, and different texts have different literals.
Code around a literal is read as if the literal were not there.  And wherever a module takes over
such a text, it stands in the text of the module as that literal; it is one of the tokens if no type
has a name with a quote in it.
-/

namespace ValidatorGen

namespace Module

open Code Schema

variable {base : Path} {preamble : String} {locations : Locations} {job : Job} {module : Module}
  {text : String}

/-- The texts that a module writes as literals in single quotes. -/
def literals (module : Module) : List String :=
  module.exports.flatMap (fun entry => entry.2.literals) ++
    (module.imports ++ module.typeImports).map Import.specifier

/-- No name of a type that a module takes over holds a quote. -/
structure PlainTypes (module : Module) : Prop where
  printed : ∀ entry ∈ module.exports, ∀ name ∈ entry.2.typeNames, Plain name
  imported : ∀ line ∈ module.typeImports, ∀ name ∈ line.names, Plain name

/-- A text stands in a part of a module as a literal. -/
structure Shows (module : Module) (part text : String) : Prop where
  isInfix : (quote text).toList <:+: part.toList
  token : module.PlainTypes → .ofText text ∈ lex part.toList

/-! ## Code -/

theorem plain_of_mentions_of_plainTypes (hplain : module.PlainTypes) {entry : String × Schema}
    (hentry : entry ∈ module.exports) (hlegal : entry.2.check = .ok ()) {piece : Piece}
    (h : entry.2.Mentions piece) : piece.Plain :=
  Piece.plain_iff.mpr (forall_names_of_mentions (fun _ => plain_of_isIdentifier) hlegal
    (hplain.printed entry hentry) h)

namespace Built

theorem shows_export (built : Built base preamble locations job module)
    {entry : String × Schema} (hentry : entry ∈ module.exports)
    (h : text ∈ quotedOf entry.2.code.pieces) : module.Shows (exportText entry) text where
  isInfix := by
    unfold exportText
    rw [String.toList_append]
    exact (isInfix_print h).trans (List.suffix_append _ _).isInfix
  token hplain := by
    have hlegal := built.legal entry (built.perm_exports.mem_iff.mp hentry)
    have hname := built.identifiers entry (built.perm_exports.mem_iff.mp hentry)
    have hexport : Leads "export const " [.word "export".toList, .word "const".toList] := by decide
    have hcode := reads_print fun piece hpiece =>
      plain_of_mentions_of_plainTypes hplain hentry hlegal (Or.inl hpiece)
    have hbefore := (plain_of_isIdentifier hname).reads.behind hexport
    have hreads := hbefore.between delimits_equals hcode
    exact hreads.1 ▸ List.mem_append_right _ (ofText_mem_tokensOf h)

theorem shows_hoist (built : Built base preamble locations job module)
    {entry : String × Schema} (hentry : entry ∈ module.exports)
    {type discriminantType : FlowType} {discriminant : String} {variants : List (String × Schema)}
    (hsum : Within (.sum type discriminant discriminantType variants) entry.2)
    (h : text ∈ quotedOf (refinementOf type discriminant discriminantType variants).pieces) :
    hoistOf type discriminant discriminantType variants ∈ module.hoists ∧
      module.Shows (hoistOf type discriminant discriminantType variants).text text := by
  refine ⟨?_, ?_, fun hplain => ?_⟩
  · have hneeded : hoistOf type discriminant discriminantType variants ∈ entry.2.needs.hoists :=
      mem_hoists_iff.mpr ⟨_, _, _, _, hsum, rfl⟩
    rw [mem_of_registerHoists built.hoists, needsOf, Needs.hoists_collect, List.flatMap_map]
    exact List.mem_flatMap.mpr ⟨entry, built.perm_exports.mem_iff.mp hentry, hneeded⟩
  · rw [text_hoistOf]
    exact isInfix_printDeclaration h
  · have hlegal := built.legal entry (built.perm_exports.mem_iff.mp hentry)
    have hreads := reads_printDeclaration fun piece hpiece =>
      plain_of_mentions_of_plainTypes hplain hentry hlegal
        (Or.inr ⟨type, discriminant, discriminantType, variants, hsum, hpiece⟩)
    rw [text_hoistOf, hreads.1]
    exact ofText_mem_tokensOf h

/-- The functions that a module imports have no quotes in their names. -/
theorem plain_of_mem_importedNames (built : Built base preamble locations job module)
    (hplain : module.PlainTypes) {name : String} (h : name ∈ module.importedNames) :
    Plain name := by
  obtain ⟨hneeded, -⟩ := built.mem_importedNames_iff.mp h
  obtain ⟨checker, hchecker, rfl⟩ := List.mem_map.mp hneeded
  rw [needsOf, Needs.imports_collect, List.flatMap_map, List.mem_flatMap] at hchecker
  obtain ⟨entry, hentry, hchecker⟩ := hchecker
  exact plain_of_mentions_of_plainTypes hplain (built.perm_exports.mem_iff.mpr hentry)
    (built.legal entry hentry) (mentions_of_mem_imports hchecker)

end Built

theorem shows_importLine {keyword : String} (hkeyword : Plain keyword) {line : Import}
    (hplain : module.PlainTypes → ∀ name ∈ line.names, Plain name) :
    module.Shows (importLine keyword line) line.specifier where
  isInfix := by
    unfold importLine
    rw [String.toList_append]
    exact (List.suffix_append _ _).isInfix
  token htypes := by
    have hnames := plain_intercalate (by decide : Plain ", ") (hplain htypes)
    have hbefore : Plain (keyword ++ " \x7b " ++ ", ".intercalate line.names ++ " \x7d from ") :=
      ((hkeyword.append (by decide)).append hnames).append (by decide)
    have hline := lex_append_quote_append line.specifier (broken_notMem_lex hbefore) []
    rw [List.append_nil, ← String.toList_append] at hline
    rw [importLine, hline]
    exact List.mem_append_right _ List.mem_cons_self

namespace Built

/-- Whatever a module takes over as a literal stands in one of its blocks. -/
theorem exists_block_shows (built : Built base preamble locations job module)
    (h : text ∈ module.literals) : ∃ block ∈ module.blocks, module.Shows block text := by
  rcases List.mem_append.mp h with hcode | hspecifier
  · -- a literal of the code stands in its export, or in a hoist of it
    obtain ⟨entry, hentry, htext⟩ := List.mem_flatMap.mp hcode
    obtain ⟨piece, hmentions, hquoted⟩ := exists_mentions_of_mem_literals htext
    rcases hmentions with hpiece | ⟨type, discriminant, discriminantType, variants, hsum, hpiece⟩
    · refine ⟨exportText entry, List.mem_append_right _ (List.mem_map_of_mem hentry), ?_⟩
      exact built.shows_export hentry (List.mem_flatMap.mpr ⟨piece, hpiece, hquoted⟩)
    · obtain ⟨hhoist, hshows⟩ :=
        built.shows_hoist hentry hsum (List.mem_flatMap.mpr ⟨piece, hpiece, hquoted⟩)
      exact ⟨_, List.mem_append_left _ (List.mem_append_right _ (List.mem_map_of_mem hhoist)),
        hshows⟩
  · -- a specifier stands in its line, among the lines of the imports
    obtain ⟨line, hline, rfl⟩ := List.mem_map.mp hspecifier
    obtain ⟨keyword, hmem, hshows⟩ : ∃ keyword, importLine keyword line ∈ module.importLines ∧
        module.Shows (importLine keyword line) line.specifier := by
      rcases List.mem_append.mp hline with hline | hline
      · refine ⟨"import", List.mem_append_left _ (List.mem_map_of_mem hline),
          shows_importLine (by decide) fun hplain name hname => ?_⟩
        exact built.plain_of_mem_importedNames hplain (List.mem_flatMap.mpr ⟨line, hline, hname⟩)
      · exact ⟨"import type", List.mem_append_right _ (List.mem_map_of_mem hline),
          shows_importLine (by decide) fun hplain => hplain.imported line hline⟩
    refine ⟨"\n".intercalate module.importLines, ?_, ?_, fun hplain => ?_⟩
    · have hlines : module.importLines.isEmpty = false :=
        List.isEmpty_eq_false_iff.mpr (List.ne_nil_of_mem hmem)
      unfold blocks
      rw [hlines, if_neg Bool.false_ne_true]
      simp
    · exact hshows.isInfix.trans (Text.isInfix_intercalate hmem)
    · exact mem_lex_intercalate separates_newline hmem (hshows.token hplain)

end Built

/-! ## The text of a module -/

/-- No text gets out of its literal, wherever a module takes it over. -/
theorem quote_selfDelimiting (text : String) :
    (∀ rest, literal? ((quote text).toList ++ rest) = some (text, rest)) ∧
    (∀ c ∈ (quote text).toList, IsPrintable c) ∧
    (∃ content, (quote text).toList = '\'' :: (content ++ ['\'']) ∧ ¬Escapes content ∧
      ∀ before after, content = before ++ '\'' :: after → Escapes before) ∧
    (∀ other, quote text = quote other → text = other) ∧
    (∀ before after, .broken ∉ lex before →
      lex (before ++ ((quote text).toList ++ after)) = lex before ++ .ofText text :: lex after) ∧
    ∀ base preamble locations job module, build base preamble locations job = .ok module →
      text ∈ module.literals →
        (∃ before after, module.text.toList = before ++ ((quote text).toList ++ after)) ∧
        (module.PlainTypes → .ofText text ∈ lex module.text.toList) := by
  have hempty : ¬Escapes [] := by decide
  have hcontent := not_escapes_append_flatMap_escape hempty text.toList
  refine ⟨literal?_quote text, isPrintable_of_mem_quote text,
    ⟨_, toList_quote text, hcontent, fun before after h => ?_⟩,
    fun other => quote_inj.mp, fun before after h => lex_append_quote_append text h after, ?_⟩
  · exact escapes_of_flatMap_escape_eq hempty h
  · intro base preamble locations job module hbuild htext
    obtain ⟨block, hblock, hshows⟩ := (build_eq_ok_iff.mp hbuild).exists_block_shows htext
    constructor
    · -- the block stands in the text, and the literal in the block
      have hwithin : (quote text).toList <:+: module.text.toList := by
        unfold Module.text
        rw [String.toList_append]
        exact (hshows.isInfix.trans (Text.isInfix_intercalate hblock)).trans
          (List.prefix_append _ _).isInfix
      obtain ⟨before, after, h⟩ := hwithin
      exact ⟨before, after, by rw [← h, List.append_assoc]⟩
    · intro hplain
      -- blocks end before an empty line, so each is cut into tokens by itself
      have htoken := mem_lex_intercalate separates_emptyLine hblock (hshows.token hplain)
      unfold Module.text
      rw [String.toList_append]
      have hend := separates_newline ("\n\n".intercalate module.blocks).toList []
      rw [List.append_nil] at hend
      rw [hend]
      exact List.mem_append_left _ htoken

/-- An enumeration with quotes, a line feed and backslashes in its values and its type. -/
def hostileEnd : Schema :=
  .enumeration (.applied "End" [.literal "\\'"]) ["'\n", "\\", "\\u0027"]

/-- Where the names are that it needs. -/
def hostileLocations : Locations where
  types := [("End", "./it's.js")]
  imports := [("deString", "./r.js")]

/-- A quote and a line feed stay in the literal of an enumerated value, and a quote in that of a
specifier. -/
theorem quote_selfDelimiting_hostile :
    ∃ module, build ⟨"/p"⟩ "" hostileLocations ⟨⟨"o.js"⟩, [("deEnd", hostileEnd)]⟩ = .ok module ∧
      "'\n" ∈ module.literals ∧ "./it's.js" ∈ module.literals ∧ module.PlainTypes ∧
      .ofText "'\n" ∈ lex module.text.toList ∧ .ofText "./it's.js" ∈ lex module.text.toList := by
  have hlines : (build ⟨"/p"⟩ "" hostileLocations ⟨⟨"o.js"⟩, [("deEnd", hostileEnd)]⟩).toOption.map
      (fun module => (module.imports, module.typeImports)) =
        some ([⟨"./r.js", ["deString"]⟩], [⟨"./it's.js", ["End"]⟩]) := by
    decide +kernel
  obtain ⟨module, hbuild, heq⟩ := exists_eq_ok_of_map_toOption hlines
  obtain ⟨himports, htypeImports⟩ := Prod.mk.inj heq
  have hexports : module.exports = [("deEnd", hostileEnd)] :=
    List.perm_singleton.mp (build_eq_ok_iff.mp hbuild).perm_exports
  have hvalue : "'\n" ∈ module.literals := by
    refine List.mem_append_left _ ?_
    rw [hexports, List.flatMap_singleton]
    exact (mem_gather_iff _ _ _).mpr
      ⟨_, .self _, by simp [hostileEnd, ownLiterals, ownTexts, enumerationLiterals]⟩
  have hspecifier : "./it's.js" ∈ module.literals :=
    List.mem_append_right _ (by simp [htypeImports])
  have hplain : module.PlainTypes := ⟨by rw [hexports]; decide, by rw [htypeImports]; decide⟩
  obtain ⟨-, -, -, -, -, hshows⟩ := quote_selfDelimiting "'\n"
  obtain ⟨-, -, -, -, -, hshows'⟩ := quote_selfDelimiting "./it's.js"
  exact ⟨module, hbuild, hvalue, hspecifier, hplain,
    (hshows _ _ _ _ module hbuild hvalue).2 hplain,
    (hshows' _ _ _ _ module hbuild hspecifier).2 hplain⟩

end Module

end ValidatorGen
