import ValidatorGen.Proofs.Schema.Mentions

/-!
# What code needs is what its text mentions

The code of a schema is a text, and so are the refinements that it relies on; `needs` is a list that
is folded from the schema without a look at either text.  `selfContained_of_check` says that the two
agree: what is needed is mentioned, and no standard checker is mentioned that is not needed.

## Strategy

The tokens of a text are those of its pieces (`reads_print`), so an identifier of the text stands in
a piece.  Its owner tells where the piece comes from.  The owner's fields, discriminants, types and
custom validators all bear identifiers, since the schema is legal; so a name is one token, and what
remains is to tell the names of standard checkers from all others.
-/

namespace ValidatorGen.Schema

open Code

/-- The identifiers in the text of a schema's validator and in the declarations it relies on. -/
def mentioned (schema : Schema) : List String :=
  identifiers schema.render ++ schema.needs.hoists.flatMap fun hoist => identifiers hoist.text

/-- The names in the types that the code of a schema shows, at every depth. -/
def typeNames (schema : Schema) : List String :=
  schema.gather fun inner => inner.ownTypes.flatMap FlowType.mentions

/-- The discriminants of the sums in a schema, at every depth. -/
def discriminants (schema : Schema) : List String := schema.gather fun inner =>
  match inner with
  | .sum _ discriminant _ _ => [discriminant]
  | _ => []

/-- The needs of a schema fit its text. -/
structure SelfContained (schema : Schema) : Prop where
  /-- A standard checker is mentioned exactly if it is needed. -/
  standard : ∀ checker ∈ Checker.standard,
    (checker.name ∈ schema.mentioned ↔ checker.name ∈ schema.needs.imports.map Checker.name)
  customs : ∀ name types, Within (.custom name types) schema →
    name ∈ schema.needs.imports.map Checker.name
  refinements : ∀ type discriminant discriminantType variants,
    Within (.sum type discriminant discriminantType variants) schema →
      refinementName type ∈ schema.needs.hoists.map Hoist.key
  imports : ∀ checker ∈ schema.needs.imports, checker.name ∈ schema.mentioned
  hoists : ∀ hoist ∈ schema.needs.hoists, hoist.key ∈ schema.mentioned ∧
    ∃ rest, hoist.text = "const " ++ hoist.key ++ " = " ++ rest

/-! ## Names are identifiers -/

theorem isIdentifier_refinementName {type : FlowType}
    (h : isIdentifier (type.baseName?.getD "") = true) :
    isIdentifier (refinementName type) = true := by
  unfold refinementName
  cases hbase : type.baseName? with
  | none =>
      rw [hbase] at h
      exact absurd h (by decide)
  | some base =>
      rw [hbase] at h
      exact isIdentifier_append h (by decide)

theorem isIdentifier_of_isBindable {name : String} (h : isBindable name = true) :
    isIdentifier name = true := by
  rw [isBindable, Bool.and_eq_true, Bool.and_eq_true] at h
  exact h.1.1

theorem isIdentifier_of_owns {schema : Schema} {name : String} (hlawful : schema.Lawful)
    (h : schema.Owns (.name name)) : isIdentifier name = true := by
  have hscaffold : ∀ name ∈ scaffoldNames, isIdentifier name = true := by decide
  have hstandard : ∀ checker ∈ Checker.standard, isIdentifier checker.name = true := by decide
  -- a name of the scaffold, a field or discriminant, a checker, or a refinement
  rcases h with hname | hname | ⟨checker, hchecker, rfl⟩ | ⟨hoist, hhoist, rfl⟩
  · exact hscaffold name hname
  · cases schema with
    | object type fields optional =>
        obtain ⟨field, hfield, rfl⟩ := List.mem_map.mp hname
        exact isIdentifier_of_isBindable (hlawful.1 field hfield)
    | sum type discriminant discriminantType variants =>
        obtain rfl := List.mem_singleton.mp hname
        exact hlawful.2.1
    | _ => simp [ownNames] at hname
  · cases schema with
    | custom name types =>
        obtain rfl := List.mem_singleton.mp hchecker
        rw [Checker.name_ofName]
        exact hlawful
    | constant type value => simp [ownCheckers] at hchecker
    | object type fields optional =>
        obtain ⟨field, hfield, rfl⟩ := List.mem_map.mp hchecker
        decide
    | _ =>
        obtain rfl := List.mem_singleton.mp hchecker
        decide
  · cases schema with
    | sum type discriminant discriminantType variants =>
        obtain rfl := List.mem_singleton.mp hhoist
        exact isIdentifier_refinementName hlawful.1
    | _ => simp [ownHoists] at hhoist

/-! ## From words to pieces -/

theorem plain_of_isIdentifier {name : String} (h : isIdentifier name = true) : Plain name := by
  intro c hc
  have hcontinues := forall_continues_of_isIdentifier h c hc
  rw [isQuote, Bool.or_eq_false_iff, beq_eq_false_iff_ne, beq_eq_false_iff_ne]
  constructor <;>
  · rintro rfl
    exact absurd hcontinues (by decide)

variable {schema : Schema}

theorem mem_typeNames {inner : Schema} {type : FlowType} {name : String}
    (hinner : Within inner schema) (htype : type ∈ inner.ownTypes) (hname : name ∈ type.mentions) :
    name ∈ schema.typeNames :=
  (mem_gather_iff _ schema name).mpr ⟨inner, hinner, List.mem_flatMap.mpr ⟨type, htype, hname⟩⟩

theorem mem_discriminants {type discriminantType : FlowType} {discriminant : String}
    {variants : List (String × Schema)}
    (hsum : Within (.sum type discriminant discriminantType variants) schema) :
    discriminant ∈ schema.discriminants :=
  (mem_gather_iff _ schema discriminant).mpr ⟨_, hsum, List.mem_cons_self⟩

/-- What is true of identifiers and of the names of types is true of all names that are
mentioned. -/
theorem forall_names_of_mentions {good : String → Prop}
    (hidentifier : ∀ name, isIdentifier name = true → good name) (hlegal : schema.check = .ok ())
    (htypes : ∀ name ∈ schema.typeNames, good name) {piece : Piece} (h : schema.Mentions piece) :
    ∀ name ∈ piece.names, good name := by
  obtain ⟨inner, hinner, howns⟩ := exists_owner h
  intro name hname
  cases piece with
  | name given =>
      obtain rfl := List.mem_singleton.mp hname
      exact hidentifier name (isIdentifier_of_owns (lawful_of_within hinner hlegal) howns)
  | type type =>
      rcases howns with rfl | htype
      · obtain rfl := List.mem_singleton.mp hname
        exact hidentifier "Error" (by decide)
      · exact htypes name (mem_typeNames hinner htype hname)
  | _ => cases hname

theorem plain_of_mentions (hlegal : schema.check = .ok ())
    (hidentifiers : ∀ name ∈ schema.typeNames, isIdentifier name = true) {piece : Piece}
    (h : schema.Mentions piece) : piece.Plain := by
  have htypes : ∀ name ∈ schema.typeNames, Plain name := fun name hname =>
    plain_of_isIdentifier (hidentifiers name hname)
  have hnames : ∀ name ∈ piece.names, Plain name :=
    forall_names_of_mentions (fun _ => plain_of_isIdentifier) hlegal htypes h
  exact Piece.plain_iff.mpr hnames

theorem mem_hoists_iff {hoist : Hoist} : hoist ∈ schema.needs.hoists ↔
    ∃ type discriminant discriminantType variants,
      Within (.sum type discriminant discriminantType variants) schema ∧
        hoist = hoistOf type discriminant discriminantType variants := by
  rw [mem_iff_within mem_hoists_needs_iff]
  constructor
  · rintro ⟨inner, hinner, hown⟩
    cases inner with
    | sum type discriminant discriminantType variants =>
        exact ⟨type, discriminant, discriminantType, variants, hinner, List.mem_singleton.mp hown⟩
    | _ => simp [ownHoists] at hown
  · rintro ⟨type, discriminant, discriminantType, variants, hsum, rfl⟩
    exact ⟨_, hsum, List.mem_cons_self⟩

theorem word_mem_tokensOf_iff {pieces : List Piece} {word : List Char} :
    .word word ∈ tokensOf pieces ↔ ∃ piece ∈ pieces, .word word ∈ piece.tokens := List.mem_flatMap

theorem lex_render (hplain : ∀ piece, schema.Mentions piece → piece.Plain) :
    lex schema.render.toList = tokensOf schema.code.pieces := by
  have hreads : Reads schema.code.print (tokensOf schema.code.pieces) :=
    reads_print fun piece hpiece => hplain piece (Or.inl hpiece)
  exact hreads.1

theorem lex_hoistText (hplain : ∀ piece, schema.Mentions piece → piece.Plain)
    {type discriminantType : FlowType} {discriminant : String} {variants : List (String × Schema)}
    (hsum : Within (.sum type discriminant discriminantType variants) schema) :
    lex (hoistOf type discriminant discriminantType variants).text.toList =
      tokensOf (refinementOf type discriminant discriminantType variants).pieces := by
  have hpieces : ∀ piece ∈ (refinementOf type discriminant discriminantType variants).pieces,
      piece.Plain := fun piece hpiece =>
    hplain piece (Or.inr ⟨type, discriminant, discriminantType, variants, hsum, hpiece⟩)
  rw [text_hoistOf]
  exact (reads_printDeclaration hpieces).1

/-- What the text mentions are the identifiers in the pieces. -/
theorem mem_mentioned_iff (hplain : ∀ piece, schema.Mentions piece → piece.Plain) {name : String} :
    name ∈ schema.mentioned ↔ isIdentifier name = true ∧
      ∃ piece, schema.Mentions piece ∧ .word name.toList ∈ piece.tokens := by
  have hcode := lex_render hplain
  rw [mentioned, List.mem_append, List.mem_flatMap]
  simp only [mem_identifiers_iff, mem_hoists_iff]
  -- a word stands in the code itself or in the text of a refinement
  constructor
  · rintro (⟨hname, hword⟩ |
      ⟨hoist, ⟨type, discriminant, discriminantType, variants, hsum, rfl⟩, hname, hword⟩)
    · rw [hcode, word_mem_tokensOf_iff] at hword
      obtain ⟨piece, hpiece, hword⟩ := hword
      exact ⟨hname, piece, Or.inl hpiece, hword⟩
    · rw [lex_hoistText hplain hsum, word_mem_tokensOf_iff] at hword
      obtain ⟨piece, hpiece, hword⟩ := hword
      exact ⟨hname, piece, Or.inr ⟨type, discriminant, discriminantType, variants, hsum, hpiece⟩,
        hword⟩
  · rintro ⟨hname, piece, hpiece | ⟨type, discriminant, discriminantType, variants, hsum, hpiece⟩,
      hword⟩
    · rw [hcode, word_mem_tokensOf_iff]
      exact Or.inl ⟨hname, piece, hpiece, hword⟩
    · refine Or.inr ⟨_, ⟨type, discriminant, discriminantType, variants, hsum, rfl⟩, hname, ?_⟩
      rw [lex_hoistText hplain hsum, word_mem_tokensOf_iff]
      exact ⟨piece, hpiece, hword⟩

theorem word_mem_lex_iff {name other : String} (h : isIdentifier other = true) :
    .word name.toList ∈ lex other.toList ↔ name = other := by
  rw [lex_of_isIdentifier h, List.mem_singleton, Token.word.injEq, String.toList_inj]

/-! ## The names of the standard checkers -/

/-- The names of refinements end in a letter in which no name of a standard checker ends. -/
theorem refinementName_notMem (type : FlowType) :
    refinementName type ∉ Checker.standard.map Checker.name := by
  intro hmem
  have hlast : ∀ name ∈ Checker.standard.map Checker.name, name.toList.getLast? ≠ some 'e' := by
    decide
  refine hlast _ hmem ?_
  rw [refinementName, String.toList_append, List.getLast?_append]
  rfl

/-- A standard checker is not mentioned unless it is needed. -/
theorem mem_imports_of_word_mem (hlegal : schema.check = .ok ())
    (hidentifiers : ∀ name ∈ schema.typeNames, isIdentifier name = true)
    (hfree : ∀ name ∈ schema.typeNames ++ schema.discriminants,
      name ∉ Checker.standard.map Checker.name)
    {name : String} (hstandard : name ∈ Checker.standard.map Checker.name) {piece : Piece}
    (h : schema.Mentions piece) (hword : .word name.toList ∈ piece.tokens) :
    name ∈ schema.needs.imports.map Checker.name := by
  obtain ⟨inner, hinner, howns⟩ := exists_owner h
  have hlawful := lawful_of_within hinner hlegal
  cases piece with
  | mark c => simp [Piece.tokens] at hword
  | text value => simp [Piece.tokens] at hword
  -- the word is looked up in every kind of piece, and only a checker of the schema can spell it
  | keyword word =>
      simp only [Piece.tokens, List.mem_singleton, Token.word.injEq, String.toList_inj] at hword
      have hkeyword : word.text ∉ Checker.standard.map Checker.name := by cases word <;> decide
      exact absurd (hword ▸ hstandard) hkeyword
  | json value =>
      have hwords : ∀ name ∈ Checker.standard.map Checker.name,
          name.toList ∉ [['n', 'u', 'l', 'l'], ['t', 'r', 'u', 'e'], ['f', 'a', 'l', 's', 'e']] ∧
            ¬name.toList.all Json.Number.isNumeral = true := by
        decide
      rcases value.isToken_of_mem_tokens _ hword with hnamed | hnumeral
      · exact absurd hnamed (hwords name hstandard).1
      · exact absurd (List.all_eq_true.mpr hnumeral) (hwords name hstandard).2
  | type type =>
      obtain ⟨mention, hmention, hword⟩ := type.exists_mention_of_word_mem hword
      -- a type is `Error` or one that the schema names, and those were left free
      rcases howns with rfl | htype
      · obtain rfl := List.mem_singleton.mp hmention
        obtain rfl := (word_mem_lex_iff (by decide)).mp hword
        exact absurd hstandard (by decide)
      · have hnamed := mem_typeNames hinner htype hmention
        obtain rfl := (word_mem_lex_iff (hidentifiers mention hnamed)).mp hword
        exact absurd hstandard (hfree name (List.mem_append_left _ hnamed))
  | name given =>
      obtain rfl := (word_mem_lex_iff (isIdentifier_of_owns hlawful howns)).mp hword
      -- a name of the scaffold, a field or discriminant, a checker, or a refinement
      rcases howns with hname | hname | ⟨checker, hchecker, rfl⟩ | ⟨hoist, hhoist, rfl⟩
      · have hscaffold : ∀ name ∈ scaffoldNames, name ∉ Checker.standard.map Checker.name := by
          decide
        exact absurd hstandard (hscaffold name hname)
      · cases inner with
        | object type fields optional =>
            obtain ⟨field, hfield, rfl⟩ := List.mem_map.mp hname
            have hbindable : ∀ name ∈ Checker.standard.map Checker.name,
                isBindable name = false := by
              decide
            have hlegalName := hlawful.1 field hfield
            rw [hbindable field.1 hstandard] at hlegalName
            cases hlegalName
        | sum type discriminant discriminantType variants =>
            obtain rfl := List.mem_singleton.mp hname
            exact absurd hstandard (hfree _ (List.mem_append_right _ (mem_discriminants hinner)))
        | _ => simp [ownNames] at hname
      · refine List.mem_map_of_mem ?_
        exact (mem_iff_within mem_imports_needs_iff schema checker).mpr ⟨inner, hinner, hchecker⟩
      · cases inner with
        | sum type discriminant discriminantType variants =>
            obtain rfl := List.mem_singleton.mp hhoist
            exact absurd hstandard (refinementName_notMem type)
        | _ => simp [ownHoists] at hhoist

/-! ## Needs and mentions -/

theorem mentioned_of_owns (hlegal : schema.check = .ok ())
    (hidentifiers : ∀ name ∈ schema.typeNames, isIdentifier name = true) {name : String}
    (h : schema.Mentions (.name name)) : name ∈ schema.mentioned := by
  obtain ⟨inner, hinner, howns⟩ := exists_owner h
  have hname := isIdentifier_of_owns (lawful_of_within hinner hlegal) howns
  rw [mem_mentioned_iff fun piece => plain_of_mentions hlegal hidentifiers]
  exact ⟨hname, .name name, h, (word_mem_lex_iff hname).mpr rfl⟩

theorem newline_notMem_of_isIdentifier {name : String} (h : isIdentifier name = true) :
    '\n' ∉ name.toList := by
  intro hmem
  exact absurd (forall_continues_of_isIdentifier h _ hmem) (by decide)

theorem exists_text_hoistOf (hlegal : schema.check = .ok ())
    (hidentifiers : ∀ name ∈ schema.typeNames, isIdentifier name = true)
    {type discriminantType : FlowType} {discriminant : String} {variants : List (String × Schema)}
    (hsum : Within (.sum type discriminant discriminantType variants) schema) :
    ∃ rest, (hoistOf type discriminant discriminantType variants).text =
      "const " ++ refinementName type ++ " = " ++ rest := by
  have hkey := isIdentifier_refinementName (lawful_of_within hsum hlegal).1
  have htype : ∀ name ∈ type.mentions, '\n' ∉ name.toList := fun name hname =>
    newline_notMem_of_isIdentifier (hidentifiers name (mem_typeNames hsum List.mem_cons_self hname))
  have hparameter : '\n' ∉ "x".toList := by decide
  rw [text_hoistOf]
  exact exists_print_eq (newline_notMem_of_isIdentifier hkey) hparameter htype

/-- The needs of a legal schema fit its text, as long as the names of its types are identifiers and
neither these nor its discriminants are taken from the standard checkers. -/
theorem selfContained_of_check (hlegal : schema.check = .ok ())
    (hidentifiers : ∀ name ∈ schema.typeNames, isIdentifier name = true)
    (hfree : ∀ name ∈ schema.typeNames ++ schema.discriminants,
      name ∉ Checker.standard.map Checker.name) : schema.SelfContained where
  standard checker hchecker := by
    constructor
    · intro hmentioned
      rw [mem_mentioned_iff fun piece => plain_of_mentions hlegal hidentifiers] at hmentioned
      obtain ⟨-, piece, hpiece, hword⟩ := hmentioned
      exact mem_imports_of_word_mem hlegal hidentifiers hfree (List.mem_map_of_mem hchecker)
        hpiece hword
    · intro hneeded
      obtain ⟨needed, hmem, hname⟩ := List.mem_map.mp hneeded
      rw [← hname]
      exact mentioned_of_owns hlegal hidentifiers (mentions_of_mem_imports hmem)
  customs name types hcustom := by
    refine List.mem_map.mpr ⟨.ofName name, ?_, Checker.name_ofName name⟩
    exact (mem_iff_within mem_imports_needs_iff _ _).mpr ⟨_, hcustom, List.mem_cons_self⟩
  refinements type discriminant discriminantType variants hsum := by
    refine List.mem_map.mpr ⟨hoistOf type discriminant discriminantType variants, ?_, rfl⟩
    exact mem_hoists_iff.mpr ⟨type, discriminant, discriminantType, variants, hsum, rfl⟩
  imports checker hchecker :=
    mentioned_of_owns hlegal hidentifiers (mentions_of_mem_imports hchecker)
  hoists hoist hhoist := by
    refine ⟨mentioned_of_owns hlegal hidentifiers (mentions_of_mem_hoists hhoist), ?_⟩
    obtain ⟨type, discriminant, discriminantType, variants, hsum, rfl⟩ := mem_hoists_iff.mp hhoist
    exact exists_text_hoistOf hlegal hidentifiers hsum

/-- A sum whose variants need checkers that the expression of the sum does not mention. -/
def shape : Schema :=
  .sum (.named "Shape") "kind" (.applied "Kind" [.named "Shape", .literal "deBool"])
    [("circle", .object (.named "Circle") [("radius", .number)] [("label", .string)]),
      ("group", .list (.custom "deMember" []))]

theorem selfContained_shape : shape.SelfContained :=
  selfContained_of_check rfl (by decide) (by decide)

end ValidatorGen.Schema
