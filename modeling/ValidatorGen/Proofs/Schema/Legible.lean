import ValidatorGen.Proofs.Schema.Frames
import ValidatorGen.Proofs.Schema.SelfContained
import ValidatorGen.Proofs.Schema.Skeleton

/-!
# What the text of a declaration tells about its sum

The declarations of a module are put together by their texts: two refinements of one name that have
the same text stand once.  That is right because the text tells everything that matters:
`text_hoistOf_eq_iff` says that two sums have declarations of one text exactly if their types, their
discriminants and the skeletons of their variants are the same.

This takes legal schemas whose types bear identifiers and whose custom validators bear names of
their own (`Unambiguous`).  A custom validator called like a standard checker or like a refinement
has the same code as what it is called like.

## Strategy

The first tokens of a validator's code tell its kind (`kindOf_tokens`).  So two schemas whose code
begins the same tokens are of one kind, and the frames of that kind tell the rest (`tellable`), by
induction on the schema.
-/

namespace ValidatorGen.Schema

open Code

/-! ## Legible schemas -/

/-- What a schema itself keeps to so that its code can be told from other code. -/
structure Distinctive (schema : Schema) : Prop where
  lawful : schema.Lawful
  types : ∀ type ∈ schema.ownTypes, type.Readable
  custom : ∀ name types, schema = .custom name types →
    name ∉ Checker.standard.map Checker.name ∧ ¬"Refine".toList <:+ name.toList

/-- Everything within a schema is distinctive. -/
def Legible (schema : Schema) : Prop := ∀ inner, Within inner schema → inner.Distinctive

theorem Legible.own {schema : Schema} (h : schema.Legible) : schema.Distinctive :=
  h schema (.self schema)

theorem Legible.part {schema part : Schema} (h : schema.Legible) (hpart : part ∈ schema.parts) :
    part.Legible := fun inner hinner => h inner (.part hpart hinner)

/-! ## Kinds of code -/

/-- The kind of a schema as its code shows it. -/
def codeKind : Schema → Kind
  | .bool => .bool
  | .number => .number
  | .string => .string
  | .filePath => .string
  | .constant _ _ => .constant
  | .enumeration _ _ => .enumeration
  | .object _ _ _ => .object
  | .list _ => .list
  | .mapping _ _ => .mapping
  | .sum _ _ _ _ => .sum
  | .custom _ _ => .custom

/-- The kind of code that begins with the name of a function. -/
def kindOfName (name : String) : Kind :=
  if name = Checker.bool.name then .bool
  else if name = Checker.number.name then .number
  else if name = Checker.string.name then .string
  else if name = Checker.list.name then .list
  else if name = Checker.mapping.name then .mapping
  else if "Refine".toList <:+ name.toList then .sum
  else .custom

/-- The kind of code that is a function itself, by the name of its parameter. -/
def kindOfParameter (name : String) : Kind :=
  if name = "x" then .constant else if name = "v" then .enumeration else .object

/-- The kind of code by its first tokens. -/
def kindOf : List Token → Kind
  | .mark _ :: .word parameter :: _ => kindOfParameter (String.ofList parameter)
  | .word name :: _ => kindOfName (String.ofList name)
  | _ => .custom

variable {rest others : List Token}

theorem kindOf_read {name : String} (h : isIdentifier name = true) :
    kindOf (tokensOf (Expr.read name).pieces ++ rest) = kindOfName name := by
  rw [Expr.pieces, tokensOf_cons, Piece.tokens, lex_of_isIdentifier h]
  exact congrArg kindOfName String.ofList_toList

theorem kindOf_function {parameter : String} (h : isIdentifier parameter = true)
    (result : Option FlowType) (body : List Stmt) :
    kindOf (tokensOf (Expr.function parameter result body).pieces ++ rest) =
      kindOfParameter parameter := by
  simp only [Expr.pieces, functionPieces, blockPieces, List.nil_append, List.cons_append,
    tokensOf_cons, Piece.tokens, lex_of_isIdentifier h, kindOf]
  exact congrArg kindOfParameter String.ofList_toList

theorem kindOf_bound {checker : Checker} (h : isIdentifier checker.name = true)
    (validators : List Expr) :
    kindOf (tokensOf (bound checker validators).pieces ++ rest) = kindOfName checker.name := by
  simp only [bound, Expr.pieces, List.cons_append, List.nil_append, tokensOf_cons, Piece.tokens,
    lex_of_isIdentifier h, kindOf]
  exact congrArg kindOfName String.ofList_toList

theorem kindOfName_refinementName (type : FlowType) : kindOfName (refinementName type) = .sum := by
  have hapart := refinementName_notMem type
  have hsuffix : "Refine".toList <:+ (refinementName type).toList := by
    rw [refinementName, String.toList_append]
    exact List.suffix_append _ _
  have hne (checker : Checker) (hchecker : checker ∈ Checker.standard) :
      refinementName type ≠ checker.name :=
    fun heq => hapart (heq ▸ List.mem_map_of_mem hchecker)
  rw [kindOfName, if_neg (hne .bool (by decide)), if_neg (hne .number (by decide)),
    if_neg (hne .string (by decide)), if_neg (hne .list (by decide)),
    if_neg (hne .mapping (by decide)), if_pos hsuffix]

theorem kindOfName_custom {name : String} (hapart : name ∉ Checker.standard.map Checker.name)
    (hsuffix : ¬"Refine".toList <:+ name.toList) : kindOfName name = .custom := by
  have hne (checker : Checker) (hchecker : checker ∈ Checker.standard) : name ≠ checker.name :=
    fun heq => hapart (heq ▸ List.mem_map_of_mem hchecker)
  rw [kindOfName, if_neg (hne .bool (by decide)), if_neg (hne .number (by decide)),
    if_neg (hne .string (by decide)), if_neg (hne .list (by decide)),
    if_neg (hne .mapping (by decide)), if_neg hsuffix]

/-- The first tokens of a schema's code tell its kind. -/
theorem kindOf_tokens {schema : Schema} (h : schema.Distinctive) :
    kindOf (tokensOf schema.code.pieces ++ rest) = schema.codeKind := by
  cases schema with
  | bool => exact kindOf_read (by decide)
  | number => exact kindOf_read (by decide)
  | string => exact kindOf_read (by decide)
  | filePath => exact kindOf_read (by decide)
  | constant type value => exact kindOf_function (by decide) _ _
  | enumeration type values => exact kindOf_function (by decide) _ _
  | object type fields optional => exact kindOf_function (by decide) _ _
  | list element => exact kindOf_bound (by decide) _
  | mapping key value => exact kindOf_bound (by decide) _
  -- the two kinds that are read by a name are told apart by its ending
  | sum type discriminant discriminantType variants =>
      calc kindOf (tokensOf (Expr.read (refinementName type)).pieces ++ rest)
          = kindOfName (refinementName type) :=
            kindOf_read (isIdentifier_refinementName h.lawful.1)
        _ = .sum := kindOfName_refinementName type
  | custom name types =>
      obtain ⟨hapart, hsuffix⟩ := h.custom name types rfl
      calc kindOf (tokensOf (Expr.read name).pieces ++ rest)
          = kindOfName name := kindOf_read h.lawful
        _ = .custom := kindOfName_custom hapart hsuffix

/-! ## Fields -/

/-- Whether tokens go on with an optional field or with a required one, if they do with a field. -/
def fieldKind? : List Token → Option Bool
  | .word _ :: .word _ :: .mark '=' :: .mark _ :: _ => some true
  | .word _ :: .word _ :: .mark '=' :: .word _ :: _ => some false
  | _ => none

theorem fieldKind?_fieldCode {name : String} (h : isIdentifier name = true) (isOptional : Bool)
    (validator : Expr) (body : List Stmt) :
    fieldKind? (tokensOf (bodyPieces (fieldCode name isOptional validator body)) ++ rest) =
      some isOptional := by
  have hfield : isIdentifier Checker.field.name = true := by decide
  cases isOptional
  all_goals
    simp only [fieldCode, isAbsent, Stmt.pieces, bodyPieces, annotationPieces, Expr.pieces,
      List.cons_append, List.nil_append, tokensOf_cons, Piece.tokens, lex_of_isIdentifier h,
      lex_of_isIdentifier hfield, Bool.false_eq_true, if_true, if_false, fieldKind?]

theorem fieldKind?_buildRecord (type : FlowType) (names : List String) :
    fieldKind? (tokensOf (bodyPieces (buildRecord type names)) ++ rest) = none := by
  have hresult : isIdentifier "result" = true := by decide
  simp only [buildRecord, Stmt.pieces, bodyPieces, blockPieces, List.cons_append, List.nil_append,
    tokensOf_cons, Piece.tokens, lex_of_isIdentifier hresult]
  rfl

/-- Statements do not begin with a field of a kind. -/
def EndsFields (isOptional : Bool) (last : List Stmt) : Prop :=
  ∀ rest, fieldKind? (tokensOf (bodyPieces last) ++ rest) ≠ some isOptional

theorem endsFields_buildRecord (isOptional : Bool) (type : FlowType) (names : List String) :
    EndsFields isOptional (buildRecord type names) := by
  intro rest
  rw [fieldKind?_buildRecord]
  simp

/-- A required field does not follow an optional one. -/
theorem endsFields_fieldsCode {fields : List (String × Schema)} {last : List Stmt}
    (hfields : ∀ field ∈ fields, isIdentifier field.1 = true) (hlast : EndsFields false last) :
    EndsFields false (fieldsCode true fields last) := by
  cases fields with
  | nil => exact hlast
  | cons field fields =>
      intro rest
      rw [fieldsCode, fieldKind?_fieldCode (hfields field List.mem_cons_self)]
      simp

/-- The code of a schema tells its skeleton. -/
def Tellable (schema : Schema) : Prop :=
  schema.Legible → ∀ other : Schema, other.Legible →
    Tells (schema.skeleton = other.skeleton) schema.code other.code

/-- Fields of a kind tell their skeletons if they stand before statements that begin with no field
of that kind. -/
theorem tellsBody_fieldsCode {isOptional : Bool} {fields given : List (String × Schema)}
    {last final : List Stmt} {P : Prop} (ih : ∀ field ∈ fields, field.2.Tellable)
    (hfields : ∀ field ∈ fields, isIdentifier field.1 = true ∧ field.2.Legible)
    (hgiven : ∀ field ∈ given, isIdentifier field.1 = true ∧ field.2.Legible)
    (hlast : TellsBody P last final) (hends : EndsFields isOptional last)
    (hends' : EndsFields isOptional final) :
    TellsBody (skeletons fields = skeletons given ∧ P) (fieldsCode isOptional fields last)
      (fieldsCode isOptional given final) := by
  induction fields generalizing given with
  | nil =>
      intro rest others h
      cases given with
      | nil =>
          obtain ⟨hP, hrest⟩ := hlast _ _ h
          exact ⟨⟨rfl, hP⟩, hrest⟩
      | cons other given =>
          apply absurd _ (hends rest)
          rw [fieldsCode, fieldsCode] at h
          rw [h, fieldKind?_fieldCode (hgiven other List.mem_cons_self).1]
  | cons field fields ihfields =>
      intro rest others h
      rw [List.forall_mem_cons] at ih hfields
      cases given with
      | nil =>
          apply absurd _ (hends' others)
          rw [fieldsCode, fieldsCode] at h
          rw [← h, fieldKind?_fieldCode hfields.1.1]
      | cons other given =>
          rw [List.forall_mem_cons] at hgiven
          obtain ⟨hname, hskeleton, htail⟩ := fieldCode_append_inj isOptional hfields.1.1
            hgiven.1.1 (ih.1 hfields.1.2 other.2 hgiven.1.2) h
          -- the other fields stand in the branch in which this one is right
          obtain ⟨⟨hskeletons, hP⟩, hrest⟩ := ihfields ih.2 hfields.2 hgiven.2 _ _ htail
          rw [skeletons, skeletons, hname, hskeleton, hskeletons]
          exact ⟨⟨rfl, hP⟩, (List.cons.inj hrest).2⟩

/-! ## Schemas -/

theorem codeKind_eq {schema other : Schema} (h : schema.Legible) (hother : other.Legible)
    (heq : tokensOf schema.code.pieces ++ rest = tokensOf other.code.pieces ++ others) :
    schema.codeKind = other.codeKind := by
  rw [← kindOf_tokens h.own, heq, kindOf_tokens hother.own]

theorem Legible.field {type : FlowType} {fields optional : List (String × Schema)}
    (h : (Schema.object type fields optional).Legible) :
    ∀ field ∈ fields ++ optional, isIdentifier field.1 = true ∧ field.2.Legible :=
  fun field hfield => ⟨isIdentifier_of_isBindable (h.own.lawful.1 field hfield),
    h.part (List.mem_map_of_mem hfield)⟩

theorem Legible.fieldNames {type : FlowType} {fields optional : List (String × Schema)}
    (h : (Schema.object type fields optional).Legible) :
    ∀ name ∈ fields.map Prod.fst ++ optional.map Prod.fst, isIdentifier name = true := by
  rw [← List.map_append]
  exact List.forall_mem_map.mpr fun field hfield => (h.field field hfield).1

theorem Legible.readable {type : FlowType} {schema : Schema} (h : schema.Legible)
    (htype : type ∈ schema.ownTypes) : type.Readable := h.own.types type htype

/-- An object tells its required fields, then its optional ones, then its record. -/
theorem tellable_object {type : FlowType} {fields optional : List (String × Schema)}
    (hfields : ∀ field ∈ fields, field.2.Tellable)
    (hoptional : ∀ field ∈ optional, field.2.Tellable) :
    (Schema.object type fields optional).Tellable := by
  intro h other hother rest others heq
  cases other with
  | object type' fields' optional' =>
      have htype : type.Readable := h.readable List.mem_cons_self
      have htype' : type'.Readable := hother.readable List.mem_cons_self
      -- from the inside out: the record, the optional fields before it, the required ones before
      -- these
      obtain ⟨hrequired, hlater⟩ := List.forall_mem_append.mp h.field
      obtain ⟨hrequired', hlater'⟩ := List.forall_mem_append.mp hother.field
      have hrecord := tellsBody_buildRecord htype htype' h.fieldNames hother.fieldNames
      have hoptionals := tellsBody_fieldsCode hoptional hlater hlater' hrecord
        (endsFields_buildRecord true _ _) (endsFields_buildRecord true _ _)
      have hmembers := tellsBody_fieldsCode hfields hrequired hrequired' hoptionals
        (endsFields_fieldsCode (fun field hfield => (hlater field hfield).1)
          (endsFields_buildRecord false _ _))
        (endsFields_fieldsCode (fun field hfield => (hlater' field hfield).1)
          (endsFields_buildRecord false _ _))
      obtain ⟨hplain, htail⟩ := objectCode_append_inj htype htype' heq
      obtain ⟨⟨hskeletons, hskeletons', -⟩, hrest⟩ := hmembers _ _ htail
      rw [skeleton, skeleton, hplain, hskeletons, hskeletons']
      exact ⟨rfl, (List.cons.inj (List.cons.inj hrest).2).2⟩
  | _ => cases codeKind_eq h hother heq

/-- The code of a schema tells its skeleton, and where it ends. -/
theorem tellable (schema : Schema) : schema.Tellable := by
  induction schema with
  | bool =>
      intro h other hother rest others heq
      cases other with
      | bool => exact ⟨rfl, List.append_cancel_left heq⟩
      | _ => cases codeKind_eq h hother heq
  | number =>
      intro h other hother rest others heq
      cases other with
      | number => exact ⟨rfl, List.append_cancel_left heq⟩
      | _ => cases codeKind_eq h hother heq
  | string =>
      intro h other hother rest others heq
      cases other with
      | string => exact ⟨rfl, List.append_cancel_left heq⟩
      | filePath => exact ⟨rfl, List.append_cancel_left heq⟩
      | _ => cases codeKind_eq h hother heq
  | filePath =>
      intro h other hother rest others heq
      cases other with
      | string => exact ⟨rfl, List.append_cancel_left heq⟩
      | filePath => exact ⟨rfl, List.append_cancel_left heq⟩
      | _ => cases codeKind_eq h hother heq
  | constant type value =>
      intro h other hother rest others heq
      cases other with
      | constant given found =>
          obtain ⟨rfl, htext, hrest⟩ := constantCode_append_inj heq
          rw [skeleton, skeleton, htext]
          exact ⟨rfl, hrest⟩
      | _ => cases codeKind_eq h hother heq
  | enumeration type values =>
      intro h other hother rest others heq
      cases other with
      | enumeration given found =>
          obtain ⟨hplain, rfl, hrest⟩ := enumerationCode_append_inj
            (h.readable List.mem_cons_self) (hother.readable List.mem_cons_self) heq
          rw [skeleton, skeleton, hplain]
          exact ⟨rfl, hrest⟩
      | _ => cases codeKind_eq h hother heq
  | object type fields optional hfields hoptional => exact tellable_object hfields hoptional
  | list element ih =>
      intro h other hother rest others heq
      cases other with
      | list found =>
          obtain ⟨helement, hrest⟩ := bound_append_inj (ih (h.part List.mem_cons_self) found
            (hother.part List.mem_cons_self)) heq
          rw [skeleton, skeleton, helement]
          exact ⟨rfl, hrest⟩
      | _ => cases codeKind_eq h hother heq
  | mapping key value ihkey ihvalue =>
      intro h other hother rest others heq
      cases other with
      | mapping given found =>
          have hvalue {key value : Schema} : value ∈ (Schema.mapping key value).parts :=
            List.mem_cons_of_mem _ List.mem_cons_self
          obtain ⟨hkey, hvalue, hrest⟩ := bound_pair_append_inj
            (ihkey (h.part List.mem_cons_self) given (hother.part List.mem_cons_self))
            (ihvalue (h.part hvalue) found (hother.part hvalue)) heq
          rw [skeleton, skeleton, hkey, hvalue]
          exact ⟨rfl, hrest⟩
      | _ => cases codeKind_eq h hother heq
  | sum type discriminant discriminantType variants =>
      intro h other hother rest others heq
      cases other with
      | sum given =>
          -- the code of a sum is the name of its refinement
          obtain ⟨hname, hrest⟩ := lex_append_inj
            (isIdentifier_refinementName h.own.lawful.1)
            (isIdentifier_refinementName hother.own.lawful.1)
            (by simpa [code, Piece.tokens] using heq)
          rw [skeleton, skeleton, hname]
          exact ⟨rfl, hrest⟩
      | _ => cases codeKind_eq h hother heq
  | custom name types =>
      intro h other hother rest others heq
      cases other with
      | custom found others =>
          obtain ⟨hname, hrest⟩ := lex_append_inj h.own.lawful hother.own.lawful
            (by simpa [code, Piece.tokens] using heq)
          rw [skeleton, skeleton, hname]
          exact ⟨rfl, hrest⟩
      | _ => cases codeKind_eq h hother heq

/-! ## Declarations -/

/-- The clauses of a sum tell its variants, up to the clause that stands behind them. -/
theorem casesCode_append_inj {variants given : List (String × Schema)}
    (hvariants : ∀ variant ∈ variants, variant.2.Legible)
    (hgiven : ∀ variant ∈ given, variant.2.Legible)
    (h : tokensOf (bodyPieces (casesCode variants)) ++ .word Keyword.fallback.text.toList :: rest =
      tokensOf (bodyPieces (casesCode given)) ++ .word Keyword.fallback.text.toList :: others) :
    skeletons variants = skeletons given := by
  induction variants generalizing given with
  | nil =>
      cases given with
      | nil => rfl
      | cons other given => exact absurd (List.cons.inj h).1 (by decide)
  | cons variant variants ih =>
      cases given with
      | nil => exact absurd (List.cons.inj h).1 (by decide)
      | cons other given =>
          rw [List.forall_mem_cons] at hvariants hgiven
          simp only [casesCode, List.map_cons, bodyPieces, tokensOf_append, List.append_assoc] at h
          obtain ⟨hkey, hskeleton, hrest⟩ :=
            case_append_inj (variant.2.tellable hvariants.1 other.2 hgiven.1) h
          rw [skeletons, skeletons, hkey, hskeleton, ih hvariants.2 hgiven.2 hrest]

/-- The names of the custom validators in a schema, at every depth. -/
def customNames (schema : Schema) : List String := schema.gather fun inner =>
  match inner with
  | .custom name _ => [name]
  | _ => []

/-- A legal schema whose types bear identifiers, and whose custom validators bear names of their
own. -/
structure Unambiguous (schema : Schema) : Prop where
  legal : schema.check = .ok ()
  types : ∀ name ∈ schema.typeNames, isIdentifier name = true
  customs : ∀ name ∈ schema.customNames,
    name ∉ Checker.standard.map Checker.name ∧ ¬"Refine".toList <:+ name.toList

theorem Unambiguous.legible {schema : Schema} (h : schema.Unambiguous) : schema.Legible := by
  intro inner hinner
  constructor
  case lawful => exact lawful_of_within hinner h.legal
  case types => exact fun type htype name hname => h.types name (mem_typeNames hinner htype hname)
  case custom =>
    rintro name types rfl
    exact h.customs name ((mem_gather_iff _ schema name).mpr ⟨_, hinner, List.mem_cons_self⟩)

variable {type type' discriminantType discriminantType' : FlowType}
  {discriminant discriminant' : String} {variants variants' : List (String × Schema)}

theorem Unambiguous.lex_text (h : (sum type discriminant discriminantType variants).Unambiguous) :
    lex (hoistOf type discriminant discriminantType variants).text.toList =
      tokensOf (refinementOf type discriminant discriminantType variants).pieces :=
  lex_hoistText (fun _ => plain_of_mentions h.legal h.types) (.self _)

/-- The text of a sum's declaration tells the skeletons of its variants. -/
theorem Unambiguous.told_of_text_eq
    (h : (sum type discriminant discriminantType variants).Unambiguous)
    (h' : (sum type' discriminant' discriminantType' variants').Unambiguous)
    (htext : (hoistOf type discriminant discriminantType variants).text =
      (hoistOf type' discriminant' discriminantType' variants').text) :
    type.plain = type'.plain ∧ discriminant = discriminant' ∧
      discriminantType.plain = discriminantType'.plain ∧
      skeletons variants = skeletons variants' := by
  have hlegible := h.legible
  have hlegible' := h'.legible
  have htokens : tokensOf (refinementOf type discriminant discriminantType variants).pieces =
      tokensOf (refinementOf type' discriminant' discriminantType' variants').pieces := by
    rw [← h.lex_text, ← h'.lex_text, htext]
  have htag : Tells (discriminantType.plain = discriminantType'.plain)
      (enumerationCode discriminantType (variants.map Prod.fst))
      (enumerationCode discriminantType' (variants'.map Prod.fst)) := by
    intro rest others heq
    obtain ⟨hplain, -, hrest⟩ := enumerationCode_append_inj
      (hlegible.readable (List.mem_cons_of_mem _ List.mem_cons_self))
      (hlegible'.readable (List.mem_cons_of_mem _ List.mem_cons_self)) heq
    exact ⟨hplain, hrest⟩
  obtain ⟨hplain, hdiscriminant, hdiscriminantType, rest, others, hcases⟩ :=
    refinement_append_inj (hlegible.readable List.mem_cons_self)
      (hlegible'.readable List.mem_cons_self)
      (isIdentifier_refinementName hlegible.own.lawful.1)
      (isIdentifier_refinementName hlegible'.own.lawful.1) htag htokens
  have hvariants := casesCode_append_inj
    (fun variant hvariant => hlegible.part (List.mem_map_of_mem hvariant))
    (fun variant hvariant => hlegible'.part (List.mem_map_of_mem hvariant)) hcases
  exact ⟨hplain, hdiscriminant, hdiscriminantType, hvariants⟩

/-- Two sums have declarations of one text exactly if they differ in nothing that matters. -/
theorem text_hoistOf_eq_iff (h : (sum type discriminant discriminantType variants).Unambiguous)
    (h' : (sum type' discriminant' discriminantType' variants').Unambiguous) :
    (hoistOf type discriminant discriminantType variants).text =
        (hoistOf type' discriminant' discriminantType' variants').text ↔
      type.plain = type'.plain ∧ discriminant = discriminant' ∧
        discriminantType.plain = discriminantType'.plain ∧
        skeletons variants = skeletons variants' := by
  constructor
  · exact h.told_of_text_eq h'
  · rintro ⟨hplain, rfl, hdiscriminantType, hvariants⟩
    rw [text_hoistOf, text_hoistOf]
    exact print_refinementOf_eq discriminant hplain hdiscriminantType hvariants

/-- The variants of a shape. -/
def shapes : List (String × Schema) :=
  [("circle", .object (.named "Circle") [("label", .string)] [("owner", .custom "deOwner" [])]),
    ("group", .list (.sum (.named "Part") "kind" (.named "Part") []))]

/-- The variants of a shape that say more than the text shows. -/
def annotatedShapes : List (String × Schema) :=
  [("circle", .object (.applied "Circle" []) [("label", .filePath)]
      [("owner", .custom "deOwner" [.named "Owner"])]),
    ("group", .list (.sum (.named "Part") "part" (.named "Part") [("whole", .bool)]))]

/-- Both are declared by the same text, and so they have the same skeletons. -/
theorem text_hoistOf_eq_iff_shapes :
    (sum (.named "Shape") "kind" (.named "Kind") shapes).Unambiguous ∧
      (sum (.applied "Shape" []) "kind" (.named "Kind") annotatedShapes).Unambiguous ∧
      (hoistOf (.named "Shape") "kind" (.named "Kind") shapes).text =
        (hoistOf (.applied "Shape" []) "kind" (.named "Kind") annotatedShapes).text ∧
      skeletons shapes = skeletons annotatedShapes := by
  have hlegal : (sum (.named "Shape") "kind" (.named "Kind") shapes).Unambiguous :=
    ⟨rfl, by decide, by decide⟩
  have hannotated :
      (sum (.applied "Shape" []) "kind" (.named "Kind") annotatedShapes).Unambiguous :=
    ⟨rfl, by decide, by decide⟩
  obtain ⟨-, -, -, hskeletons⟩ := (text_hoistOf_eq_iff hlegal hannotated).mp rfl
  exact ⟨hlegal, hannotated, rfl, hskeletons⟩

end ValidatorGen.Schema
