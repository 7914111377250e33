import ValidatorGen.Proofs.Code.Pieces
import ValidatorGen.Proofs.Schema.Parts

/-!
# The pieces of a validator's code

Which names and types the code of a schema takes over, and from where.  A property of pieces that
holds of everything the code always has (`Scaffolded`), of the names and types of the schema itself
and of the pieces of its parts holds of all pieces of the schema's code (`forall_mem_code`); the
refinement of a sum, which its code only mentions by name, has the pieces of the variants
(`forall_mem_refinement`).  Conversely none of these is left out.
-/

namespace ValidatorGen.Schema

open Code

/-- The names that the code of validators uses whatever it validates. -/
def scaffoldNames : List String := [
  "x", "v", "json", "either", "result", "fieldError", "sentinelValue", "undefined", "Error",
  "String", "JSON", "Object", "message", "prototype", "hasOwnProperty", "call", "stringify", "bind"]

/-- A property of everything that does not come from a schema. -/
structure Scaffolded (holds : Piece → Prop) : Prop where
  keyword (word : Keyword) : holds (.keyword word)
  mark (c : Char) : holds (.mark c)
  text (value : String) : holds (.text value)
  json (value : Json) : holds (.json value)
  name : ∀ name ∈ scaffoldNames, holds (.name name)
  errorType : holds (.type (.named "Error"))

/-- The types that the code of a schema shows by itself. -/
def ownTypes : Schema → List FlowType
  | .enumeration type _ => [type]
  | .object type _ _ => [type]
  | .sum type _ discriminantType _ => [type, discriminantType]
  | _ => []

/-- The names that a schema gives by itself: those of fields and discriminants. -/
def ownNames : Schema → List String
  | .object _ fields optional => (fields ++ optional).map Prod.fst
  | .sum _ discriminant _ _ => [discriminant]
  | _ => []

variable {holds : Piece → Prop}

theorem forall_mem_constantCode (h : Scaffolded holds) (type : String) (value : Json) :
    ∀ piece ∈ (constantCode type value).pieces, holds piece := by
  simp (disch := decide) [constantCode, hasType, failWith, naming, shown, h.keyword, h.mark,
    h.text, h.json, h.name]

theorem forall_mem_isOneOf (h : Scaffolded holds) (values : List String) :
    ∀ piece ∈ (isOneOf "either" values).pieces, holds piece := by
  fun_induction isOneOf "either" values with
  | case1 => simp [h.json]
  | case2 value => simp (disch := decide) [h.mark, h.text, h.name]
  | case3 value values _ ih => simpa (disch := decide) [h.mark, h.text, h.name] using ih

theorem forall_mem_enumerationCode (h : Scaffolded holds) {type : FlowType}
    (htype : holds (.type type)) (hstring : holds (.name Checker.string.name))
    (values : List String) : ∀ piece ∈ (enumerationCode type values).pieces, holds piece := by
  have hcondition := forall_mem_isOneOf h values
  -- the list of pieces is taken apart, and membership in it is left as it stands
  simpa (disch := decide) [-List.mem_append, -List.mem_cons, List.forall_mem_append,
    List.forall_mem_cons, enumerationCode, isError, failWith, naming, shown, messageOf,
    h.keyword, h.mark, h.text, h.name, htype, hstring] using hcondition

theorem forall_mem_buildRecord (h : Scaffolded holds) {type : FlowType}
    (htype : holds (.type type)) {names : List String}
    (hnames : ∀ name ∈ names, holds (.name name)) :
    ∀ piece ∈ bodyPieces (buildRecord type names), holds piece := by
  have hproperties : ∀ piece ∈ names.flatMap fun name => [Piece.name name, .mark ','],
      holds piece := by
    intro piece hpiece
    obtain ⟨name, hname, hpiece⟩ := List.mem_flatMap.mp hpiece
    simp only [List.mem_cons, List.not_mem_nil, or_false] at hpiece
    rcases hpiece with rfl | rfl
    · exact hnames name hname
    · exact h.mark ','
  simpa (disch := decide) only [buildRecord, bodyPieces, Stmt.pieces, Expr.pieces, blockPieces,
    List.forall_mem_append, List.forall_mem_cons, List.append_nil, List.cons_append,
    List.nil_append, h.keyword, h.mark, h.name, htype, true_and, and_true, List.not_mem_nil,
    false_implies, implies_true] using hproperties

theorem forall_mem_fieldCode (h : Scaffolded holds) {name : String} (isOptional : Bool)
    {validator : Expr} {others : List Stmt} (hname : holds (.name name))
    (hfield : holds (.name Checker.field.name))
    (hvalidator : ∀ piece ∈ validator.pieces, holds piece)
    (hothers : ∀ piece ∈ bodyPieces others, holds piece) :
    ∀ piece ∈ bodyPieces (fieldCode name isOptional validator others), holds piece := by
  have hparts := And.intro hvalidator hothers
  cases isOptional <;>
  simpa (disch := decide) [-List.mem_append, -List.mem_cons, List.forall_mem_append,
    List.forall_mem_cons, fieldCode, isAbsent, isError, failWith, messageOf, h.keyword, h.mark,
    h.text, h.json, h.name, h.errorType, hname, hfield] using hparts

theorem forall_mem_fieldsCode (h : Scaffolded holds) (isOptional : Bool)
    {fields : List (String × Schema)} {last : List Stmt}
    (hfields : ∀ field ∈ fields, holds (.name field.1) ∧ holds (.name Checker.field.name) ∧
      ∀ piece ∈ field.2.code.pieces, holds piece)
    (hlast : ∀ piece ∈ bodyPieces last, holds piece) :
    ∀ piece ∈ bodyPieces (fieldsCode isOptional fields last), holds piece := by
  induction fields with
  | nil => exact hlast
  | cons field fields ih =>
      rw [List.forall_mem_cons] at hfields
      obtain ⟨⟨hname, hfield, hvalidator⟩, hothers⟩ := hfields
      exact forall_mem_fieldCode h isOptional hname hfield hvalidator (ih hothers)

theorem forall_mem_objectCode (h : Scaffolded holds) {type : FlowType} (htype : holds (.type type))
    {members : List Stmt} (hmembers : ∀ piece ∈ bodyPieces members, holds piece) :
    ∀ piece ∈ (objectCode type members).pieces, holds piece := by
  simpa (disch := decide) [-List.mem_append, -List.mem_cons, List.forall_mem_append,
    List.forall_mem_cons, objectCode, hasType, isError, failWith, naming, shown, h.keyword,
    h.mark, h.text, h.json, h.name, htype] using hmembers

theorem forall_mem_casesCode (h : Scaffolded holds) {variants : List (String × Schema)}
    (hvariants : ∀ variant ∈ variants, ∀ piece ∈ variant.2.code.pieces, holds piece) :
    ∀ piece ∈ bodyPieces (casesCode variants), holds piece := by
  induction variants with
  | nil => simp [casesCode]
  | cons variant variants ih =>
      rw [List.forall_mem_cons] at hvariants
      have hcases := And.intro hvariants.1 (ih hvariants.2)
      simpa (disch := decide) [-List.mem_append, -List.mem_cons, List.forall_mem_append,
        List.forall_mem_cons, casesCode, h.keyword, h.mark, h.text, h.name] using hcases

theorem bodyPieces_append (body others : List Stmt) :
    bodyPieces (body ++ others) = bodyPieces body ++ bodyPieces others := by
  induction body with
  | nil => rfl
  | cons statement statements ih =>
      rw [List.cons_append, bodyPieces, bodyPieces, ih, List.append_assoc]

theorem forall_mem_refinement (h : Scaffolded holds) {type : FlowType} {discriminant : String}
    {tag : Expr} {cases : List Stmt} (htype : holds (.type type))
    (hdiscriminant : holds (.name discriminant)) (hkey : holds (.name (refinementName type)))
    (htag : ∀ piece ∈ tag.pieces, holds piece) (hcases : ∀ piece ∈ bodyPieces cases, holds piece) :
    ∀ piece ∈ (refinement type discriminant tag cases).pieces, holds piece := by
  have hparts := And.intro htag hcases
  simpa (disch := decide) [-List.mem_append, -List.mem_cons, List.forall_mem_append,
    List.forall_mem_cons, bodyPieces_append, refinement, hasDiscriminant, hasType, isError,
    failWith, messageOf, h.keyword, h.mark, h.text, h.json, h.name, htype, hdiscriminant,
    hkey] using hparts

/-- Whatever the code of a schema consists of, it is part of what all code has, or it comes from the
schema itself, from what it needs, or from one of its parts. -/
theorem forall_mem_code (h : Scaffolded holds) {schema : Schema}
    (htypes : ∀ type ∈ schema.ownTypes, holds (.type type))
    (hnames : ∀ name ∈ schema.ownNames, holds (.name name))
    (hcheckers : ∀ checker ∈ schema.ownCheckers, holds (.name checker.name))
    (hhoists : ∀ hoist ∈ schema.ownHoists, holds (.name hoist.key))
    (hparts : ∀ part ∈ schema.parts, ∀ piece ∈ part.code.pieces, holds piece) :
    ∀ piece ∈ schema.code.pieces, holds piece := by
  cases schema with
  | constant type value => exact forall_mem_constantCode h type value
  | enumeration type values =>
      exact forall_mem_enumerationCode h (htypes type (by simp [ownTypes]))
        (hcheckers .string (by simp [ownCheckers])) values
  | object type fields optional =>
      have htype := htypes type (by simp [ownTypes])
      have hfield : ∀ field ∈ fields ++ optional, holds (.name field.1) ∧
          holds (.name Checker.field.name) ∧ ∀ piece ∈ field.2.code.pieces, holds piece := by
        intro field hfield
        exact ⟨hnames field.1 (List.mem_map_of_mem hfield),
          hcheckers .field (List.mem_map.mpr ⟨field, hfield, rfl⟩),
          hparts field.2 (List.mem_map_of_mem hfield)⟩
      obtain ⟨hfields, hoptional⟩ := List.forall_mem_append.mp hfield
      -- the record at the end names every field once more
      have hrecord := forall_mem_buildRecord h htype
        (List.forall_mem_map.mpr fun field hmem => (hfield field hmem).1)
      rw [List.map_append] at hrecord
      exact forall_mem_objectCode h htype (forall_mem_fieldsCode h false hfields
        (forall_mem_fieldsCode h true hoptional hrecord))
  | sum type discriminant discriminantType variants =>
      have hkey : holds (.name (refinementName type)) :=
        hhoists (hoistOf type discriminant discriminantType variants) List.mem_cons_self
      simpa [code] using hkey
  | custom name types => simpa [code, ownCheckers] using hcheckers
  | list element =>
      simp only [ownCheckers, parts, List.forall_mem_cons] at hcheckers hparts
      have hcall := And.intro hcheckers.1 hparts.1
      simpa (disch := decide) [-List.mem_append, -List.mem_cons, List.forall_mem_append,
        List.forall_mem_cons, code, bound, h.mark, h.json, h.name] using hcall
  | mapping key value =>
      simp only [ownCheckers, parts, List.forall_mem_cons] at hcheckers hparts
      have hcall := And.intro hcheckers.1 (And.intro hparts.1 hparts.2.1)
      simpa (disch := decide) [-List.mem_append, -List.mem_cons, List.forall_mem_append,
        List.forall_mem_cons, code, bound, h.mark, h.json, h.name] using hcall
  | _ => simp_all [code, ownCheckers]

/-- The same for the refinement of a sum, which holds the code of the variants. -/
theorem forall_mem_refinementOf (h : Scaffolded holds) {type discriminantType : FlowType}
    {discriminant : String} {variants : List (String × Schema)} (htype : holds (.type type))
    (hdiscriminantType : holds (.type discriminantType))
    (hdiscriminant : holds (.name discriminant)) (hkey : holds (.name (refinementName type)))
    (hstring : holds (.name Checker.string.name))
    (hvariants : ∀ variant ∈ variants, ∀ piece ∈ variant.2.code.pieces, holds piece) :
    ∀ piece ∈ (refinementOf type discriminant discriminantType variants).pieces, holds piece :=
  forall_mem_refinement h htype hdiscriminant hkey
    (forall_mem_enumerationCode h hdiscriminantType hstring _) (forall_mem_casesCode h hvariants)

/-! ## Nothing is left out -/

theorem mem_fieldCode {piece : Piece} {name : String} {isOptional : Bool} {validator : Expr}
    {others : List Stmt} (h : piece = .name Checker.field.name ∨ piece ∈ validator.pieces ∨
      piece ∈ bodyPieces others) :
    piece ∈ bodyPieces (fieldCode name isOptional validator others) := by
  rcases h with rfl | hvalidator | hothers
  · cases isOptional <;> simp [fieldCode]
  · cases isOptional <;> simp [fieldCode, hvalidator]
  · cases isOptional <;> simp [fieldCode, hothers]

theorem mem_fieldsCode {piece : Piece} {isOptional : Bool} {fields : List (String × Schema)}
    {last : List Stmt} (h : (∃ field ∈ fields, ∀ others,
      piece ∈ bodyPieces (fieldCode field.1 isOptional field.2.code others)) ∨
        piece ∈ bodyPieces last) :
    piece ∈ bodyPieces (fieldsCode isOptional fields last) := by
  induction fields with
  | nil => simpa [fieldsCode] using h
  | cons field fields ih =>
      rcases h with ⟨found, hfound, hpiece⟩ | hlast
      · rcases List.mem_cons.mp hfound with rfl | hfound
        · exact hpiece _
        · exact mem_fieldCode (Or.inr (Or.inr (ih (Or.inl ⟨found, hfound, hpiece⟩))))
      · exact mem_fieldCode (Or.inr (Or.inr (ih (Or.inr hlast))))

/-- What the check of a field consists of stands in the code of the object. -/
theorem mem_objectCode {piece : Piece} {type : FlowType} {fields optional : List (String × Schema)}
    {field : String × Schema} (hfield : field ∈ fields ++ optional)
    (h : ∀ isOptional others,
      piece ∈ bodyPieces (fieldCode field.1 isOptional field.2.code others)) :
    piece ∈ (Schema.object type fields optional).code.pieces := by
  have hmembers : piece ∈ bodyPieces (fieldsCode false fields (fieldsCode true optional
      (buildRecord type (fields.map Prod.fst ++ optional.map Prod.fst)))) := by
    rcases List.mem_append.mp hfield with hfield | hfield
    · exact mem_fieldsCode (Or.inl ⟨field, hfield, h false⟩)
    · exact mem_fieldsCode (Or.inr (mem_fieldsCode (Or.inl ⟨field, hfield, h true⟩)))
  simp [code, objectCode, hmembers]

theorem mem_bodyPieces {piece : Piece} {statement : Stmt} {body : List Stmt}
    (hstatement : statement ∈ body) (h : piece ∈ statement.pieces) : piece ∈ bodyPieces body := by
  induction body with
  | nil => exact absurd hstatement List.not_mem_nil
  | cons first body ih =>
      rw [bodyPieces, List.mem_append]
      rcases List.mem_cons.mp hstatement with rfl | hstatement
      · exact Or.inl h
      · exact Or.inr (ih hstatement)

theorem mem_refinementOf {piece : Piece} {type discriminantType : FlowType} {discriminant : String}
    {variants : List (String × Schema)} (h : piece = .name Checker.string.name ∨
      ∃ variant ∈ variants, piece ∈ variant.2.code.pieces) :
    piece ∈ (refinementOf type discriminant discriminantType variants).pieces := by
  rcases h with rfl | ⟨variant, hvariant, hpiece⟩
  · simp [refinementOf, refinement, enumerationCode]
  · have hcase : piece ∈ bodyPieces (casesCode variants) :=
      mem_bodyPieces (List.mem_map_of_mem hvariant) (by simp [hpiece])
    simp [refinementOf, refinement, bodyPieces_append, hcase]

end ValidatorGen.Schema
