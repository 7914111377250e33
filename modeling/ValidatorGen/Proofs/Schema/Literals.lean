import ValidatorGen.Proofs.Code.Printed
import ValidatorGen.Proofs.Schema.Mentions

/-!
# The literals in a validator's code

A schema puts texts into its code as literals in single quotes: enumerated values, the keys of
variants, the names of fields and discriminants, messages that quote these or the text of a type,
and the literals within types (`ownLiterals`).  Each of them is written by a piece of the code or of
a refinement that the code relies on, and so is what the schemas within put there
(`exists_mentions_of_mem_literals`).
-/

namespace ValidatorGen.Schema

open Code

/-- What the code of an enumeration writes as literals, apart from its types. -/
def enumerationLiterals (type : FlowType) (values : List String) : List String :=
  values ++ ["\" into enum \"" ++ type.text ++ "\": ",
    "\" into one of the enum values: " ++ ", ".intercalate values]

/-- What a schema by itself writes as literals, apart from its types. -/
def ownTexts : Schema → List String
  | .constant type value => [type, "\" into a " ++ type ++ ".",
      "\" into a " ++ type ++ " with the value " ++ value.text ++ "."]
  | .enumeration type values => enumerationLiterals type values
  | .object _ fields optional => (fields ++ optional).flatMap fun field =>
      [field.1, "Could not deserialize field \"" ++ field.1 ++ "\": "]
  | .sum type discriminant discriminantType variants =>
      discriminant :: ("Sentinel field " ++ discriminant ++ " could not deserialize properly: ") ::
        ("Could not deserialize object into " ++ type.text ++ ": ") ::
          enumerationLiterals discriminantType (variants.map Prod.fst)
  | _ => []

/-- What a schema by itself writes as literals. -/
def ownLiterals (schema : Schema) : List String :=
  schema.ownTexts ++ schema.ownTypes.flatMap FlowType.literals

/-- What a schema and all schemas within write as literals. -/
def literals (schema : Schema) : List String := schema.gather ownLiterals

variable {text : String} {schema : Schema}

theorem quotedOf_isOneOf (name : String) (values : List String) :
    quotedOf (isOneOf name values).pieces = values := by
  fun_induction isOneOf name values with
  | case1 => rfl
  | case2 value => simp [Piece.quoted]
  | case3 value values _ ih => simp [Piece.quoted, ih]

theorem mem_enumerationCode {type : FlowType} {values : List String}
    (h : text ∈ enumerationLiterals type values ++ type.literals) :
    text ∈ quotedOf (enumerationCode type values).pieces := by
  have hcases : text ∈ values ∨ text = "\" into enum \"" ++ type.text ++ "\": " ∨
      text = "\" into one of the enum values: " ++ ", ".intercalate values ∨
      text ∈ type.literals := by
    simpa [enumerationLiterals, or_assoc] using h
  rcases hcases with hvalue | rfl | rfl | htype
  · simp [enumerationCode, quotedOf_isOneOf, hvalue]
  · simp [enumerationCode, failWith, naming, Piece.quoted]
  · simp [enumerationCode, failWith, naming, Piece.quoted]
  · simp [enumerationCode, Piece.quoted, htype]

theorem mem_fieldCode_of_mem {field : String × Schema}
    (h : text ∈ [field.1, "Could not deserialize field \"" ++ field.1 ++ "\": "])
    (isOptional : Bool) (others : List Stmt) :
    .text text ∈ bodyPieces (fieldCode field.1 isOptional field.2.code others) := by
  simp only [List.mem_cons, List.not_mem_nil, or_false] at h
  rcases h with rfl | rfl <;> cases isOptional <;> simp [fieldCode, failWith]

theorem mem_refinementOf_of_mem {type discriminantType : FlowType} {discriminant : String}
    {variants : List (String × Schema)}
    (h : text ∈ (sum type discriminant discriminantType variants).ownLiterals) :
    text ∈ quotedOf (refinementOf type discriminant discriminantType variants).pieces := by
  have hcases : text = discriminant ∨
      text = "Sentinel field " ++ discriminant ++ " could not deserialize properly: " ∨
      text = "Could not deserialize object into " ++ type.text ++ ": " ∨ text ∈ type.literals ∨
      text ∈ enumerationLiterals discriminantType (variants.map Prod.fst) ++
        discriminantType.literals := by
    simp only [ownLiterals, ownTexts, ownTypes, List.mem_append, List.mem_cons, List.flatMap_cons,
      List.flatMap_nil, List.not_mem_nil, or_false] at h
    rw [List.mem_append]
    tauto
  rcases hcases with rfl | rfl | rfl | htype | htag
  · simp [refinementOf, refinement, hasDiscriminant, Piece.quoted]
  · simp [refinementOf, refinement, failWith, Piece.quoted]
  · simp [refinementOf, refinement, failWith, Piece.quoted]
  · simp [refinementOf, refinement, Piece.quoted, htype]
  · simp [refinementOf, refinement, mem_enumerationCode htag]

/-- What a schema writes as a literal is written by a piece of its code or of its refinement. -/
theorem exists_mentions_of_mem_ownLiterals (h : text ∈ schema.ownLiterals) :
    ∃ piece, schema.Mentions piece ∧ text ∈ piece.quoted := by
  have hcode (h : text ∈ quotedOf schema.code.pieces) :
      ∃ piece, schema.Mentions piece ∧ text ∈ piece.quoted := by
    obtain ⟨piece, hpiece, htext⟩ := List.mem_flatMap.mp h
    exact ⟨piece, Or.inl hpiece, htext⟩
  cases schema with
  | constant type value =>
      have hcases : text = type ∨ text = "\" into a " ++ type ++ "." ∨
          text = "\" into a " ++ type ++ " with the value " ++ value.text ++ "." := by
        simpa [ownLiterals, ownTexts, ownTypes] using h
      refine hcode ?_
      rcases hcases with rfl | rfl | rfl
      · simp [code, constantCode, hasType, Piece.quoted]
      · simp [code, constantCode, failWith, naming, Piece.quoted]
      · simp [code, constantCode, failWith, naming, Piece.quoted]
  | enumeration type values =>
      refine hcode (mem_enumerationCode ?_)
      simpa [ownLiterals, ownTexts, ownTypes] using h
  | object type fields optional =>
      -- the messages of a field are shown where it is checked, its type where the object is
      -- returned
      rcases List.mem_append.mp h with htext | htype
      · obtain ⟨field, hfield, htext⟩ := List.mem_flatMap.mp htext
        exact ⟨.text text, Or.inl (mem_objectCode hfield (mem_fieldCode_of_mem htext)),
          List.mem_singleton_self text⟩
      · have hliteral : text ∈ type.literals := by simpa [ownTypes] using htype
        exact hcode (by simp [code, objectCode, Piece.quoted, hliteral])
  | sum type discriminant discriminantType variants =>
      obtain ⟨piece, hpiece, htext⟩ := List.mem_flatMap.mp (mem_refinementOf_of_mem h)
      exact ⟨piece, Or.inr ⟨_, _, _, _, .self _, hpiece⟩, htext⟩
  | _ => simp [ownLiterals, ownTexts, ownTypes] at h

theorem exists_mentions_of_mem_literals (h : text ∈ schema.literals) :
    ∃ piece, schema.Mentions piece ∧ text ∈ piece.quoted := by
  obtain ⟨inner, hinner, hown⟩ := (mem_gather_iff _ schema text).mp h
  obtain ⟨piece, hmentions, htext⟩ := exists_mentions_of_mem_ownLiterals hown
  exact ⟨piece, mentions_of_within hinner hmentions, htext⟩

end ValidatorGen.Schema
