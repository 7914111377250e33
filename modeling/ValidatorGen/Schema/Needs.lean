import ValidatorGen.Code.Printer
import ValidatorGen.Schema.Code

/-!
# What the code of a validator needs

`Schema.needs` folds a schema, in the order of its parts, into everything that its code and the
refinements of its sums mention. The variants of a sum are part of it although they only appear in
the refinement.
-/

namespace ValidatorGen

/-- The types that a type mentions, itself first. -/
def FlowType.types (type : FlowType) : List TypeName := type.mentions.map TypeName.ofName

namespace Schema

/-- The text of a schema's validator. -/
def render (schema : Schema) : String := schema.code.print

/-- The declaration that a sum relies on. -/
def hoistOf (type : FlowType) (discriminant : String) (discriminantType : FlowType)
    (variants : List (String × Schema)) : Hoist where
  key := refinementName type
  text := (refinementOf type discriminant discriminantType variants).print

theorem text_hoistOf (type : FlowType) (discriminant : String) (discriminantType : FlowType)
    (variants : List (String × Schema)) :
    (hoistOf type discriminant discriminantType variants).text =
      (refinementOf type discriminant discriminantType variants).print := by
  simp only [hoistOf]

def textNeeds : Needs := (Needs.ofChecker .string).merge (Needs.ofType .string)

def enumerationNeeds (type : FlowType) : Needs := textNeeds.withTypes type.types

mutual

/-- Everything that the code of a schema needs. -/
def needs : Schema → Needs
  | .bool => .ofChecker .bool
  | .number => .ofChecker .number
  | .string => textNeeds
  | .filePath => textNeeds
  | .constant _ _ => .empty
  | .enumeration type _ => enumerationNeeds type
  | .object type fields optional =>
    ((fieldNeeds fields).merge (fieldNeeds optional)).withTypes type.types
  | .list element => (Needs.ofChecker .list).merge element.needs
  | .mapping key value => ((Needs.ofChecker .mapping).merge key.needs).merge value.needs
  | .sum type discriminant discriminantType variants =>
    let own := (Needs.empty.withTypes type.types).withTypes discriminantType.types
    ((own.merge (.ofHoist (hoistOf type discriminant discriminantType variants))).merge
      (variantNeeds variants)).merge (enumerationNeeds discriminantType)
  | .custom name types =>
    (Needs.ofChecker (.ofName name)).withTypes (types.flatMap FlowType.types)

def fieldNeeds : List (String × Schema) → Needs
  | [] => .empty
  | (_, schema) :: fields =>
    ((Needs.ofChecker .field).merge schema.needs).merge (fieldNeeds fields)

def variantNeeds : List (String × Schema) → Needs
  | [] => .empty
  | (_, schema) :: variants => schema.needs.merge (variantNeeds variants)

end

end Schema

end ValidatorGen
