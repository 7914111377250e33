import ValidatorGen.Proofs.Code.Brackets
import ValidatorGen.Proofs.Schema.SelfContained

/-!
# The texts of legal schemas are well formed

The fields, discriminants and validators of a legal schema bear identifiers, so only the names of
types could bring a quote or a bracket into the emitted text from outside.  All else that a schema
gives, which is enumerated texts, constants, the keys of variants and whatever is quoted in
messages, stands in literals.
-/

namespace ValidatorGen.Schema

open Code

variable {schema : Schema}

theorem bracketless_of_isIdentifier {name : String} (h : isIdentifier name = true) :
    Bracketless name := fun c hc =>
  isBracket_eq_false rfl (forall_continues_of_isIdentifier h c hc)

/-- The text of a legal schema's validator is well formed, and so are those of the declarations that
it relies on, as long as the names of its types hold neither quotes nor brackets. -/
theorem wellFormed_of_check (hlegal : schema.check = .ok ())
    (htypes : ∀ name ∈ schema.typeNames, Plain name ∧ Bracketless name) :
    WellFormed schema.render ∧ ∀ hoist ∈ schema.needs.hoists, WellFormed hoist.text := by
  have hplain {piece : Piece} (h : schema.Mentions piece) : piece.Plain :=
    Piece.plain_iff.mpr (forall_names_of_mentions (fun _ => plain_of_isIdentifier) hlegal
      (fun name hname => (htypes name hname).1) h)
  have hbracketless {piece : Piece} (h : schema.Mentions piece) : piece.Bracketless :=
    forall_names_of_mentions (fun _ => bracketless_of_isIdentifier) hlegal
      (fun name hname => (htypes name hname).2) h
  constructor
  · exact wellFormed_print (fun piece hpiece => hplain (Or.inl hpiece))
      (fun piece hpiece => hbracketless (Or.inl hpiece))
  · intro hoist hhoist
    obtain ⟨type, discriminant, discriminantType, variants, hsum, rfl⟩ := mem_hoists_iff.mp hhoist
    have hmentions {piece : Piece}
        (hpiece : piece ∈ (refinementOf type discriminant discriminantType variants).pieces) :
        schema.Mentions piece :=
      Or.inr ⟨type, discriminant, discriminantType, variants, hsum, hpiece⟩
    rw [text_hoistOf]
    exact wellFormed_printDeclaration (fun piece hpiece => hplain (hmentions hpiece))
      (fun piece hpiece => hbracketless (hmentions hpiece))

/-- Texts that would break out of their literals if they were not escaped, in every place that takes
over a text, and a type whose name is no identifier. -/
def hostile : Schema :=
  .sum (.applied "Message" [.literal "]'\n\x7b"]) "kind" (.named "Kind-of message")
    [("it's \"\x7b", .object (.named "Part")
        [("open", .constant "object" (.object [("a\"(\n", .array [.string "\\'])"])]))]
        [("close", .enumeration (.named "Closing") [")", "'\x7d\r", "\\", "]'"])]),
      ("\\", .mapping .string (.list (.custom "deMessage" [])))]

theorem wellFormed_hostile :
    WellFormed hostile.render ∧ ∀ hoist ∈ hostile.needs.hoists, WellFormed hoist.text :=
  wellFormed_of_check rfl (by decide)

end ValidatorGen.Schema
