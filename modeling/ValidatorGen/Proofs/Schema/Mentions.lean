import ValidatorGen.Proofs.Code.Print
import ValidatorGen.Proofs.Schema.Legality
import ValidatorGen.Proofs.Schema.Pieces

/-!
# The pieces of a validator's code and their owners

`Mentions` collects the pieces of a schema's code and of all refinements that the code relies on.
Each of them is owned by some schema within the given one (`exists_owner`): it is there because of
that schema itself.  Conversely, what a schema within needs by itself is mentioned
(`mentions_of_mem_imports`, `mentions_of_mem_hoists`).

The code of a variant only stands in the refinement of its sum.  That is why `Mentions` has to look
at the refinements of sums at every depth, and why the step from a part to the whole
(`mentions_of_mem_parts`) treats sums apart.
-/

namespace ValidatorGen.Schema

open Code

/-- A piece stands in the code of a schema or in a refinement that the code relies on. -/
def Mentions (schema : Schema) (piece : Piece) : Prop :=
  piece ∈ schema.code.pieces ∨ ∃ type discriminant discriminantType variants,
    Within (.sum type discriminant discriminantType variants) schema ∧
      piece ∈ (refinementOf type discriminant discriminantType variants).pieces

/-- A piece is in the code of a schema because of that schema itself, not because of its parts. -/
def Owns (schema : Schema) : Piece → Prop
  | .name name => name ∈ scaffoldNames ∨ name ∈ schema.ownNames ∨
    (∃ checker ∈ schema.ownCheckers, checker.name = name) ∨
      ∃ hoist ∈ schema.ownHoists, hoist.key = name
  | .type type => type = .named "Error" ∨ type ∈ schema.ownTypes
  | _ => True

theorem scaffolded_owner (schema : Schema) :
    Scaffolded fun piece => ∃ inner, Within inner schema ∧ inner.Owns piece where
  keyword _ := ⟨schema, .self schema, trivial⟩
  mark _ := ⟨schema, .self schema, trivial⟩
  text _ := ⟨schema, .self schema, trivial⟩
  json _ := ⟨schema, .self schema, trivial⟩
  name _ hname := ⟨schema, .self schema, Or.inl hname⟩
  errorType := ⟨schema, .self schema, Or.inl rfl⟩

theorem exists_owner_of_mem_code (schema : Schema) :
    ∀ piece ∈ schema.code.pieces, ∃ inner, Within inner schema ∧ inner.Owns piece := by
  induction schema using induct_parts with
  | h schema ih =>
      refine forall_mem_code (scaffolded_owner schema) ?_ ?_ ?_ ?_ ?_
      · exact fun type htype => ⟨schema, .self schema, Or.inr htype⟩
      · exact fun name hname => ⟨schema, .self schema, Or.inr (Or.inl hname)⟩
      · intro checker hchecker
        exact ⟨schema, .self schema, Or.inr (Or.inr (Or.inl ⟨checker, hchecker, rfl⟩))⟩
      · intro hoist hhoist
        exact ⟨schema, .self schema, Or.inr (Or.inr (Or.inr ⟨hoist, hhoist, rfl⟩))⟩
      · intro part hpart piece hpiece
        obtain ⟨inner, hinner, howns⟩ := ih part hpart piece hpiece
        exact ⟨inner, .part hpart hinner, howns⟩

theorem exists_owner_of_mem_refinement {type discriminantType : FlowType} {discriminant : String}
    {variants : List (String × Schema)} :
    ∀ piece ∈ (refinementOf type discriminant discriminantType variants).pieces,
      ∃ inner, Within inner (.sum type discriminant discriminantType variants) ∧
        inner.Owns piece := by
  have hself := Within.self (.sum type discriminant discriminantType variants)
  refine forall_mem_refinementOf (scaffolded_owner _) ?_ ?_ ?_ ?_ ?_ ?_
  · exact ⟨_, hself, Or.inr List.mem_cons_self⟩
  · exact ⟨_, hself, Or.inr (List.mem_cons_of_mem _ List.mem_cons_self)⟩
  · exact ⟨_, hself, Or.inr (Or.inl List.mem_cons_self)⟩
  · exact ⟨_, hself, Or.inr (Or.inr (Or.inr ⟨_, List.mem_cons_self, rfl⟩))⟩
  · exact ⟨_, hself, Or.inr (Or.inr (Or.inl ⟨_, List.mem_cons_self, rfl⟩))⟩
  · intro variant hvariant piece hpiece
    obtain ⟨inner, hinner, howns⟩ := exists_owner_of_mem_code variant.2 piece hpiece
    exact ⟨inner, .part (List.mem_map_of_mem hvariant) hinner, howns⟩

/-- Whatever is mentioned is owned by some schema. -/
theorem exists_owner {schema : Schema} {piece : Piece} (h : schema.Mentions piece) :
    ∃ inner, Within inner schema ∧ inner.Owns piece := by
  rcases h with hcode | ⟨type, discriminant, discriminantType, variants, hsum, hpiece⟩
  · exact exists_owner_of_mem_code schema piece hcode
  · obtain ⟨inner, hinner, howns⟩ := exists_owner_of_mem_refinement piece hpiece
    exact ⟨inner, hinner.trans hsum, howns⟩

theorem mentions_of_mem_parts {part whole : Schema} {piece : Piece} (hpart : part ∈ whole.parts)
    (h : part.Mentions piece) : whole.Mentions piece := by
  rcases h with hcode | ⟨type, discriminant, discriminantType, variants, hsum, hpiece⟩
  · cases whole with
    | object type fields optional =>
        obtain ⟨field, hfield, rfl⟩ := List.mem_map.mp hpart
        exact Or.inl (mem_objectCode hfield fun _ _ => mem_fieldCode (Or.inr (Or.inl hcode)))
    | list element =>
        obtain rfl := List.mem_singleton.mp hpart
        exact Or.inl (by simp [code, bound, hcode])
    | mapping key value =>
        simp only [parts, List.mem_cons, List.not_mem_nil, or_false] at hpart
        rcases hpart with rfl | rfl
        · exact Or.inl (by simp [code, bound, hcode])
        · exact Or.inl (by simp [code, bound, hcode])
    | sum type discriminant discriminantType variants =>
        obtain ⟨variant, hvariant, rfl⟩ := List.mem_map.mp hpart
        exact Or.inr ⟨type, discriminant, discriminantType, variants, .self _,
          mem_refinementOf (Or.inr ⟨variant, hvariant, hcode⟩)⟩
    | _ => simp [parts] at hpart
  · exact Or.inr ⟨type, discriminant, discriminantType, variants, .part hpart hsum, hpiece⟩

theorem mentions_of_within {inner whole : Schema} {piece : Piece} (hinner : Within inner whole)
    (h : inner.Mentions piece) : whole.Mentions piece := by
  induction hinner with
  | self => exact h
  | part hpart _ ih => exact mentions_of_mem_parts hpart ih

theorem mentions_of_mem_ownCheckers {schema : Schema} {checker : Checker}
    (h : checker ∈ schema.ownCheckers) : schema.Mentions (.name checker.name) := by
  cases schema with
  | object type fields optional =>
      obtain ⟨field, hfield, rfl⟩ := List.mem_map.mp h
      exact Or.inl (mem_objectCode hfield fun _ _ => mem_fieldCode (Or.inl rfl))
  | sum type discriminant discriminantType variants =>
      obtain rfl := List.mem_singleton.mp h
      exact Or.inr ⟨type, discriminant, discriminantType, variants, .self _,
        mem_refinementOf (Or.inl rfl)⟩
  | constant type value => simp [ownCheckers] at h
  | _ =>
      obtain rfl := List.mem_singleton.mp h
      exact Or.inl (by simp [code, enumerationCode, bound])

theorem mentions_of_mem_ownHoists {schema : Schema} {hoist : Hoist} (h : hoist ∈ schema.ownHoists) :
    schema.Mentions (.name hoist.key) := by
  cases schema with
  | sum type discriminant discriminantType variants =>
      obtain rfl := List.mem_singleton.mp h
      exact Or.inl (by simp [code, hoistOf])
  | _ => simp [ownHoists] at h

theorem mentions_of_mem_imports {schema : Schema} {checker : Checker}
    (h : checker ∈ schema.needs.imports) : schema.Mentions (.name checker.name) := by
  obtain ⟨inner, hinner, hown⟩ := (mem_iff_within mem_imports_needs_iff schema checker).mp h
  exact mentions_of_within hinner (mentions_of_mem_ownCheckers hown)

theorem mentions_of_mem_hoists {schema : Schema} {hoist : Hoist}
    (h : hoist ∈ schema.needs.hoists) : schema.Mentions (.name hoist.key) := by
  obtain ⟨inner, hinner, hown⟩ := (mem_iff_within mem_hoists_needs_iff schema hoist).mp h
  exact mentions_of_within hinner (mentions_of_mem_ownHoists hown)

end ValidatorGen.Schema
