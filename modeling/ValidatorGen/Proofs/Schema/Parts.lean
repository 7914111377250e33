import ValidatorGen.Schema.Needs

/-!
# The parts of a schema

`parts` are the schemas that stand directly in a schema, and `Within` is standing in it at any
depth.  What a fold collects from a schema is what the schemas within it contribute by themselves
(`mem_iff_within`); for the functions and declarations that code needs, these contributions are
`ownCheckers` and `ownHoists`.
-/

namespace ValidatorGen.Schema

/-- The schemas that stand directly in a schema. -/
def parts : Schema → List Schema
  | .object _ fields optional => (fields ++ optional).map Prod.snd
  | .list element => [element]
  | .mapping key value => [key, value]
  | .sum _ _ _ variants => variants.map Prod.snd
  | _ => []

/-- What holds of a schema whenever it holds of its parts holds of all schemas. -/
theorem induct_parts {motive : Schema → Prop}
    (h : ∀ schema, (∀ part ∈ schema.parts, motive part) → motive schema) (schema : Schema) :
    motive schema := by
  have hnamed {entries : List (String × Schema)} (hall : ∀ entry ∈ entries, motive entry.2) :
      ∀ part ∈ entries.map Prod.snd, motive part := List.forall_mem_map.mpr hall
  induction schema with
  | object type fields optional ihfields ihoptional =>
      exact h _ (hnamed (List.forall_mem_append.mpr ⟨ihfields, ihoptional⟩))
  | list element ih => exact h _ (by simpa [parts] using ih)
  | mapping key value ihkey ihvalue => exact h _ (by simpa [parts] using ⟨ihkey, ihvalue⟩)
  | sum type discriminant discriminantType variants ih => exact h _ (hnamed ih)
  | _ => exact h _ (by simp [parts])

/-- A schema is another one or stands in it at some depth. -/
inductive Within : Schema → Schema → Prop where
  | self (schema : Schema) : Within schema schema
  | part {inner part whole : Schema} : part ∈ whole.parts → Within inner part → Within inner whole

theorem Within.trans {inner middle whole : Schema} (h : Within inner middle)
    (hmiddle : Within middle whole) : Within inner whole := by
  induction hmiddle with
  | self => exact h
  | part hpart _ ih => exact .part hpart ih

theorem within_iff {inner whole : Schema} :
    Within inner whole ↔ inner = whole ∨ ∃ part ∈ whole.parts, Within inner part := by
  constructor
  · rintro (_ | ⟨hpart, hinner⟩)
    · exact Or.inl rfl
    · exact Or.inr ⟨_, hpart, hinner⟩
  · rintro (rfl | ⟨part, hpart, hinner⟩)
    · exact .self _
    · exact .part hpart hinner

/-- A fold that adds something of its own to what it finds in the parts collects just that from
everything within. -/
theorem mem_iff_within {α : Type} {own all : Schema → List α}
    (hall : ∀ schema x, x ∈ all schema ↔ x ∈ own schema ∨ ∃ part ∈ schema.parts, x ∈ all part)
    (schema : Schema) (x : α) : x ∈ all schema ↔ ∃ inner, Within inner schema ∧ x ∈ own inner := by
  induction schema using induct_parts with
  | h schema ih =>
      rw [hall]
      constructor
      · rintro (hown | ⟨part, hpart, hx⟩)
        · exact ⟨schema, .self schema, hown⟩
        · obtain ⟨inner, hinner, hown⟩ := (ih part hpart).mp hx
          exact ⟨inner, .part hpart hinner, hown⟩
      · rintro ⟨inner, hinner, hown⟩
        rcases within_iff.mp hinner with rfl | ⟨part, hpart, hinner⟩
        · exact Or.inl hown
        · exact Or.inr ⟨part, hpart, (ih part hpart).mpr ⟨inner, hinner, hown⟩⟩

mutual

/-- What a schema and everything within it contribute by themselves. -/
def gather {α : Type} (own : Schema → List α) : Schema → List α
  | .object type fields optional =>
    own (.object type fields optional) ++ (gatherNamed own fields ++ gatherNamed own optional)
  | .list element => own (.list element) ++ gather own element
  | .mapping key value => own (.mapping key value) ++ (gather own key ++ gather own value)
  | .sum type discriminant discriminantType variants =>
    own (.sum type discriminant discriminantType variants) ++ gatherNamed own variants
  | schema => own schema

def gatherNamed {α : Type} (own : Schema → List α) : List (String × Schema) → List α
  | [] => []
  | (_, schema) :: entries => gather own schema ++ gatherNamed own entries

end

theorem mem_gatherNamed_iff {α : Type} {own : Schema → List α} {entries : List (String × Schema)}
    {x : α} : x ∈ gatherNamed own entries ↔ ∃ entry ∈ entries, x ∈ gather own entry.2 := by
  induction entries with
  | nil => simp [gatherNamed]
  | cons entry entries ih => simp [gatherNamed, ih]

theorem mem_gather_iff {α : Type} (own : Schema → List α) (schema : Schema) (x : α) :
    x ∈ gather own schema ↔ ∃ inner, Within inner schema ∧ x ∈ own inner := by
  refine mem_iff_within (fun schema x => ?_) schema x
  cases schema with
  | object type fields optional =>
      simp only [gather, List.mem_append, mem_gatherNamed_iff, parts, List.mem_map]
      grind
  | sum type discriminant discriminantType variants =>
      simp only [gather, List.mem_append, mem_gatherNamed_iff, parts, List.mem_map]
      grind
  | _ => simp [gather, parts]

/-! ## What code needs -/

/-- The functions that the code of a schema calls by itself. -/
def ownCheckers : Schema → List Checker
  | .bool => [.bool]
  | .number => [.number]
  | .string => [.string]
  | .filePath => [.string]
  | .constant _ _ => []
  | .enumeration _ _ => [.string]
  | .object _ fields optional => (fields ++ optional).map fun _ => .field
  | .list _ => [.list]
  | .mapping _ _ => [.mapping]
  | .sum _ _ _ _ => [.string]
  | .custom name _ => [.ofName name]

/-- The declaration that the code of a schema relies on by itself. -/
def ownHoists : Schema → List Hoist
  | .sum type discriminant discriminantType variants =>
    [hoistOf type discriminant discriminantType variants]
  | _ => []

theorem mem_imports_fieldNeeds_iff {checker : Checker} {fields : List (String × Schema)} :
    checker ∈ (fieldNeeds fields).imports ↔
      ∃ field ∈ fields, checker = .field ∨ checker ∈ field.2.needs.imports := by
  induction fields with
  | nil => simp [fieldNeeds]
  | cons field fields ih => simp [fieldNeeds, ih, or_assoc]

theorem mem_hoists_fieldNeeds_iff {hoist : Hoist} {fields : List (String × Schema)} :
    hoist ∈ (fieldNeeds fields).hoists ↔ ∃ field ∈ fields, hoist ∈ field.2.needs.hoists := by
  induction fields with
  | nil => simp [fieldNeeds]
  | cons field fields ih => simp [fieldNeeds, ih]

theorem mem_imports_variantNeeds_iff {checker : Checker} {variants : List (String × Schema)} :
    checker ∈ (variantNeeds variants).imports ↔
      ∃ variant ∈ variants, checker ∈ variant.2.needs.imports := by
  induction variants with
  | nil => simp [variantNeeds]
  | cons variant variants ih => simp [variantNeeds, ih]

theorem mem_hoists_variantNeeds_iff {hoist : Hoist} {variants : List (String × Schema)} :
    hoist ∈ (variantNeeds variants).hoists ↔
      ∃ variant ∈ variants, hoist ∈ variant.2.needs.hoists := by
  induction variants with
  | nil => simp [variantNeeds]
  | cons variant variants ih => simp [variantNeeds, ih]

theorem mem_imports_needs_iff (schema : Schema) (checker : Checker) :
    checker ∈ schema.needs.imports ↔ checker ∈ schema.ownCheckers ∨
      ∃ part ∈ schema.parts, checker ∈ part.needs.imports := by
  cases schema with
  | object type fields optional =>
      simp only [needs, Needs.imports_withTypes, Needs.imports_merge, List.mem_append,
        mem_imports_fieldNeeds_iff, ownCheckers, parts, List.mem_map]
      grind
  | sum type discriminant discriminantType variants =>
      simp only [needs, Needs.imports_withTypes, Needs.imports_merge, List.mem_append,
        mem_imports_variantNeeds_iff, ownCheckers, parts, List.mem_map, enumerationNeeds, textNeeds,
        Needs.imports_empty, Needs.imports_ofHoist, Needs.imports_ofChecker, Needs.imports_ofType]
      grind
  | _ => simp [needs, ownCheckers, parts, textNeeds, enumerationNeeds]

theorem mem_hoists_needs_iff (schema : Schema) (hoist : Hoist) :
    hoist ∈ schema.needs.hoists ↔ hoist ∈ schema.ownHoists ∨
      ∃ part ∈ schema.parts, hoist ∈ part.needs.hoists := by
  cases schema with
  | object type fields optional =>
      simp only [needs, Needs.hoists_withTypes, Needs.hoists_merge, List.mem_append,
        mem_hoists_fieldNeeds_iff, ownHoists, parts, List.mem_map]
      grind
  | sum type discriminant discriminantType variants =>
      simp only [needs, Needs.hoists_withTypes, Needs.hoists_merge, List.mem_append,
        mem_hoists_variantNeeds_iff, ownHoists, parts, List.mem_map, enumerationNeeds, textNeeds,
        Needs.hoists_empty, Needs.hoists_ofHoist, Needs.hoists_ofChecker, Needs.hoists_ofType]
      grind
  | _ => simp [needs, ownHoists, parts, textNeeds, enumerationNeeds]

end ValidatorGen.Schema
