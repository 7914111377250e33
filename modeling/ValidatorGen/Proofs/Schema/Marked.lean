import ValidatorGen.Proofs.Schema.SelfContained
import ValidatorGen.Proofs.Schema.Uses

/-!
# Marks on custom validators

The code of a schema uses a name either for something of its own, such as a parameter or the
constant of a field, or for a custom validator that the schema mentions.  The text does not tell the
two apart if the names are the same.  So the custom validators of a schema are marked: a marked name
is no identifier, hence nothing else in the code bears it, and wherever it is used the custom
validator is meant.  Marks change nothing else: without them the code of a marked schema is the code
of the schema (`code_marked`, `refinementOf_marked`), so both use the same names in the same scopes
(`uses_code_eq_map`, `uses_refinementOf_eq_map`).
-/

namespace ValidatorGen.Schema

open Code

/-! ## Marks -/

/-- A name with a mark, which is no identifier. -/
def mark (name : String) : String := "@" ++ name

/-- A name without its mark. -/
def unmark (name : String) : String :=
  match name.toList with
  | '@' :: rest => String.ofList rest
  | _ => name

mutual

/-- A schema whose custom validators are marked. -/
def marked : Schema → Schema
  | .object type fields optional => .object type (markedNamed fields) (markedNamed optional)
  | .list element => .list element.marked
  | .mapping key value => .mapping key.marked value.marked
  | .sum type discriminant discriminantType variants =>
    .sum type discriminant discriminantType (markedNamed variants)
  | .custom name types => .custom (mark name) types
  | schema => schema

def markedNamed : List (String × Schema) → List (String × Schema)
  | [] => []
  | (name, schema) :: entries => (name, schema.marked) :: markedNamed entries

end

theorem toList_mark (name : String) : (mark name).toList = '@' :: name.toList :=
  String.toList_append

theorem unmark_mark (name : String) : unmark (mark name) = name := by
  rw [unmark, toList_mark]
  exact String.ofList_toList

theorem mark_injective {name other : String} (h : mark name = mark other) : name = other := by
  rw [← unmark_mark name, h, unmark_mark]

theorem isIdentifier_mark (name : String) : isIdentifier (mark name) = false := by
  rw [isIdentifier, toList_mark]
  rfl

/-- What is an identifier bears no mark. -/
theorem ne_mark_of_isIdentifier {name other : String} (h : isIdentifier name = true) :
    name ≠ mark other := by
  rintro rfl
  rw [isIdentifier_mark] at h
  cases h

theorem unmark_of_isIdentifier {name : String} (h : isIdentifier name = true) :
    unmark name = name := by
  unfold unmark
  split
  · next rest hname =>
      have hmark : name = mark (String.ofList rest) := by
        rw [← String.toList_inj, toList_mark, String.toList_ofList, hname]
      exact absurd hmark (ne_mark_of_isIdentifier h)
  · rfl

theorem markedNamed_eq_map (entries : List (String × Schema)) :
    markedNamed entries = entries.map fun entry => (entry.1, entry.2.marked) := by
  induction entries with
  | nil => rfl
  | cons entry entries ih => rw [markedNamed, ih, List.map_cons]

theorem map_fst_markedNamed (entries : List (String × Schema)) :
    (markedNamed entries).map Prod.fst = entries.map Prod.fst := by
  rw [markedNamed_eq_map, List.map_map]
  rfl

theorem ownGlobals_marked (schema : Schema) : schema.marked.ownGlobals = schema.ownGlobals := by
  cases schema with
  | object type fields optional =>
      cases optional with
      | nil => rfl
      | cons field optional => rfl
  | _ => rfl

theorem ownFields_marked (schema : Schema) : schema.marked.ownFields = schema.ownFields := by
  cases schema with
  | object type fields optional =>
      rw [marked, ownFields, ownFields, List.map_append, List.map_append, map_fst_markedNamed,
        map_fst_markedNamed]
  | _ => rfl

theorem map_key_ownHoists_marked (schema : Schema) :
    schema.marked.ownHoists.map Hoist.key = schema.ownHoists.map Hoist.key := by
  cases schema <;> simp only [marked, ownHoists, List.map_cons, List.map_nil, hoistOf]

theorem parts_marked (schema : Schema) : schema.marked.parts = schema.parts.map marked := by
  cases schema with
  | object type fields optional =>
      simp [marked, parts, markedNamed_eq_map, Function.comp_def]
  | sum type discriminant discriminantType variants =>
      simp [marked, parts, markedNamed_eq_map, Function.comp_def]
  | _ => rfl

theorem scopedFields_markedNamed (scope : List String) (fields : List (String × Schema)) :
    scopedFields scope (markedNamed fields) =
      (scopedFields scope fields).map fun part => (part.1, part.2.marked) := by
  induction fields generalizing scope with
  | nil => rfl
  | cons field fields ih => rw [markedNamed, scopedFields, ih, scopedFields, List.map_cons]

theorem scopedParts_marked (schema : Schema) :
    schema.marked.scopedParts = schema.scopedParts.map fun part => (part.1, part.2.marked) := by
  cases schema with
  | object type fields optional =>
      rw [marked, scopedParts, scopedParts, ← scopedFields_markedNamed, markedNamed_eq_map,
        markedNamed_eq_map, markedNamed_eq_map, List.map_append]
  | _ => rfl

/-! ## The code without its marks -/

theorem unmark_eq_self : ∀ name ∈ commonNames ++ globalNames, unmark name = name := by
  intro name hname
  have hidentifiers : ∀ name ∈ commonNames ++ globalNames, isIdentifier name = true := by decide
  exact unmark_of_isIdentifier (hidentifiers name hname)

theorem rename_constantCode (type : String) (value : Json) :
    (constantCode type value).rename unmark = constantCode type value := by
  simp (disch := decide) [constantCode, hasType, failWith, naming, shown, unmark_eq_self]

theorem rename_isOneOf (values : List String) :
    (isOneOf "either" values).rename unmark = isOneOf "either" values := by
  induction values with
  | nil => rfl
  | cons value values ih =>
      cases values with
      | nil => simp (disch := decide) [isOneOf, unmark_eq_self]
      | cons next values => simp (disch := decide) [isOneOf, unmark_eq_self, ih]

theorem rename_enumerationCode (type : FlowType) (values : List String) :
    (enumerationCode type values).rename unmark = enumerationCode type values := by
  simp (disch := decide) [enumerationCode, isError, failWith, naming, shown, messageOf,
    rename_isOneOf, unmark_eq_self]

theorem renameBody_buildRecord (type : FlowType) {names : List String}
    (hnames : ∀ name ∈ names, unmark name = name) :
    renameBody unmark (buildRecord type names) = buildRecord type names := by
  simp (disch := decide) [buildRecord, unmark_eq_self, List.map_congr_left hnames]

theorem renameBody_fieldCode {name : String} (hname : unmark name = name) (isOptional : Bool)
    (validator : Expr) (others : List Stmt) :
    renameBody unmark (fieldCode name isOptional validator others) =
      fieldCode name isOptional (validator.rename unmark) (renameBody unmark others) := by
  cases isOptional <;>
  simp (disch := decide) [fieldCode, isAbsent, isError, failWith, messageOf, unmark_eq_self, hname]

theorem renameBody_fieldsCode (isOptional : Bool) {fields : List (String × Schema)}
    (hfields : ∀ field ∈ fields, unmark field.1 = field.1 ∧
      field.2.marked.code.rename unmark = field.2.code) (last : List Stmt) :
    renameBody unmark (fieldsCode isOptional (markedNamed fields) last) =
      fieldsCode isOptional fields (renameBody unmark last) := by
  induction fields with
  | nil => rfl
  | cons field fields ih =>
      rw [List.forall_mem_cons] at hfields
      obtain ⟨⟨hname, hcode⟩, hothers⟩ := hfields
      rw [markedNamed, fieldsCode, renameBody_fieldCode hname, hcode, ih hothers, fieldsCode]

theorem rename_objectCode (type : FlowType) (members : List Stmt) :
    (objectCode type members).rename unmark = objectCode type (renameBody unmark members) := by
  simp (disch := decide) [objectCode, hasType, isError, failWith, naming, shown, unmark_eq_self]

/-- Without its marks the code of a marked schema is the code of the schema. -/
theorem code_marked {schema : Schema} (hlegal : schema.check = .ok ()) :
    schema.marked.code.rename unmark = schema.code := by
  induction schema using induct_parts with
  | h schema ih =>
      obtain ⟨hlawful, hparts⟩ := check_eq_ok_iff.mp hlegal
      have hcodes : ∀ part ∈ schema.parts, part.marked.code.rename unmark = part.code :=
        fun part hpart => ih part hpart (hparts part hpart)
      cases schema with
      | constant type value => exact rename_constantCode type value
      | enumeration type values => exact rename_enumerationCode type values
      | object type fields optional =>
          have hall : ∀ field ∈ fields ++ optional, unmark field.1 = field.1 ∧
              field.2.marked.code.rename unmark = field.2.code := by
            intro field hfield
            have hname := isIdentifier_of_isBindable (hlawful.1 field hfield)
            exact ⟨unmark_of_isIdentifier hname, hcodes field.2 (List.mem_map_of_mem hfield)⟩
          -- the record at the end names every field once more
          have hnames : ∀ name ∈ fields.map Prod.fst ++ optional.map Prod.fst,
              unmark name = name := by
            rw [← List.map_append]
            exact List.forall_mem_map.mpr fun field hfield => (hall field hfield).1
          obtain ⟨hfields, hoptional⟩ := List.forall_mem_append.mp hall
          rw [marked, code, rename_objectCode, renameBody_fieldsCode false hfields,
            renameBody_fieldsCode true hoptional, map_fst_markedNamed, map_fst_markedNamed,
            renameBody_buildRecord type hnames, code]
      | sum type discriminant discriminantType variants =>
          exact congrArg Expr.read
            (unmark_of_isIdentifier (isIdentifier_refinementName hlawful.1))
      -- only here was there a mark to take off
      | custom name types => exact congrArg Expr.read (unmark_mark name)
      | list element =>
          have helement := hcodes element List.mem_cons_self
          simp (disch := decide) [marked, code, Schema.bound, unmark_eq_self, helement]
      | mapping key value =>
          have hkey := hcodes key List.mem_cons_self
          have hvalue := hcodes value (List.mem_cons_of_mem _ List.mem_cons_self)
          simp (disch := decide) [marked, code, Schema.bound, unmark_eq_self, hkey, hvalue]
      | _ => exact congrArg Expr.read (unmark_eq_self _ (by decide))

/-- The same for the refinement of a sum. -/
theorem refinementOf_marked {type discriminantType : FlowType} {discriminant : String}
    {variants : List (String × Schema)}
    (hlegal : (Schema.sum type discriminant discriminantType variants).check = .ok ()) :
    (refinementOf type discriminant discriminantType (markedNamed variants)).rename unmark =
      refinementOf type discriminant discriminantType variants := by
  have hcodes : ∀ variant ∈ variants, variant.2.marked.code.rename unmark = variant.2.code :=
    fun variant hvariant =>
      code_marked ((check_eq_ok_iff.mp hlegal).2 variant.2 (List.mem_map_of_mem hvariant))
  -- the keys of the variants are no uses, only the code behind them is renamed
  have hcases : renameBody unmark (casesCode (markedNamed variants)) = casesCode variants := by
    clear hlegal
    induction variants with
    | nil => rfl
    | cons variant variants ih =>
        rw [List.forall_mem_cons] at hcodes
        have hothers := ih hcodes.2
        simp (disch := decide) [markedNamed, casesCode, unmark_eq_self, hcodes.1] at hothers ⊢
        exact hothers
  rw [refinementOf, refinementOf, map_fst_markedNamed]
  simp (disch := decide) [refinement, Declaration.rename, hasDiscriminant, hasType, isError,
    failWith, messageOf, renameBody_append, rename_enumerationCode, unmark_eq_self, hcases]

/-- The code of a schema has the uses of the marked code, without the marks. -/
theorem uses_code_eq_map {schema : Schema} (hlegal : schema.check = .ok ())
    (bound : List String) :
    schema.code.uses bound = (schema.marked.code.uses bound).map (Use.rename unmark) := by
  rw [← Expr.uses_rename, code_marked hlegal]

theorem uses_refinementOf_eq_map {type discriminantType : FlowType} {discriminant : String}
    {variants : List (String × Schema)}
    (hlegal : (Schema.sum type discriminant discriminantType variants).check = .ok ()) :
    (refinementOf type discriminant discriminantType variants).uses =
      (refinementOf type discriminant discriminantType (markedNamed variants)).uses.map
        (Use.rename unmark) := by
  rw [← Declaration.uses_rename, refinementOf_marked hlegal]

end ValidatorGen.Schema
