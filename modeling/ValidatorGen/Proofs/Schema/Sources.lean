import ValidatorGen.Proofs.Schema.Marked
import ValidatorGen.Schema.Scope

/-!
# Why a name is used

`Under` says where the code of a schema stands and what is bound there, by the constructors of
schemas alone.  Every use of a name in marked code has a source, which is a schema that stands
somewhere (`exists_source`).  From it follows where a custom validator is meant and what is bound
there (`uses_mark_iff`), and which global values are used at all (`exists_uses_iff_ownGlobals`).

## Strategy

The code of a part stands in the code of the whole, so a use is traced by induction on the parts;
what is bound grows on the way down.  The variants of a sum are no parts in this sense: their code
stands in the refinement, which is another function of the module.  That is why `Uses` looks at the
refinements of all sums.
-/

namespace ValidatorGen.Schema

open Code

/-! ## Where schemas stand -/

/-- The code of a schema stands in the code for a whole one where some names are bound, the
innermost first.  The code of a variant stands in a refinement, in which nothing else is bound. -/
inductive Under (whole : Schema) : List String → Schema → Prop where
  | whole : Under whole [] whole
  | part {bound : List String} {outer : Schema} {part : List String × Schema} :
      Under whole bound outer → part ∈ outer.scopedParts → Under whole (part.1 ++ bound) part.2
  | variant {bound : List String} {type discriminantType : FlowType} {discriminant : String}
      {variants : List (String × Schema)} {variant : String × Schema} :
      Under whole bound (.sum type discriminant discriminantType variants) →
      variant ∈ variants → Under whole ["sentinelValue", "x"] variant.2

theorem map_snd_scopedFields (scope : List String) (fields : List (String × Schema)) :
    (scopedFields scope fields).map Prod.snd = fields.map Prod.snd := by
  induction fields generalizing scope with
  | nil => rfl
  | cons field fields ih => rw [scopedFields, List.map_cons, ih, List.map_cons]

/-- The parts of a schema that is no sum, each with a scope. -/
theorem map_snd_scopedParts {schema : Schema} (h : schema.ownHoists = []) :
    schema.scopedParts.map Prod.snd = schema.parts := by
  cases schema with
  | object type fields optional => exact map_snd_scopedFields ["json"] (fields ++ optional)
  | sum type discriminant discriminantType variants => cases h
  | _ => rfl

theorem mem_parts_of_mem_scopedParts {schema : Schema} {part : List String × Schema}
    (h : part ∈ schema.scopedParts) : part.2 ∈ schema.parts := by
  have hnoSum : schema.ownHoists = [] := by
    cases schema with
    | sum type discriminant discriminantType variants => cases h
    | _ => rfl
  rw [← map_snd_scopedParts hnoSum]
  exact List.mem_map_of_mem h

theorem Under.within {whole inner : Schema} {bound : List String} (h : Under whole bound inner) :
    Within inner whole := by
  induction h with
  | whole => exact .self whole
  | part _ hpart ih =>
      exact Within.trans (.part (mem_parts_of_mem_scopedParts hpart) (.self _)) ih
  | variant _ hvariant ih => exact Within.trans (.part (List.mem_map_of_mem hvariant) (.self _)) ih

theorem Under.exists_of_mem_parts {whole outer part : Schema} {bound : List String}
    (h : Under whole bound outer) (hpart : part ∈ outer.parts) :
    ∃ bound, Under whole bound part := by
  cases outer with
  | sum type discriminant discriminantType variants =>
      obtain ⟨variant, hvariant, rfl⟩ := List.mem_map.mp hpart
      exact ⟨_, h.variant hvariant⟩
  | _ =>
      rw [← map_snd_scopedParts rfl] at hpart
      obtain ⟨standing, hstanding, rfl⟩ := List.mem_map.mp hpart
      exact ⟨_, h.part hstanding⟩

theorem Under.exists_of_within {whole outer inner : Schema} {bound : List String}
    (h : Under whole bound outer) (hinner : Within inner outer) :
    ∃ bound, Under whole bound inner := by
  induction hinner generalizing bound with
  | self => exact ⟨bound, h⟩
  | part hpart _ ih =>
      obtain ⟨scope, hstands⟩ := h.exists_of_mem_parts hpart
      exact ih hstands

/-- Whatever is within a schema stands somewhere. -/
theorem exists_under_of_within {whole inner : Schema} (h : Within inner whole) :
    ∃ bound, Under whole bound inner :=
  Under.whole.exists_of_within h

/-! ## Uses and their sources -/

/-- The code of a schema, with its custom validators marked, uses a name in a scope, or some
refinement does that the code relies on. -/
def Uses (schema : Schema) (use : Use) : Prop :=
  use ∈ schema.marked.code.uses [] ∨ ∃ type discriminant discriminantType variants,
    Within (.sum type discriminant discriminantType variants) schema ∧
      use ∈ (refinementOf type discriminant discriminantType (markedNamed variants)).uses

/-- A name is used because of a schema itself, not because of its parts. -/
def IsSource (schema : Schema) (bound : List String) (use : Use) : Prop :=
  use.name ∈ commonNames ∨ use.name ∈ schema.ownGlobals ∨ use.name ∈ schema.ownFields ∨
    use.name ∈ schema.ownHoists.map Hoist.key ∨
      ∃ name types, schema = .custom name types ∧ use = ⟨mark name, bound⟩

variable {whole : Schema}

theorem exists_source_of_mem_code {schema : Schema} {bound : List String}
    (h : Under whole bound schema) : ∀ use ∈ schema.marked.code.uses bound,
      ∃ scope source, Under whole scope source ∧ source.IsSource scope use := by
  induction schema using induct_parts generalizing bound with
  | h schema ih =>
      have hown (use : Use) (hsource : schema.IsSource bound use) :
          ∃ scope source, Under whole scope source ∧ source.IsSource scope use :=
        ⟨bound, schema, h, hsource⟩
      refine forall_mem_uses_code ?_ ?_ ?_ ?_ ?_ ?_
      · intro name hname scope
        exact hown _ (Or.inl hname)
      · intro name hname scope
        rw [ownGlobals_marked] at hname
        exact hown _ (Or.inr (Or.inl hname))
      · intro name hname scope
        rw [ownFields_marked] at hname
        exact hown _ (Or.inr (Or.inr (Or.inl hname)))
      · intro hoist hhoist
        have hkey : hoist.key ∈ schema.ownHoists.map Hoist.key := by
          rw [← map_key_ownHoists_marked]
          exact List.mem_map_of_mem hhoist
        exact hown _ (Or.inr (Or.inr (Or.inr (Or.inl hkey))))
      · intro name types hcustom
        cases schema with
        | custom name types =>
            obtain ⟨rfl, -⟩ := Schema.custom.inj hcustom
            exact hown _ (Or.inr (Or.inr (Or.inr (Or.inr ⟨name, types, rfl, rfl⟩))))
        | _ => cases hcustom
      · -- a use in a part has its source there
        intro part hpart use huse
        rw [scopedParts_marked] at hpart
        obtain ⟨original, horiginal, rfl⟩ := List.mem_map.mp hpart
        exact ih original.2 (mem_parts_of_mem_scopedParts horiginal) (h.part horiginal) use huse

theorem exists_source_of_mem_refinement {bound : List String} {type discriminantType : FlowType}
    {discriminant : String} {variants : List (String × Schema)}
    (h : Under whole bound (.sum type discriminant discriminantType variants)) :
    ∀ use ∈ (refinementOf type discriminant discriminantType (markedNamed variants)).uses,
      ∃ scope source, Under whole scope source ∧ source.IsSource scope use := by
  refine forall_mem_uses_refinementOf ?_ type discriminantType discriminant ?_ ?_
  · intro name hname scope
    exact ⟨bound, _, h, Or.inl hname⟩
  · intro name hname scope
    exact ⟨bound, _, h, Or.inr (Or.inl hname)⟩
  · intro variant hvariant use huse
    rw [markedNamed_eq_map] at hvariant
    obtain ⟨original, horiginal, rfl⟩ := List.mem_map.mp hvariant
    exact exists_source_of_mem_code (h.variant horiginal) use huse

/-- Every use has a source. -/
theorem exists_source {use : Use} (h : whole.Uses use) :
    ∃ scope source, Under whole scope source ∧ source.IsSource scope use := by
  rcases h with hcode | ⟨type, discriminant, discriminantType, variants, hsum, hrefinement⟩
  · exact exists_source_of_mem_code .whole use hcode
  · obtain ⟨bound, hunder⟩ := exists_under_of_within hsum
    exact exists_source_of_mem_refinement hunder use hrefinement

/-- What the code of a schema uses where it stands, the whole uses. -/
theorem uses_of_under {inner : Schema} {bound : List String} (h : Under whole bound inner)
    {use : Use} (huse : use ∈ inner.marked.code.uses bound) : whole.Uses use := by
  induction h with
  | whole => exact Or.inl huse
  | @part bound outer part _ hpart ih =>
      -- the use moves out into the code around, in which the scope of the part is no longer bound
      have hmarked : (part.1, part.2.marked) ∈ outer.marked.scopedParts := by
        rw [scopedParts_marked]
        exact List.mem_map_of_mem hpart
      exact ih (mem_uses_code_of_mem_scopedParts hmarked huse)
  | @variant bound type discriminantType discriminant variants variant hunder hvariant _ =>
      have hmarked : (variant.1, variant.2.marked) ∈ markedNamed variants := by
        rw [markedNamed_eq_map]
        exact List.mem_map_of_mem hvariant
      exact Or.inr ⟨type, discriminant, discriminantType, variants, hunder.within,
        mem_uses_refinementOf hmarked huse⟩

/-! ## Custom validators and global values -/

theorem mem_globalNames_of_mem_ownGlobals {schema : Schema} :
    ∀ name ∈ schema.ownGlobals, name ∈ globalNames := by
  cases schema with
  | object type fields optional => cases optional <;> simp [ownGlobals, globalNames]
  | _ => simp [ownGlobals, globalNames]

theorem isBindable_of_mem_ownFields {schema : Schema} (hlawful : schema.Lawful) :
    ∀ name ∈ schema.ownFields, isBindable name = true := by
  cases schema with
  | object type fields optional => exact List.forall_mem_map.mpr hlawful.1
  | _ => simp [ownFields]

theorem exists_type_of_mem_ownHoists {schema : Schema} {hoist : Hoist}
    (h : hoist ∈ schema.ownHoists) : ∃ type, hoist.key = refinementName type := by
  cases schema with
  | sum type discriminant discriminantType variants =>
      obtain rfl := List.mem_singleton.mp h
      exact ⟨type, rfl⟩
  | _ => simp [ownHoists] at h

theorem refinementName_notMem_of_forall {names : List String}
    (h : ∀ name ∈ names, ¬"Refine".toList <:+ name.toList) (type : FlowType) :
    refinementName type ∉ names := by
  intro hmem
  have hsuffix : "Refine".toList <:+ (refinementName type).toList := by
    rw [refinementName, String.toList_append]
    exact List.suffix_append _ _
  exact h _ hmem hsuffix

/-- The other sources of a use bear identifiers. -/
theorem exists_custom_of_isSource {source : Schema} (hlawful : source.Lawful)
    {scope bound : List String} {name : String} (h : source.IsSource scope ⟨mark name, bound⟩) :
    ∃ types, source = .custom name types ∧ scope = bound := by
  have hmark {names : List String} (hnames : ∀ other ∈ names, isIdentifier other = true) :
      mark name ∉ names := fun hmem => ne_mark_of_isIdentifier (hnames _ hmem) rfl
  -- every other source is an identifier, which a marked name is not
  rcases h with hcommon | hglobal | hfield | hhoist | ⟨other, types, rfl, huse⟩
  · exact absurd hcommon (hmark (by decide))
  · have hidentifiers : ∀ name ∈ globalNames, isIdentifier name = true := by decide
    exact absurd (mem_globalNames_of_mem_ownGlobals _ hglobal) (hmark hidentifiers)
  · refine absurd hfield (hmark ?_)
    intro field hfield
    exact isIdentifier_of_isBindable (isBindable_of_mem_ownFields hlawful field hfield)
  · refine absurd hhoist (hmark ?_)
    cases source with
    | sum type discriminant discriminantType variants =>
        intro key hkey
        obtain rfl := List.mem_singleton.mp hkey
        exact isIdentifier_refinementName hlawful.1
    | _ => simp [ownHoists]
  · obtain ⟨hname, rfl⟩ := Use.mk.inj huse
    obtain rfl := mark_injective hname
    exact ⟨types, rfl, rfl⟩

/-- A custom validator is meant exactly where its schema stands, in the same scope. -/
theorem uses_mark_iff (hlegal : whole.check = .ok ()) {name : String} {bound : List String} :
    whole.Uses ⟨mark name, bound⟩ ↔ ∃ types, Under whole bound (.custom name types) := by
  constructor
  · intro huse
    obtain ⟨scope, source, hunder, hsource⟩ := exists_source huse
    have hlawful := lawful_of_within hunder.within hlegal
    obtain ⟨types, rfl, rfl⟩ := exists_custom_of_isSource hlawful hsource
    exact ⟨types, hunder⟩
  · rintro ⟨types, hunder⟩
    exact uses_of_under hunder List.mem_cons_self

/-- No other source of a use bears the name of a global value. -/
theorem mem_ownGlobals_of_isSource {source : Schema} (hlawful : source.Lawful)
    {scope : List String} {use : Use} (hglobal : use.name ∈ globalNames)
    (h : source.IsSource scope use) : use.name ∈ source.ownGlobals := by
  have hother {names : List String} (hnames : ∀ name ∈ globalNames, name ∉ names) :
      use.name ∉ names := hnames _ hglobal
  rcases h with hcommon | hown | hfield | hhoist | ⟨name, types, rfl, rfl⟩
  · exact absurd hcommon (hother (by decide))
  · exact hown
  · have hbindable : ∀ name ∈ globalNames, isBindable name = false := by decide
    have hfieldName := isBindable_of_mem_ownFields hlawful _ hfield
    rw [hbindable _ hglobal] at hfieldName
    cases hfieldName
  · obtain ⟨hoist, hhoist, hkey⟩ := List.mem_map.mp hhoist
    obtain ⟨type, htype⟩ := exists_type_of_mem_ownHoists hhoist
    rw [← hkey, htype] at hglobal
    exact absurd hglobal (refinementName_notMem_of_forall (by decide) type)
  · have hidentifiers : ∀ name ∈ globalNames, isIdentifier name = true := by decide
    exact absurd rfl (ne_mark_of_isIdentifier (hidentifiers _ hglobal))

/-- The global values that are used are those that some schema within uses by itself. -/
theorem exists_uses_iff_ownGlobals (hlegal : whole.check = .ok ()) {name : String}
    (hglobal : name ∈ globalNames) :
    (∃ bound, whole.Uses ⟨name, bound⟩) ↔
      ∃ inner, Within inner whole ∧ name ∈ inner.ownGlobals := by
  constructor
  · rintro ⟨bound, huse⟩
    obtain ⟨scope, source, hunder, hsource⟩ := exists_source huse
    have hlawful := lawful_of_within hunder.within hlegal
    exact ⟨source, hunder.within, mem_ownGlobals_of_isSource hlawful hglobal hsource⟩
  · rintro ⟨inner, hinner, hown⟩
    obtain ⟨bound, hunder⟩ := exists_under_of_within hinner
    rw [← ownGlobals_marked] at hown
    rcases exists_use_of_mem_ownGlobals hown bound with
      ⟨scope, huse⟩ | ⟨type, discriminant, discriminantType, variants, hsum, scope, huse⟩
    · exact ⟨scope, uses_of_under hunder huse⟩
    · cases inner with
      | sum type discriminant discriminantType variants =>
          obtain ⟨rfl, rfl, rfl, rfl⟩ := Schema.sum.inj hsum
          exact ⟨scope, Or.inr ⟨_, _, _, _, hinner, huse⟩⟩
      | _ => cases hsum

/-! ## What is bound -/

theorem mem_fieldNamesOf_iff {name : String} {fields : List (String × Schema)} :
    name ∈ fieldNamesOf fields ↔
      name ∈ fields.map Prod.fst ∨ ∃ field ∈ fields, name ∈ field.2.fieldNames := by
  induction fields with
  | nil => simp [fieldNamesOf]
  | cons field fields ih => grind [fieldNamesOf]

theorem mem_variantFieldNames_iff {name : String} {variants : List (String × Schema)} :
    name ∈ variantFieldNames variants ↔ ∃ variant ∈ variants, name ∈ variant.2.fieldNames := by
  induction variants with
  | nil => simp [variantFieldNames]
  | cons variant variants ih => simp [variantFieldNames, ih]

/-- The names of the fields within a schema. -/
theorem mem_fieldNames_iff {schema : Schema} {name : String} :
    name ∈ schema.fieldNames ↔ ∃ inner, Within inner schema ∧ name ∈ inner.ownFields := by
  refine mem_iff_within (fun schema name => ?_) schema name
  cases schema with
  | object type fields optional =>
      simp only [fieldNames, List.mem_append, mem_fieldNamesOf_iff, ownFields, parts, List.mem_map]
      grind
  | sum type discriminant discriminantType variants =>
      simp only [fieldNames, mem_variantFieldNames_iff, ownFields, parts, List.mem_map]
      grind
  | _ => simp [fieldNames, ownFields, parts]

/-- Marks do not touch the names of fields. -/
theorem mem_fieldNames_of_within_marked {schema inner : Schema} {name : String}
    (h : Within inner schema.marked) (hname : name ∈ inner.ownFields) :
    name ∈ schema.fieldNames := by
  -- everything within a marked schema is marked, so the induction keeps the original beside it
  generalize hmarked : schema.marked = outer at h
  induction h generalizing schema with
  | self =>
      rw [← hmarked, ownFields_marked] at hname
      exact mem_fieldNames_iff.mpr ⟨schema, .self schema, hname⟩
  | part hpart _ ih =>
      rw [← hmarked, parts_marked] at hpart
      obtain ⟨original, horiginal, hpart⟩ := List.mem_map.mp hpart
      obtain ⟨inner, hinner, hown⟩ := mem_fieldNames_iff.mp (ih hpart)
      exact mem_fieldNames_iff.mpr ⟨inner, .part horiginal hinner, hown⟩

/-- Where a name is used, only names of the code itself and of fields are bound. -/
theorem mem_localNames_or_fieldNames {use : Use} (h : whole.Uses use) :
    ∀ name ∈ use.bound, name ∈ localNames ∨ name ∈ whole.fieldNames := by
  intro name hbound
  rcases h with hcode | ⟨type, discriminant, discriminantType, variants, hsum, hrefinement⟩
  · have hbinder := (Expr.mem_bound _ _ use hcode name hbound).resolve_left List.not_mem_nil
    refine (mem_localNames_or_of_mem_binders_code _ name hbinder).imp_right ?_
    rintro ⟨inner, hinner, hown⟩
    exact mem_fieldNames_of_within_marked hinner hown
  · have hbinder := Declaration.mem_bound _ use hrefinement name hbound
    refine (mem_localNames_or_of_mem_binders_refinementOf name hbinder).imp_right ?_
    rintro ⟨inner, hinner, hown⟩
    have hmarked : Within inner
        (Schema.sum type discriminant discriminantType variants).marked := hinner
    obtain ⟨inner, hinner, hown⟩ :=
      mem_fieldNames_iff.mp (mem_fieldNames_of_within_marked hmarked hown)
    exact mem_fieldNames_iff.mpr ⟨inner, hinner.trans hsum, hown⟩

theorem mem_scope_of_mem_scopedFields {scope : List String} {fields : List (String × Schema)}
    {part : List String × Schema} (h : part ∈ scopedFields scope fields) :
    ∀ name ∈ part.1, name ∈ scope ∨ name ∈ fields.map Prod.fst := by
  induction fields generalizing scope with
  | nil => cases h
  | cons field fields ih =>
      intro name hname
      rcases List.mem_cons.mp h with rfl | h
      · rcases List.mem_cons.mp hname with rfl | hscope
        · exact Or.inr List.mem_cons_self
        · exact Or.inl hscope
      · rcases ih h name hname with hscope | hfield
        · rcases List.mem_cons.mp hscope with rfl | hscope
          · exact Or.inr List.mem_cons_self
          · exact Or.inl hscope
        · exact Or.inr (List.mem_cons_of_mem _ hfield)

theorem mem_scope_of_mem_scopedParts {schema : Schema} {part : List String × Schema}
    (h : part ∈ schema.scopedParts) : ∀ name ∈ part.1, name = "json" ∨ name ∈ schema.ownFields := by
  intro name hname
  cases schema with
  | object type fields optional =>
      rcases mem_scope_of_mem_scopedFields h name hname with hjson | hfield
      · exact Or.inl (List.mem_singleton.mp hjson)
      · exact Or.inr hfield
  | list element =>
      obtain rfl := List.mem_singleton.mp h
      cases hname
  | mapping key value =>
      simp only [scopedParts, List.mem_cons, List.not_mem_nil, or_false] at h
      rcases h with rfl | rfl <;> cases hname
  | _ => cases h

/-- What is bound where a schema stands: fields around it, the parameter of an object, or the
parameter and the constant of a refinement. -/
theorem Under.mem_bound {inner : Schema} {bound : List String} (h : Under whole bound inner) :
    ∀ name ∈ bound, name ∈ ["json", "sentinelValue", "x"] ∨ name ∈ whole.fieldNames := by
  induction h with
  | whole => simp
  | part hunder hpart ih =>
      intro name hname
      rcases List.mem_append.mp hname with hscope | hbound
      · rcases mem_scope_of_mem_scopedParts hpart name hscope with rfl | hfield
        · exact Or.inl List.mem_cons_self
        · exact Or.inr (mem_fieldNames_iff.mpr ⟨_, hunder.within, hfield⟩)
      · exact ih name hbound
  | variant _ _ _ =>
      intro name hname
      exact Or.inl (List.mem_cons_of_mem _ hname)

end ValidatorGen.Schema
