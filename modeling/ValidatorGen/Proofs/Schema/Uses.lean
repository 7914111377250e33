import ValidatorGen.Proofs.Code.Scope
import ValidatorGen.Proofs.Schema.Parts

/-!
# The names that a validator's code uses

Where the code of a schema uses names, and what is bound there.  The code of a part stands in the
scope that `scopedParts` gives it: the fields of an object are bound one inside the other, and a
list or a mapping binds nothing.  The variants of a sum are no such parts, because their code stands
in the refinement, in a scope of its own.
-/

namespace ValidatorGen.Schema

open Code

/-- The names that the code of validators binds whatever it validates. -/
def localNames : List String :=
  ["x", "v", "json", "either", "result", "fieldError", "sentinelValue"]

/-- The names that the code of validators uses whatever it validates, except for the globals. -/
def commonNames : List String := localNames ++ "undefined" :: Checker.standard.map Checker.name

/-- The global values that the code of validators uses. -/
def globalNames : List String := ["Error", "JSON", "Object", "String"]

/-- The global values that the code of a schema uses by itself, or its refinement if it is a sum. -/
def ownGlobals : Schema → List String
  | .constant _ _ => ["Error", "String"]
  | .enumeration _ _ => ["Error", "String"]
  | .object _ _ [] => ["Error", "String"]
  | .object _ _ (_ :: _) => ["Error", "String", "Object"]
  | .sum _ _ _ _ => ["Error", "String", "JSON"]
  | _ => []

/-- The names of the fields of an object. -/
def ownFields : Schema → List String
  | .object _ fields optional => (fields ++ optional).map Prod.fst
  | _ => []

/-- Fields, each with the names that are bound where its code stands. -/
def scopedFields (scope : List String) : List (String × Schema) → List (List String × Schema)
  | [] => []
  | (name, schema) :: fields => (name :: scope, schema) :: scopedFields (name :: scope) fields

/-- The parts whose code stands in the code of a schema, each with the names bound there. -/
def scopedParts : Schema → List (List String × Schema)
  | .object _ fields optional => scopedFields ["json"] (fields ++ optional)
  | .list element => [([], element)]
  | .mapping key value => [([], key), ([], value)]
  | _ => []

theorem scopedFields_append (scope bound : List String) (fields : List (String × Schema)) :
    scopedFields (scope ++ bound) fields =
      (scopedFields scope fields).map fun part => (part.1 ++ bound, part.2) := by
  induction fields generalizing scope with
  | nil => rfl
  | cons field fields ih =>
      rw [scopedFields, scopedFields, List.map_cons, ← List.cons_append, ih]

theorem scopedFields_fields_append (scope : List String) (fields others : List (String × Schema)) :
    scopedFields scope (fields ++ others) = scopedFields scope fields ++
      scopedFields ((fields.map Prod.fst).reverse ++ scope) others := by
  induction fields generalizing scope with
  | nil => rfl
  | cons field fields ih =>
      rw [List.cons_append, scopedFields, ih, scopedFields, List.cons_append, List.map_cons,
        List.reverse_cons, List.append_assoc]
      rfl

/-- The clauses of a sum bind nothing. -/
theorem blockConstants_casesCode (variants : List (String × Schema)) :
    blockConstants (casesCode variants) = [] := by
  induction variants with
  | nil => rfl
  | cons variant variants ih => exact ih

/-! ## All uses -/

section

variable {holds : Use → Prop} {bound : List String}
  (hcommon : ∀ name ∈ commonNames, ∀ bound, holds ⟨name, bound⟩)

include hcommon

theorem forall_mem_uses_constantCode (type : String) (value : Json)
    (hglobals : ∀ name ∈ ["Error", "String"], ∀ bound, holds ⟨name, bound⟩) :
    ∀ use ∈ (constantCode type value).uses bound, holds use := by
  simp (disch := decide) [constantCode, hasType, failWith, naming, shown, hcommon, hglobals]

theorem forall_mem_uses_isOneOf (values : List String) :
    ∀ use ∈ (isOneOf "either" values).uses bound, holds use := by
  induction values with
  | nil => simp [isOneOf]
  | cons value values ih =>
      cases values with
      | nil => simp (disch := decide) [isOneOf, hcommon]
      | cons next values => simpa (disch := decide) [isOneOf, hcommon] using ih

theorem forall_mem_uses_enumerationCode (type : FlowType) (values : List String)
    (hglobals : ∀ name ∈ ["Error", "String"], ∀ bound, holds ⟨name, bound⟩) :
    ∀ use ∈ (enumerationCode type values).uses bound, holds use := by
  have hcondition : ∀ use ∈ (isOneOf "either" values).uses ("either" :: "v" :: bound),
      holds use := forall_mem_uses_isOneOf hcommon values
  simpa (disch := decide) [-List.mem_append, -List.mem_cons, List.forall_mem_append,
    List.forall_mem_cons, enumerationCode, isError, failWith, naming, shown, messageOf, hcommon,
    hglobals] using hcondition

theorem forall_mem_uses_buildRecord (type : FlowType) {names : List String}
    (hnames : ∀ name ∈ names, ∀ bound, holds ⟨name, bound⟩) :
    ∀ use ∈ blockUses bound (buildRecord type names), holds use := by
  have hproperties : ∀ use ∈ names.map (Use.mk · ("result" :: bound)), holds use :=
    List.forall_mem_map.mpr fun name hname => hnames name hname _
  simpa (disch := decide) [-List.mem_append, -List.mem_cons, -List.mem_map,
    List.forall_mem_append, List.forall_mem_cons, buildRecord, hcommon] using hproperties

theorem forall_mem_uses_fieldCode {name : String} (isOptional : Bool) {validator : Expr}
    {others : List Stmt} (hname : ∀ bound, holds ⟨name, bound⟩)
    (herror : ∀ bound, holds ⟨"Error", bound⟩)
    (hobject : isOptional = true → ∀ bound, holds ⟨"Object", bound⟩)
    (hvalidator : ∀ use ∈ validator.uses (name :: bound), holds use)
    (hothers : ∀ use ∈ blockUses (name :: bound) others, holds use) :
    ∀ use ∈ blockUses bound (fieldCode name isOptional validator others), holds use := by
  have hparts := And.intro hvalidator hothers
  cases isOptional <;>
  simpa (disch := decide) [-List.mem_append, -List.mem_cons, List.forall_mem_append,
    List.forall_mem_cons, fieldCode, isAbsent, isError, failWith, messageOf, hcommon, herror,
    hobject, hname] using hparts

/-- The uses of a list of fields are those of the fields, each in its scope, and those of what comes
after them. -/
theorem forall_mem_uses_fieldsCode (isOptional : Bool) {fields : List (String × Schema)}
    {last : List Stmt} (hnames : ∀ field ∈ fields, ∀ bound, holds ⟨field.1, bound⟩)
    (herror : ∀ bound, holds ⟨"Error", bound⟩)
    (hobject : isOptional = true → ∀ field ∈ fields, ∀ bound, holds ⟨"Object", bound⟩)
    (hfields : ∀ part ∈ scopedFields bound fields, ∀ use ∈ part.2.code.uses part.1, holds use)
    (hlast : ∀ use ∈ blockUses ((fields.map Prod.fst).reverse ++ bound) last, holds use) :
    ∀ use ∈ blockUses bound (fieldsCode isOptional fields last), holds use := by
  induction fields generalizing bound with
  | nil => exact hlast
  | cons field fields ih =>
      rw [List.forall_mem_cons] at hnames
      rw [scopedFields, List.forall_mem_cons] at hfields
      rw [List.map_cons, List.reverse_cons, List.append_assoc] at hlast
      refine forall_mem_uses_fieldCode hcommon isOptional hnames.1 herror ?_ hfields.1 ?_
      · exact fun h => hobject h field List.mem_cons_self
      · exact ih hnames.2 (fun h other hother => hobject h other (List.mem_cons_of_mem _ hother))
          hfields.2 hlast

theorem forall_mem_uses_objectCode (type : FlowType) {members : List Stmt}
    (hglobals : ∀ name ∈ ["Error", "String"], ∀ bound, holds ⟨name, bound⟩)
    (hmembers : ∀ use ∈ blockUses ("json" :: bound) members, holds use) :
    ∀ use ∈ (objectCode type members).uses bound, holds use := by
  simpa (disch := decide) [-List.mem_append, -List.mem_cons, List.forall_mem_append,
    List.forall_mem_cons, objectCode, hasType, isError, failWith, naming, shown, hcommon,
    hglobals] using hmembers

/-- Whatever name the code of a schema uses, the code of all validators uses it, or it comes from
the schema itself or from the code of one of its parts, in the scope of that part. -/
theorem forall_mem_uses_code {schema : Schema}
    (hglobals : ∀ name ∈ schema.ownGlobals, ∀ bound, holds ⟨name, bound⟩)
    (hfields : ∀ name ∈ schema.ownFields, ∀ bound, holds ⟨name, bound⟩)
    (hhoists : ∀ hoist ∈ schema.ownHoists, holds ⟨hoist.key, bound⟩)
    (hcustom : ∀ name types, schema = .custom name types → holds ⟨name, bound⟩)
    (hparts : ∀ part ∈ schema.scopedParts, ∀ use ∈ part.2.code.uses (part.1 ++ bound), holds use) :
    ∀ use ∈ schema.code.uses bound, holds use := by
  cases schema with
  | constant type value => exact forall_mem_uses_constantCode hcommon type value hglobals
  | enumeration type values => exact forall_mem_uses_enumerationCode hcommon type values hglobals
  | object type fields optional =>
      have hglobal : ∀ name ∈ ["Error", "String"], ∀ bound, holds ⟨name, bound⟩ := by
        cases optional <;> simp_all [ownGlobals]
      have hobject : ∀ field ∈ optional, ∀ bound, holds ⟨"Object", bound⟩ := by
        cases optional <;> simp_all [ownGlobals]
      have herror := hglobal "Error" List.mem_cons_self
      rw [ownFields, List.map_append] at hfields
      have hnames := List.forall_mem_append.mp hfields
      have hscoped : ∀ part ∈ scopedFields ("json" :: bound) (fields ++ optional),
          ∀ use ∈ part.2.code.uses part.1, holds use := by
        rw [← List.singleton_append, scopedFields_append]
        exact List.forall_mem_map.mpr hparts
      rw [scopedFields_fields_append, List.forall_mem_append] at hscoped
      -- the required fields hold the optional ones, which hold the record that is returned
      refine forall_mem_uses_objectCode hcommon type hglobal ?_
      refine forall_mem_uses_fieldsCode hcommon false (List.forall_mem_map.mp hnames.1) herror
        nofun hscoped.1 ?_
      refine forall_mem_uses_fieldsCode hcommon true (List.forall_mem_map.mp hnames.2) herror
        (fun _ => hobject) hscoped.2 ?_
      exact forall_mem_uses_buildRecord hcommon type hfields
  | sum type discriminant discriminantType variants =>
      have hkey : holds ⟨refinementName type, bound⟩ :=
        hhoists (hoistOf type discriminant discriminantType variants) List.mem_cons_self
      simpa [code] using hkey
  | custom name types => simpa [code] using hcustom name types rfl
  | list element =>
      have helement := hparts ([], element) List.mem_cons_self
      simpa (disch := decide) [-List.mem_append, -List.mem_cons, List.forall_mem_append,
        List.forall_mem_cons, code, Schema.bound, hcommon] using helement
  | mapping key value =>
      have hkey := hparts ([], key) List.mem_cons_self
      have hvalue := hparts ([], value) (List.mem_cons_of_mem _ List.mem_cons_self)
      simpa (disch := decide) [-List.mem_append, -List.mem_cons, List.forall_mem_append,
        List.forall_mem_cons, code, Schema.bound, hcommon] using
        And.intro hkey hvalue
  | _ => simpa (disch := decide) [code] using hcommon _ (by decide) _

theorem forall_mem_uses_casesCode {variants : List (String × Schema)}
    (hvariants : ∀ variant ∈ variants, ∀ use ∈ variant.2.code.uses bound, holds use) :
    ∀ use ∈ bodyUses bound (casesCode variants), holds use := by
  induction variants with
  | nil => simp [casesCode]
  | cons variant variants ih =>
      rw [List.forall_mem_cons] at hvariants
      have hcases := And.intro hvariants.1 (ih hvariants.2)
      simpa (disch := decide) [-List.mem_append, -List.mem_cons, List.forall_mem_append,
        List.forall_mem_cons, casesCode,
        hcommon] using hcases

/-- The same for the refinement of a sum, which holds the code of the variants. -/
theorem forall_mem_uses_refinementOf (type discriminantType : FlowType) (discriminant : String)
    {variants : List (String × Schema)}
    (hglobals : ∀ name ∈ ["Error", "String", "JSON"], ∀ bound, holds ⟨name, bound⟩)
    (hvariants : ∀ variant ∈ variants,
      ∀ use ∈ variant.2.code.uses ["sentinelValue", "x"], holds use) :
    ∀ use ∈ (refinementOf type discriminant discriminantType variants).uses, holds use := by
  have htag : ∀ use ∈ (enumerationCode discriminantType (variants.map Prod.fst)).uses
      ["sentinelValue", "x"], holds use :=
    forall_mem_uses_enumerationCode hcommon _ _ (by simp_all)
  have hcases := forall_mem_uses_casesCode hcommon hvariants
  simpa (disch := decide) [-List.mem_append, -List.mem_cons, List.forall_mem_append,
    List.forall_mem_cons, refinementOf, refinement, hasDiscriminant, hasType, isError, failWith,
    messageOf, bodyUses_append, blockConstants_append, blockConstants_casesCode, hcommon,
    hglobals] using And.intro htag hcases

end

/-! ## Nothing is left out -/

section

variable {use : Use} {bound : List String}

theorem mem_uses_fieldCode {name : String} {isOptional : Bool} {validator : Expr}
    {others : List Stmt} (h : (isOptional = true ∧ use = ⟨"Object", name :: bound⟩) ∨
      use ∈ validator.uses (name :: bound) ∨ use ∈ blockUses (name :: bound) others) :
    use ∈ blockUses bound (fieldCode name isOptional validator others) := by
  rcases h with ⟨rfl, rfl⟩ | hvalidator | hothers
  · simp [fieldCode, isAbsent]
  · cases isOptional <;> simp [fieldCode, hvalidator]
  · cases isOptional <;> simp_all [fieldCode]

theorem mem_uses_fieldsCode {isOptional : Bool} {fields : List (String × Schema)}
    {last : List Stmt} (h : (∃ part ∈ scopedFields bound fields, use ∈ part.2.code.uses part.1) ∨
      use ∈ blockUses ((fields.map Prod.fst).reverse ++ bound) last) :
    use ∈ blockUses bound (fieldsCode isOptional fields last) := by
  induction fields generalizing bound with
  | nil => simpa [scopedFields, fieldsCode] using h
  | cons field fields ih =>
      rw [List.map_cons, List.reverse_cons, List.append_assoc] at h
      refine mem_uses_fieldCode (Or.inr ?_)
      rcases h with ⟨part, hpart, huse⟩ | hlast
      · rcases List.mem_cons.mp hpart with rfl | hpart
        · exact Or.inl huse
        · exact Or.inr (ih (Or.inl ⟨part, hpart, huse⟩))
      · exact Or.inr (ih (Or.inr hlast))

theorem mem_uses_objectCode {type : FlowType} {members : List Stmt}
    (h : use ∈ blockUses ("json" :: bound) members) :
    use ∈ (objectCode type members).uses bound := by
  have hmembers : use ∈ blockUses ("json" :: bound) members := h
  simp [objectCode] at hmembers ⊢
  simp [hmembers]

/-- What the code of a part uses in its scope, the code of the whole uses. -/
theorem mem_uses_code_of_mem_scopedParts {schema : Schema} {part : List String × Schema}
    (hpart : part ∈ schema.scopedParts) (h : use ∈ part.2.code.uses (part.1 ++ bound)) :
    use ∈ schema.code.uses bound := by
  cases schema with
  | object type fields optional =>
      have hscoped : (part.1 ++ bound, part.2) ∈
          scopedFields ("json" :: bound) (fields ++ optional) := by
        rw [← List.singleton_append, scopedFields_append]
        exact List.mem_map_of_mem hpart
      rw [scopedFields_fields_append, List.mem_append] at hscoped
      refine mem_uses_objectCode (mem_uses_fieldsCode ?_)
      rcases hscoped with hfield | hfield
      · exact Or.inl ⟨_, hfield, h⟩
      · exact Or.inr (mem_uses_fieldsCode (Or.inl ⟨_, hfield, h⟩))
  | list element =>
      obtain rfl := List.mem_singleton.mp hpart
      simpa [code, Schema.bound] using Or.inr h
  | mapping key value =>
      simp only [scopedParts, List.mem_cons, List.not_mem_nil, or_false] at hpart
      rcases hpart with rfl | rfl
      · simpa [code, Schema.bound] using Or.inr (Or.inl h)
      · simpa [code, Schema.bound] using Or.inr (Or.inr h)
  | _ => simp [scopedParts] at hpart

theorem mem_uses_refinementOf {type discriminantType : FlowType} {discriminant : String}
    {variants : List (String × Schema)} {variant : String × Schema} (hvariant : variant ∈ variants)
    (h : use ∈ variant.2.code.uses ["sentinelValue", "x"]) :
    use ∈ (refinementOf type discriminant discriminantType variants).uses := by
  have hcase : use ∈ bodyUses ["sentinelValue", "x"] (casesCode variants) := by
    induction variants with
    | nil => cases hvariant
    | cons first variants ih =>
        rcases List.mem_cons.mp hvariant with rfl | hvariant
        · simp [casesCode, h]
        · exact List.mem_append_right _ (ih hvariant)
  simp [refinementOf, refinement, failWith, blockConstants_append, bodyUses_append,
    blockConstants_casesCode, hcase]

theorem global_mem_uses_constantCode (type : String) (value : Json) :
    ∀ name ∈ ["Error", "String"],
      ⟨name, "x" :: bound⟩ ∈ (constantCode type value).uses bound := by
  simp [constantCode, failWith, naming, shown]

theorem global_mem_uses_enumerationCode (type : FlowType) (values : List String) :
    ∀ name ∈ ["Error", "String"],
      ⟨name, "either" :: "v" :: bound⟩ ∈ (enumerationCode type values).uses bound := by
  simp [enumerationCode, isError, failWith, naming, shown]

theorem global_mem_uses_objectCode (type : FlowType) (members : List Stmt) :
    ∀ name ∈ ["Error", "String"],
      ⟨name, "json" :: bound⟩ ∈ (objectCode type members).uses bound := by
  simp [objectCode, failWith, naming, shown]

/-- Whether a field is there is asked of `Object`. -/
theorem exists_object_mem_uses_code (type : FlowType) (fields : List (String × Schema))
    {optional : List (String × Schema)} (h : optional ≠ []) :
    ∃ scope, ⟨"Object", scope⟩ ∈ (Schema.object type fields optional).code.uses bound := by
  cases optional with
  | nil => exact absurd rfl h
  | cons field optional =>
      have hfield (last : List Stmt) (scope : List String) : ⟨"Object", field.1 :: scope⟩ ∈
          blockUses scope (fieldsCode true (field :: optional) last) :=
        mem_uses_fieldCode (Or.inl ⟨rfl, rfl⟩)
      exact ⟨_, mem_uses_objectCode (mem_uses_fieldsCode (Or.inr (hfield _ _)))⟩

theorem exists_global_mem_uses_refinementOf (type discriminantType : FlowType)
    (discriminant : String) (variants : List (String × Schema)) :
    ∀ name ∈ ["Error", "String", "JSON"], ∃ scope,
      ⟨name, scope⟩ ∈ (refinementOf type discriminant discriminantType variants).uses := by
  intro name hname
  simp only [List.mem_cons, List.not_mem_nil, or_false] at hname
  rcases hname with rfl | rfl | rfl
  · refine ⟨["sentinelValue", "x"], ?_⟩
    simp [refinementOf, refinement, failWith]
  · -- only the validator of the discriminant shows a value
    refine ⟨["either", "v", "sentinelValue", "x"], ?_⟩
    simp [refinementOf, refinement, enumerationCode, failWith, naming, shown]
  · refine ⟨["x"], ?_⟩
    simp [refinementOf, refinement, failWith]

/-- The globals of a schema are used in its code, or in its refinement if it is a sum. -/
theorem exists_use_of_mem_ownGlobals {schema : Schema} {name : String}
    (h : name ∈ schema.ownGlobals) (bound : List String) :
    (∃ scope, ⟨name, scope⟩ ∈ schema.code.uses bound) ∨
      ∃ type discriminant discriminantType variants,
        schema = .sum type discriminant discriminantType variants ∧ ∃ scope,
          ⟨name, scope⟩ ∈ (refinementOf type discriminant discriminantType variants).uses := by
  cases schema with
  | constant type value => exact Or.inl ⟨_, global_mem_uses_constantCode type value name h⟩
  | enumeration type values => exact Or.inl ⟨_, global_mem_uses_enumerationCode type values name h⟩
  | object type fields optional =>
      have hheader (h : name ∈ ["Error", "String"]) :
          ∃ scope, ⟨name, scope⟩ ∈ (Schema.object type fields optional).code.uses bound :=
        ⟨_, global_mem_uses_objectCode type _ name h⟩
      left
      -- `Object` is called for the sake of the optional fields alone
      cases optional with
      | nil => exact hheader h
      | cons field optional =>
          rcases List.mem_append.mp (show name ∈ ["Error", "String"] ++ ["Object"] from h) with
            hfixed | hobject
          · exact hheader hfixed
          · obtain rfl := List.mem_singleton.mp hobject
            exact exists_object_mem_uses_code type fields (List.cons_ne_nil field optional)
  | sum type discriminant discriminantType variants =>
      exact Or.inr ⟨type, discriminant, discriminantType, variants, rfl,
        exists_global_mem_uses_refinementOf _ _ _ _ name h⟩
  | _ => simp [ownGlobals] at h

end

/-! ## All binders -/

section

variable {holds : String → Prop} (hlocal : ∀ name ∈ localNames, holds name)

include hlocal

theorem forall_mem_binders_enumerationCode (type : FlowType) (values : List String) :
    ∀ name ∈ (enumerationCode type values).binders, holds name := by
  have hcondition : (isOneOf "either" values).binders = [] := by
    induction values with
    | nil => simp [isOneOf]
    | cons value values ih =>
        cases values with
        | nil => simp [isOneOf]
        | cons next values => simpa [isOneOf] using ih
  simp (disch := decide) [enumerationCode, isError, failWith, naming, shown, messageOf, hlocal,
    hcondition]

theorem forall_mem_binders_fieldsCode (isOptional : Bool) {fields : List (String × Schema)}
    {last : List Stmt} (hfields : ∀ field ∈ fields, holds field.1 ∧
      ∀ name ∈ field.2.code.binders, holds name)
    (hlast : ∀ name ∈ bodyBinders last, holds name) :
    ∀ name ∈ bodyBinders (fieldsCode isOptional fields last), holds name := by
  induction fields with
  | nil => exact hlast
  | cons field fields ih =>
      rw [List.forall_mem_cons] at hfields
      have hparts := And.intro hfields.1 (ih hfields.2)
      cases isOptional <;>
      simpa (disch := decide) [-List.mem_append, -List.mem_cons, List.forall_mem_append,
        List.forall_mem_cons, fieldsCode, fieldCode, isAbsent, isError, failWith, messageOf, hlocal,
        and_assoc] using hparts

/-- Whatever name the code of a schema binds, the code of all validators binds it, or it is the name
of a field, or the code of one of its parts binds it. -/
theorem forall_mem_binders_code {schema : Schema}
    (hfields : ∀ name ∈ schema.ownFields, holds name)
    (hparts : ∀ part ∈ schema.parts, ∀ name ∈ part.code.binders, holds name) :
    ∀ name ∈ schema.code.binders, holds name := by
  cases schema with
  | constant type value =>
      simp (disch := decide) [code, constantCode, hasType, failWith, naming, shown, hlocal]
  | enumeration type values => exact forall_mem_binders_enumerationCode hlocal type values
  | object type fields optional =>
      have hfield : ∀ field ∈ fields ++ optional, holds field.1 ∧
          ∀ name ∈ field.2.code.binders, holds name := fun field hfield =>
        ⟨hfields field.1 (List.mem_map_of_mem hfield), hparts field.2 (List.mem_map_of_mem hfield)⟩
      obtain ⟨hfields, hoptional⟩ := List.forall_mem_append.mp hfield
      have hrecord : ∀ name ∈ bodyBinders (buildRecord type
          (fields.map Prod.fst ++ optional.map Prod.fst)), holds name := by
        simp (disch := decide) [buildRecord, hlocal]
      have hmembers := forall_mem_binders_fieldsCode hlocal false hfields
        (forall_mem_binders_fieldsCode hlocal true hoptional hrecord)
      simpa (disch := decide) [-List.mem_append, -List.mem_cons, List.forall_mem_append,
        List.forall_mem_cons, code, objectCode, hasType, isError, failWith, naming, shown,
        hlocal] using hmembers
  | list element => simpa [code, Schema.bound] using hparts element List.mem_cons_self
  | mapping key value =>
      simp only [parts, List.forall_mem_cons] at hparts
      have hboth := And.intro hparts.1 hparts.2.1
      simpa [-List.mem_append, List.forall_mem_append, code, Schema.bound] using hboth
  | _ => simp [code]

theorem forall_mem_binders_refinementOf (type discriminantType : FlowType) (discriminant : String)
    {variants : List (String × Schema)}
    (hvariants : ∀ variant ∈ variants, ∀ name ∈ variant.2.code.binders, holds name) :
    ∀ name ∈ (refinementOf type discriminant discriminantType variants).binders, holds name := by
  have hcases : ∀ name ∈ bodyBinders (casesCode variants), holds name := by
    induction variants with
    | nil => simp [casesCode]
    | cons variant variants ih =>
        rw [List.forall_mem_cons] at hvariants
        simpa [-List.mem_append, List.forall_mem_append, casesCode] using
          And.intro hvariants.1 (ih hvariants.2)
  have htag := forall_mem_binders_enumerationCode hlocal discriminantType (variants.map Prod.fst)
  simpa (disch := decide) [-List.mem_append, -List.mem_cons, List.forall_mem_append,
    List.forall_mem_cons, refinementOf, refinement, hasDiscriminant, hasType, isError, failWith,
    messageOf, bodyBinders_append, hlocal] using And.intro htag hcases

end

/-- The names that the code of a schema binds are local ones or those of fields within it. -/
theorem mem_localNames_or_of_mem_binders_code (schema : Schema) :
    ∀ name ∈ schema.code.binders,
      name ∈ localNames ∨ ∃ inner, Within inner schema ∧ name ∈ inner.ownFields := by
  induction schema using induct_parts with
  | h schema ih =>
      refine forall_mem_binders_code (fun name hname => Or.inl hname) ?_ ?_
      · exact fun name hname => Or.inr ⟨schema, .self schema, hname⟩
      · intro part hpart name hname
        rcases ih part hpart name hname with hlocal | ⟨inner, hinner, hown⟩
        · exact Or.inl hlocal
        · exact Or.inr ⟨inner, .part hpart hinner, hown⟩

/-- The same for the refinement of a sum. -/
theorem mem_localNames_or_of_mem_binders_refinementOf {type discriminantType : FlowType}
    {discriminant : String} {variants : List (String × Schema)} :
    ∀ name ∈ (refinementOf type discriminant discriminantType variants).binders,
      name ∈ localNames ∨ ∃ inner,
        Within inner (.sum type discriminant discriminantType variants) ∧
          name ∈ inner.ownFields := by
  refine forall_mem_binders_refinementOf (fun name hname => Or.inl hname) _ _ _ ?_
  intro variant hvariant name hname
  rcases mem_localNames_or_of_mem_binders_code variant.2 name hname with
    hlocal | ⟨inner, hinner, hown⟩
  · exact Or.inl hlocal
  · exact Or.inr ⟨inner, .part (List.mem_map_of_mem hvariant) hinner, hown⟩

end ValidatorGen.Schema
