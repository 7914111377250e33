import Mathlib.Data.List.Forall2
import ValidatorGen.Proofs.Check.Run

/-!
# Custom validators may be replaced by what they stand for

`Inlines` relates a schema to one in which any number of custom validators, at any depth, are
replaced by the schemas that are registered under their names.  `run_eq_of_inlines` says that no run
can tell the two apart: on every input both come to an end or neither does, and the outcome, with
its value or its reason, is the same.

## Strategy

A custom validator and its schema have the same runs (`run_custom_of_get?`).  The induction is on
the schema around them, one case for each kind of schema that has parts.  Its runs are made of those
of its parts and of the names beside them, which stay as they are, so two schemas with the same
names whose parts have the same runs have the same runs themselves.
-/

namespace ValidatorGen.Check

variable {named : Table Schema}

/-- A schema is turned into another one by replacing some of its custom validators by the schemas
that are registered for them. -/
inductive Inlines (named : Table Schema) : Schema → Schema → Prop where
  | keep (schema : Schema) : Inlines named schema schema
  | replace {name : String} {schema : Schema} (types : List FlowType) :
      named.get? name = some schema → Inlines named (.custom name types) schema
  | object (type : FlowType) {fields fields' optional optional' : List (String × Schema)} :
      fields.map Prod.fst = fields'.map Prod.fst →
      List.Forall₂ (Inlines named) (fields.map Prod.snd) (fields'.map Prod.snd) →
      optional.map Prod.fst = optional'.map Prod.fst →
      List.Forall₂ (Inlines named) (optional.map Prod.snd) (optional'.map Prod.snd) →
      Inlines named (.object type fields optional) (.object type fields' optional')
  | list {element element' : Schema} :
      Inlines named element element' → Inlines named (.list element) (.list element')
  | mapping {key key' value value' : Schema} :
      Inlines named key key' → Inlines named value value' →
      Inlines named (.mapping key value) (.mapping key' value')
  | sum (type : FlowType) (discriminant : String) (discriminantType : FlowType)
      {variants variants' : List (String × Schema)} :
      variants.map Prod.fst = variants'.map Prod.fst →
      List.Forall₂ (Inlines named) (variants.map Prod.snd) (variants'.map Prod.snd) →
      Inlines named (.sum type discriminant discriminantType variants)
        (.sum type discriminant discriminantType variants')

/-- Two schemas have the same outcome on every input, or none on both. -/
def SameRuns (named : Table Schema) (schema other : Schema) : Prop :=
  ∀ x, run named schema x = run named other x

/-! ## Parts with the same runs -/

/-- Fields and variants with the same names, of which each pair has the same runs. -/
def SameParts (named : Table Schema) (entries others : List (String × Schema)) : Prop :=
  List.Forall₂ (fun entry other => entry.1 = other.1 ∧ SameRuns named entry.2 other.2)
    entries others

theorem SameParts.names {entries others : List (String × Schema)}
    (h : SameParts named entries others) : entries.map Prod.fst = others.map Prod.fst := by
  induction h with
  | nil => rfl
  | cons hentry _ ih => rw [List.map_cons, List.map_cons, hentry.1, ih]

/-- Parts that are inlined have the same runs if this holds of everything that stands in them. -/
theorem sameParts_of_inlines {entries others : List (String × Schema)}
    (hnames : entries.map Prod.fst = others.map Prod.fst)
    (hparts : List.Forall₂ (Inlines named) (entries.map Prod.snd) (others.map Prod.snd))
    (ih : ∀ entry ∈ entries, ∀ other, Inlines named entry.2 other →
      SameRuns named entry.2 other) : SameParts named entries others := by
  induction entries generalizing others with
  | nil =>
      obtain rfl : others = [] := List.map_eq_nil_iff.mp hnames.symm
      exact .nil
  | cons entry entries ihentries =>
      obtain ⟨other, others, rfl⟩ := List.exists_cons_of_ne_nil (l := others) (by
        rintro rfl
        cases hnames)
      rw [List.map_cons, List.map_cons, List.cons.injEq] at hnames
      rw [List.map_cons, List.map_cons, List.forall₂_cons] at hparts
      rw [List.forall_mem_cons] at ih
      exact .cons ⟨hnames.1, ih.1 other.2 hparts.1⟩ (ihentries hnames.2 hparts.2 ih.2)

theorem runFields_congr {fields others : List (String × Schema)}
    (h : SameParts named fields others) (isOptional : Bool) (members : List (String × Json)) :
    ∀ result, runFields (customs named) isOptional members fields result =
      runFields (customs named) isOptional members others result := by
  induction h with
  | nil => exact fun _ => rfl
  | @cons field other fields others hfield _ ih =>
      intro result
      obtain ⟨name, schema⟩ := field
      obtain ⟨name', other⟩ := other
      obtain ⟨rfl, hruns⟩ : name = name' ∧ SameRuns named schema other := hfield
      simp only [runFields, runWith_customs, hruns _, ih]

theorem runVariant_congr {variants others : List (String × Schema)}
    (h : SameParts named variants others) (tag : String) (x : Input) :
    runVariant (customs named) tag variants x = runVariant (customs named) tag others x := by
  induction h with
  | nil => rfl
  | @cons variant other variants others hvariant _ ih =>
      obtain ⟨key, schema⟩ := variant
      obtain ⟨key', other⟩ := other
      obtain ⟨rfl, hruns⟩ : key = key' ∧ SameRuns named schema other := hvariant
      simp only [runVariant, runWith_customs, hruns _, ih]

theorem sameRuns_object (type : FlowType)
    {fields fields' optional optional' : List (String × Schema)}
    (hfields : SameParts named fields fields') (hoptional : SameParts named optional optional') :
    SameRuns named (.object type fields optional) (.object type fields' optional') := by
  intro x
  rw [← runWith_customs, ← runWith_customs (.object type fields' optional')]
  simp only [runWith, runFields_congr hfields, runFields_congr hoptional]

theorem sameRuns_sum (type : FlowType) (discriminant : String) (discriminantType : FlowType)
    {variants variants' : List (String × Schema)} (h : SameParts named variants variants') :
    SameRuns named (.sum type discriminant discriminantType variants)
      (.sum type discriminant discriminantType variants') := by
  intro x
  rw [← runWith_customs, ← runWith_customs (.sum type discriminant discriminantType variants')]
  simp only [runWith, runVariant_congr h, h.names]

/-! ## Replacing custom validators -/

/-- A schema in which custom validators are replaced by the schemas that are registered for them has
the runs that it had. -/
theorem run_eq_of_inlines {schema inlined : Schema} (h : Inlines named schema inlined) (x : Input) :
    run named schema x = run named inlined x := by
  -- over all that may stand in its place, since the parts are replaced independently
  suffices hruns : ∀ inlined, Inlines named schema inlined → SameRuns named schema inlined from
    hruns inlined h x
  clear h x inlined
  induction schema with
  | bool | number | string | filePath =>
      rintro _ ⟨⟩
      exact fun _ => rfl
  | constant type value =>
      rintro _ ⟨⟩
      exact fun _ => rfl
  | enumeration type values =>
      rintro _ ⟨⟩
      exact fun _ => rfl
  -- a schema is left as it is or replaced in its parts, and a custom one by what it names
  | object type fields optional ihfields ihoptional =>
      rintro _ (_ | _ | ⟨_, hfields, hparts, hoptional, hparts'⟩)
      · exact fun _ => rfl
      · exact sameRuns_object type (sameParts_of_inlines hfields hparts ihfields)
          (sameParts_of_inlines hoptional hparts' ihoptional)
  | list element ih =>
      rintro _ (_ | _ | _ | helement)
      · exact fun _ => rfl
      · intro x
        rw [run_list, run_list, funext (ih _ helement)]
  | mapping key value ihkey ihvalue =>
      rintro _ (_ | _ | _ | _ | ⟨hkey, hvalue⟩)
      · exact fun _ => rfl
      · intro x
        rw [run_mapping, run_mapping, funext (ihkey _ hkey), funext (ihvalue _ hvalue)]
  | sum type discriminant discriminantType variants ih =>
      rintro _ (_ | _ | _ | _ | _ | ⟨_, _, _, hkeys, hparts⟩)
      · exact fun _ => rfl
      · exact sameRuns_sum type discriminant discriminantType (sameParts_of_inlines hkeys hparts ih)
  | custom name types =>
      rintro _ (_ | ⟨_, hschema⟩)
      · exact fun _ => rfl
      · exact run_custom_of_get? hschema types

/-- Points, each of which may be followed by another one. -/
def pointSchema : Schema :=
  .object (.named "Point") [("x", .number)] [("next", .custom "dePoint" [])]

/-- Paths and their marks. -/
def pathSchema (point : Schema) : Schema :=
  .object (.named "Path") [("points", .list point)]
    [("marks", .mapping .string (.custom "dePoint" []))]

/-- A path whose second point lacks a number. -/
def pathJson : Json :=
  .object [("points", .array [.object [("x", .number (.int 1))], .object []])]

theorem run_eq_of_inlines_pathSchema :
    Inlines [("dePoint", pointSchema)] (pathSchema (.custom "dePoint" []))
        (pathSchema pointSchema) ∧
      run [("dePoint", pointSchema)] (pathSchema (.custom "dePoint" [])) (some pathJson) =
        run [("dePoint", pointSchema)] (pathSchema pointSchema) (some pathJson) := by
  have hinlines : Inlines [("dePoint", pointSchema)] (pathSchema (.custom "dePoint" []))
      (pathSchema pointSchema) :=
    .object _ rfl (.cons (.list (.replace [] rfl)) .nil) rfl (.cons (.keep _) .nil)
  exact ⟨hinlines, run_eq_of_inlines hinlines _⟩

end ValidatorGen.Check
