import ValidatorGen.Proofs.Code.Boundaries
import ValidatorGen.Schema.Needs

/-!
# What a text shows of a schema

`skeleton` is what matters of a schema to its text.  It forgets the difference between the two kinds
of texts, how a type without parameters is given, the types of a custom validator, which no code
shows, and the body of a sum, which stands in a declaration of its own; of a constant it keeps the
text of its value.

The text depends on nothing but the skeleton (`lines_code_eq`, `print_refinementOf_eq`).  That it
tells the whole skeleton takes more, and is shown where texts are read.

## Strategy

The frames of code are printed line by line, and what they show of a type is its text.  So there is
a lemma for each frame that its lines are those of another one that shows the same, and the result
on schemas follows by induction.
-/

namespace ValidatorGen

open Code

/-! ## Types -/

namespace FlowType

theorem texts_eq_map (parameters : List FlowType) : texts parameters = parameters.map text := by
  induction parameters with
  | nil => rfl
  | cons parameter parameters ih => rw [texts, ih, List.map_cons]

theorem plains_eq_map (parameters : List FlowType) : plains parameters = parameters.map plain := by
  induction parameters with
  | nil => rfl
  | cons parameter parameters ih => rw [plains, ih, List.map_cons]

theorem text_applying (name : String) (parameters : List FlowType) :
    (applying name parameters).text = (applied name parameters).text := by
  cases parameters <;> simp [applying, text]

theorem text_plain (type : FlowType) : type.plain.text = type.text := by
  induction type using induct with
  | named name => rfl
  | literal value => rfl
  | applied name parameters ih =>
      have htexts : texts (plains parameters) = texts parameters := by
        rw [texts_eq_map, texts_eq_map, plains_eq_map, List.map_map]
        exact List.map_congr_left ih
      rw [plain, text_applying, text, text, htexts, plains_eq_map, List.isEmpty_map]

theorem baseName?_plain (type : FlowType) : type.plain.baseName? = type.baseName? := by
  cases type with
  | applied name parameters => cases parameters <;> rfl
  | _ => rfl

variable {type other : FlowType}

theorem text_eq_of_plain_eq (h : type.plain = other.plain) : type.text = other.text := by
  rw [← text_plain type, h, text_plain]

end FlowType

namespace Schema

theorem refinementName_eq_of_plain_eq {type other : FlowType} (h : type.plain = other.plain) :
    refinementName type = refinementName other := by
  rw [refinementName, refinementName, ← type.baseName?_plain, h, other.baseName?_plain]

/-! ## Skeletons -/

mutual

/-- What the code of a schema shows of it. -/
def skeleton : Schema → Schema
  | .bool => .bool
  | .number => .number
  | .string => .string
  | .filePath => .string
  | .constant type value => .constant type (.string value.text)
  | .enumeration type values => .enumeration type.plain values
  | .object type fields optional => .object type.plain (skeletons fields) (skeletons optional)
  | .list element => .list element.skeleton
  | .mapping key value => .mapping key.skeleton value.skeleton
  | .sum type _ _ _ => .sum (.named (refinementName type)) "" (.named "") []
  | .custom name _ => .custom name []

def skeletons : List (String × Schema) → List (String × Schema)
  | [] => []
  | (name, schema) :: entries => (name, schema.skeleton) :: skeletons entries

end

theorem map_fst_skeletons (entries : List (String × Schema)) :
    (skeletons entries).map Prod.fst = entries.map Prod.fst := by
  induction entries with
  | nil => rfl
  | cons entry entries ih => rw [skeletons, List.map_cons, List.map_cons, ih]

/-! ## Frames that show the same -/

variable {type other : FlowType}

theorem lines_constantCode_eq (type : String) {value given : Json} (h : value.text = given.text) :
    (constantCode type value).lines = (constantCode type given).lines := by
  simp only [constantCode, Expr.lines, Stmt.lines, bodyLines, h]

theorem lines_enumerationCode_eq (values : List String) (htype : type.text = other.text) :
    (enumerationCode type values).lines = (enumerationCode other values).lines := by
  simp only [enumerationCode, Expr.lines, functionLines, htype]

theorem bodyLines_buildRecord_eq (names : List String) (htype : type.text = other.text) :
    bodyLines (buildRecord type names) = bodyLines (buildRecord other names) := by
  simp only [buildRecord, bodyLines, Stmt.lines, typeLines, htype]

theorem lines_objectCode_eq {members given : List Stmt} (htype : type.text = other.text)
    (hmembers : bodyLines members = bodyLines given) :
    (objectCode type members).lines = (objectCode other given).lines := by
  simp only [objectCode, Expr.lines, Stmt.lines, bodyLines, functionLines, htype, hmembers]

theorem bodyLines_fieldCode_eq (name : String) (isOptional : Bool) {validator given : Expr}
    {body final : List Stmt} (hvalidator : validator.lines = given.lines)
    (hbody : bodyLines body = bodyLines final) :
    bodyLines (fieldCode name isOptional validator body) =
      bodyLines (fieldCode name isOptional given final) := by
  cases isOptional
  all_goals
    simp only [fieldCode, bodyLines, Stmt.lines, Expr.lines, argumentLines, hvalidator, hbody,
      Bool.false_eq_true, if_true, if_false]

theorem argumentLines_cons_cons (argument next : Expr) (arguments : List Expr) :
    argumentLines (argument :: next :: arguments) =
      Lines.concat [argument.lines, Lines.ofText ", ", argumentLines (next :: arguments)] := by
  simp [argumentLines]

theorem argumentLines_eq {arguments given : List Expr}
    (h : arguments.map Expr.lines = given.map Expr.lines) :
    argumentLines arguments = argumentLines given := by
  induction arguments generalizing given with
  | nil => rw [List.map_eq_nil_iff.mp h.symm]
  | cons argument arguments ih =>
      cases given with
      | nil => cases h
      | cons other given =>
          obtain ⟨hargument, harguments⟩ := List.cons.inj h
          cases arguments with
          | nil =>
              rw [List.map_eq_nil_iff.mp harguments.symm]
              exact hargument
          | cons next arguments =>
              cases given with
              | nil => cases harguments
              | cons following given =>
                  rw [argumentLines_cons_cons, argumentLines_cons_cons, hargument, ih harguments]

theorem lines_bound_eq (checker : Checker) {validators given : List Expr}
    (h : validators.map Expr.lines = given.map Expr.lines) :
    (bound checker validators).lines = (bound checker given).lines := by
  have harguments : argumentLines (.json .null :: validators) =
      argumentLines (.json .null :: given) := by
    apply argumentLines_eq
    rw [List.map_cons, List.map_cons, h]
  simp only [bound, Expr.lines, harguments]

theorem bodyLines_append (statements others : List Stmt) :
    bodyLines (statements ++ others) = bodyLines statements ++ bodyLines others := by
  induction statements with
  | nil => rfl
  | cons statement statements ih =>
      rw [List.cons_append, bodyLines, bodyLines, ih, List.append_assoc]

theorem print_refinement_eq {discriminant : String} {tag validator : Expr} {cases final : List Stmt}
    (htype : type.plain = other.plain) (htag : tag.lines = validator.lines)
    (hcases : bodyLines cases = bodyLines final) :
    (refinement type discriminant tag cases).print =
      (refinement other discriminant validator final).print := by
  have hname := refinementName_eq_of_plain_eq htype
  have htext := FlowType.text_eq_of_plain_eq htype
  simp only [refinement, Declaration.print, bodyLines, Stmt.lines, Expr.lines, argumentLines,
    functionLines, bodyLines_append, hname, htext, htag, hcases]

/-! ## Schemas that show the same -/

theorem bodyLines_fieldsCode_eq (isOptional : Bool) {fields given : List (String × Schema)}
    {last final : List Stmt}
    (ih : ∀ field ∈ fields, ∀ other : Schema, field.2.skeleton = other.skeleton →
      field.2.code.lines = other.code.lines)
    (hfields : skeletons fields = skeletons given) (hlast : bodyLines last = bodyLines final) :
    bodyLines (fieldsCode isOptional fields last) =
      bodyLines (fieldsCode isOptional given final) := by
  induction fields generalizing given with
  | nil =>
      cases given with
      | nil => exact hlast
      | cons other given => cases hfields
  | cons field fields ihfields =>
      cases given with
      | nil => cases hfields
      | cons other given =>
          -- a field holds all that stand behind it, so its frame is rewritten from the inside
          obtain ⟨name, schema⟩ := field
          obtain ⟨name', other⟩ := other
          rw [List.forall_mem_cons] at ih
          rw [skeletons, skeletons, List.cons.injEq, Prod.mk.injEq] at hfields
          obtain ⟨⟨rfl, hschema⟩, hrest⟩ := hfields
          rw [fieldsCode, fieldsCode]
          exact bodyLines_fieldCode_eq name isOptional (ih.1 other hschema) (ihfields ih.2 hrest)

theorem names_eq_of_skeletons_eq {entries given : List (String × Schema)}
    (h : skeletons entries = skeletons given) : entries.map Prod.fst = given.map Prod.fst := by
  rw [← map_fst_skeletons, h, map_fst_skeletons]

/-- The lines of a schema's code depend on its skeleton alone. -/
theorem lines_code_eq {schema other : Schema} (h : schema.skeleton = other.skeleton) :
    schema.code.lines = other.code.lines := by
  induction schema generalizing other with
  | bool =>
      cases other with
      | bool => rfl
      | _ => cases h
  | number =>
      cases other with
      | number => rfl
      | _ => cases h
  -- a path is checked like a string, and any other two constructors have different skeletons
  | string =>
      cases other with
      | string => rfl
      | filePath => rfl
      | _ => cases h
  | filePath =>
      cases other with
      | string => rfl
      | filePath => rfl
      | _ => cases h
  | constant type value =>
      cases other with
      | constant given found =>
          rw [skeleton, skeleton, Schema.constant.injEq, Json.string.injEq] at h
          obtain ⟨rfl, htext⟩ := h
          exact lines_constantCode_eq type htext
      | _ => cases h
  | enumeration type values =>
      cases other with
      | enumeration given found =>
          rw [skeleton, skeleton, Schema.enumeration.injEq] at h
          obtain ⟨hplain, rfl⟩ := h
          exact lines_enumerationCode_eq values (FlowType.text_eq_of_plain_eq hplain)
      | _ => cases h
  | object type fields optional hfields hoptional =>
      cases other with
      | object given required others =>
          rw [skeleton, skeleton, Schema.object.injEq] at h
          obtain ⟨hplain, hrequired, hothers⟩ := h
          have htext := FlowType.text_eq_of_plain_eq hplain
          rw [code, code, names_eq_of_skeletons_eq hrequired, names_eq_of_skeletons_eq hothers]
          apply lines_objectCode_eq htext
          apply bodyLines_fieldsCode_eq false (fun field hfield _ => hfields field hfield) hrequired
          apply bodyLines_fieldsCode_eq true (fun field hfield _ => hoptional field hfield) hothers
          exact bodyLines_buildRecord_eq _ htext
      | _ => cases h
  | list element ih =>
      cases other with
      | list found =>
          rw [skeleton, skeleton, Schema.list.injEq] at h
          rw [code, code]
          apply lines_bound_eq
          rw [List.map_singleton, List.map_singleton, ih h]
      | _ => cases h
  | mapping key value ihkey ihvalue =>
      cases other with
      | mapping given found =>
          rw [skeleton, skeleton, Schema.mapping.injEq] at h
          rw [code, code]
          apply lines_bound_eq
          simp only [List.map_cons, ihkey h.1, ihvalue h.2]
      | _ => cases h
  | sum type discriminant discriminantType variants =>
      cases other with
      | sum given =>
          simp only [skeleton, Schema.sum.injEq, FlowType.named.injEq] at h
          rw [code, code, h.1]
      | _ => cases h
  | custom name types =>
      cases other with
      | custom found given =>
          rw [skeleton, skeleton, Schema.custom.injEq] at h
          rw [code, code, h.1]
      | _ => cases h

theorem bodyLines_casesCode_eq {variants given : List (String × Schema)}
    (h : skeletons variants = skeletons given) :
    bodyLines (casesCode variants) = bodyLines (casesCode given) := by
  induction variants generalizing given with
  | nil =>
      cases given with
      | nil => rfl
      | cons other given => cases h
  | cons variant variants ih =>
      cases given with
      | nil => cases h
      | cons other given =>
          rw [skeletons, skeletons, List.cons.injEq, Prod.mk.injEq] at h
          obtain ⟨⟨hkey, hschema⟩, hrest⟩ := h
          have hlines := lines_code_eq hschema
          have hcases := ih hrest
          simp only [casesCode] at hcases
          simp only [casesCode, List.map_cons, bodyLines, Stmt.lines, Expr.lines, hkey, hlines,
            hcases]

variable {discriminantType discriminantType' : FlowType}
  {variants variants' : List (String × Schema)}

/-- The text of a sum's declaration shows no more than the skeletons of its variants. -/
theorem print_refinementOf_eq (discriminant : String) (htype : type.plain = other.plain)
    (hdiscriminantType : discriminantType.plain = discriminantType'.plain)
    (hvariants : skeletons variants = skeletons variants') :
    (refinementOf type discriminant discriminantType variants).print =
      (refinementOf other discriminant discriminantType' variants').print := by
  rw [refinementOf, refinementOf, names_eq_of_skeletons_eq hvariants]
  exact print_refinement_eq htype
    (lines_enumerationCode_eq _ (FlowType.text_eq_of_plain_eq hdiscriminantType))
    (bodyLines_casesCode_eq hvariants)

end Schema

end ValidatorGen
