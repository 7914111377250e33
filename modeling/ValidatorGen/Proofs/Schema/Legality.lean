import ValidatorGen.Proofs.Questions
import ValidatorGen.Proofs.Schema.Parts
import ValidatorGen.Schema.Legality

/-!
# What makes a schema legal

`check` looks at a schema from left to right and gives up at the first offence.  `check_eq_ok_iff`
says when it finds none: the schema keeps a rule of its own, `Lawful`, and its parts are legal.
-/

namespace ValidatorGen.Schema

open Code

/-- The rule that a schema keeps apart from its parts. -/
def Lawful : Schema → Prop
  | .object _ fields optional =>
    (∀ field ∈ fields ++ optional, isBindable field.1 = true) ∧
      ((fields ++ optional).map Prod.fst).Nodup
  | .sum type discriminant _ variants =>
    isIdentifier (type.baseName?.getD "") = true ∧ isIdentifier discriminant = true ∧
      (variants.map Prod.fst).Nodup
  | .custom name _ => isIdentifier name = true
  | _ => True

theorem checkBinding_eq_ok_iff {name context : String} {answer : Unit} :
    checkBinding name context = .ok answer ↔ isBindable name = true := by
  unfold checkBinding
  split <;> simp_all

theorem checkIdentifier_eq_ok_iff {name shown context : String} {answer : Unit} :
    checkIdentifier name shown context = .ok answer ↔ isIdentifier name = true := by
  unfold checkIdentifier
  split <;> simp_all

theorem checkNew_eq_ok_iff {seen : List String} {name : String} {problem : Problem}
    {answer : Unit} : checkNew seen name problem = .ok answer ↔ name ∉ seen := by
  unfold checkNew
  split <;> simp_all

theorem checkFields_eq_ok_iff {type : String} {seen result : List String}
    {fields : List (String × Schema)} :
    checkFields type seen fields = .ok result ↔
      (∀ field ∈ fields, isBindable field.1 = true ∧ field.2.check = .ok ()) ∧
        Fresh seen (fields.map Prod.fst) ∧ result = (fields.map Prod.fst).reverse ++ seen := by
  induction fields generalizing seen with
  | nil =>
      simp only [checkFields, Except.ok.injEq, List.not_mem_nil, false_implies, implies_true,
        List.map_nil, fresh_nil, List.reverse_nil, List.nil_append, true_and]
      exact eq_comm
  | cons field fields ih =>
      obtain ⟨name, schema⟩ := field
      simp only [checkFields, bind_eq_ok_iff, checkBinding_eq_ok_iff, checkNew_eq_ok_iff, ih]
      rw [List.forall_mem_cons, List.map_cons, fresh_cons, List.reverse_cons, List.append_assoc,
        List.singleton_append]
      constructor
      · rintro ⟨-, hname, -, hnew, ⟨⟩, hschema, hfields, hfresh, hresult⟩
        exact ⟨⟨⟨hname, hschema⟩, hfields⟩, ⟨hnew, hfresh⟩, hresult⟩
      · rintro ⟨⟨⟨hname, hschema⟩, hfields⟩, ⟨hnew, hfresh⟩, hresult⟩
        exact ⟨(), hname, (), hnew, (), hschema, hfields, hfresh, hresult⟩

theorem checkVariants_eq_ok_iff {type : String} {seen : List String}
    {variants : List (String × Schema)} {answer : Unit} :
    checkVariants type seen variants = .ok answer ↔
      (∀ variant ∈ variants, variant.2.check = .ok ()) ∧ Fresh seen (variants.map Prod.fst) := by
  induction variants generalizing seen with
  | nil => simp [checkVariants, fresh_nil]
  | cons variant variants ih =>
      obtain ⟨key, schema⟩ := variant
      simp only [checkVariants, bind_eq_ok_iff, checkNew_eq_ok_iff, ih]
      rw [List.forall_mem_cons, List.map_cons, fresh_cons]
      constructor
      · rintro ⟨-, hnew, ⟨⟩, hschema, hvariants, hfresh⟩
        exact ⟨⟨hschema, hvariants⟩, hnew, hfresh⟩
      · rintro ⟨⟨hschema, hvariants⟩, hnew, hfresh⟩
        exact ⟨(), hnew, (), hschema, hvariants, hfresh⟩

/-- A schema is legal if it keeps its own rule and its parts are legal. -/
theorem check_eq_ok_iff {schema : Schema} :
    schema.check = .ok () ↔ schema.Lawful ∧ ∀ part ∈ schema.parts, part.check = .ok () := by
  cases schema with
  | object type fields optional =>
      simp only [check, bind_eq_ok_iff, checkFields_eq_ok_iff, List.append_nil]
      -- both lists of fields are checked against the names met so far
      constructor
      · rintro ⟨_, ⟨hfields, hfresh, rfl⟩, _, ⟨hoptional, hfresh', rfl⟩, -⟩
        have hall := List.forall_mem_append.mpr ⟨hfields, hoptional⟩
        refine ⟨⟨fun field hfield => (hall field hfield).1, ?_⟩, ?_⟩
        · rw [List.map_append, ← fresh_nil_left, fresh_append, List.append_nil]
          exact ⟨hfresh, hfresh'⟩
        · exact List.forall_mem_map.mpr fun field hfield => (hall field hfield).2
      · rintro ⟨⟨hnames, hnodup⟩, hparts⟩
        rw [List.map_append, ← fresh_nil_left, fresh_append, List.append_nil] at hnodup
        have hchecks := List.forall_mem_map.mp hparts
        have hall : ∀ field ∈ fields ++ optional,
            isBindable field.1 = true ∧ field.2.check = .ok () :=
          fun field hfield => ⟨hnames field hfield, hchecks field hfield⟩
        obtain ⟨hfields, hoptional⟩ := List.forall_mem_append.mp hall
        exact ⟨_, ⟨hfields, hnodup.1, rfl⟩, _, ⟨hoptional, hnodup.2, rfl⟩, rfl⟩
  | mapping key value =>
      simp only [check, bind_eq_ok_iff, Lawful, parts, true_and, List.forall_mem_cons]
      constructor
      · rintro ⟨⟨⟩, hkey, hvalue⟩
        exact ⟨hkey, hvalue, by simp⟩
      · rintro ⟨hkey, hvalue, -⟩
        exact ⟨(), hkey, hvalue⟩
  | sum type discriminant discriminantType variants =>
      simp only [check, bind_eq_ok_iff, checkIdentifier_eq_ok_iff, checkVariants_eq_ok_iff,
        fresh_nil_left]
      constructor
      · rintro ⟨-, htype, -, hdiscriminant, hvariants, hnodup⟩
        exact ⟨⟨htype, hdiscriminant, hnodup⟩, List.forall_mem_map.mpr hvariants⟩
      · rintro ⟨⟨htype, hdiscriminant, hnodup⟩, hparts⟩
        exact ⟨(), htype, (), hdiscriminant, List.forall_mem_map.mp hparts, hnodup⟩
  | custom name types => simp [check, checkIdentifier_eq_ok_iff, Lawful, parts]
  | list element => simp [check, Lawful, parts]
  | _ => simp [check, Lawful, parts]

theorem check_of_within {inner whole : Schema} (h : Within inner whole)
    (hwhole : whole.check = .ok ()) : inner.check = .ok () := by
  induction h with
  | self => exact hwhole
  | part hpart _ ih => exact ih ((check_eq_ok_iff.mp hwhole).2 _ hpart)

/-- Everything within a legal schema keeps its rule. -/
theorem lawful_of_within {inner whole : Schema} (h : Within inner whole)
    (hwhole : whole.check = .ok ()) : inner.Lawful :=
  (check_eq_ok_iff.mp (check_of_within h hwhole)).1

end ValidatorGen.Schema
