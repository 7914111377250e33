import ValidatorGen.Proofs.Schema.Legality

/-!
# The first offence in a schema is reported

A schema is legal if everything within it keeps its rule (`Lawful`).  Otherwise `check` reports one
offence out of perhaps many.  `Offends` lists all of them with their places, whether or not `check`
would get there, and `IsFirst` picks the one that stands first in the order in which the schema is
written.  `check_reports_first` is the main statement: that is the one that is reported.

## Strategy

`Reports` says of an answer to any question that it fits the offences the question is about.  Two
questions asked in turn fit the offences of both if those of the first question stand before those
of the second one (`Reports.bind`), and that is all that is used of the order.  `reports_entry` puts
the questions about one field or variant together, with the names met so far and the number of the
entry left open, so that the induction on fields and on variants can take them further.
-/

namespace ValidatorGen.Schema

open Code

/-! ## Offences and their places -/

/-- A place in a schema: the numbers of the parts on the way to it.  Places compare
lexicographically, which is the order in which a schema is written. -/
abbrev Place := List Nat

/-- Everything in a schema that is not legal, with its place.  Fields are numbered through, the
required ones first; within a field or a variant comes its name (0), then the comparison of its name
with those before it (1), then its schema (2).  The type of a sum and its discriminant come before
the variants. -/
inductive Offends : Schema → Place → Problem → Prop where
  | fieldName {type : FlowType} {fields optional : List (String × Schema)} {index : Nat}
      {name : String} {schema : Schema} :
      (fields ++ optional)[index]? = some (name, schema) → isBindable name = false →
        Offends (.object type fields optional) [index, 0]
          (.invalidIdentifier name ("a field of `" ++ type.text ++ "`"))
  | repeatedField {type : FlowType} {fields optional : List (String × Schema)} {index : Nat}
      {name : String} {schema : Schema} :
      (fields ++ optional)[index]? = some (name, schema) →
      name ∈ ((fields ++ optional).take index).map Prod.fst →
        Offends (.object type fields optional) [index, 1] (.duplicateField type.text name)
  | field {type : FlowType} {fields optional : List (String × Schema)} {index : Nat}
      {name : String} {schema : Schema} {place : Place} {problem : Problem} :
      (fields ++ optional)[index]? = some (name, schema) → Offends schema place problem →
        Offends (.object type fields optional) (index :: 2 :: place) problem
  | element {element : Schema} {place : Place} {problem : Problem} :
      Offends element place problem → Offends (.list element) (0 :: place) problem
  | key {key value : Schema} {place : Place} {problem : Problem} :
      Offends key place problem → Offends (.mapping key value) (0 :: place) problem
  | value {key value : Schema} {place : Place} {problem : Problem} :
      Offends value place problem → Offends (.mapping key value) (1 :: place) problem
  | sumType {type : FlowType} {discriminant : String} {discriminantType : FlowType}
      {variants : List (String × Schema)} :
      (∀ base, type.baseName? = some base → isIdentifier base = false) →
        Offends (.sum type discriminant discriminantType variants) [0]
          (.invalidIdentifier type.text "a sum type name")
  | discriminant {type : FlowType} {discriminant : String} {discriminantType : FlowType}
      {variants : List (String × Schema)} :
      isIdentifier discriminant = false →
        Offends (.sum type discriminant discriminantType variants) [1]
          (.invalidIdentifier discriminant ("the discriminant of `" ++ type.text ++ "`"))
  | repeatedVariant {type : FlowType} {discriminant : String} {discriminantType : FlowType}
      {variants : List (String × Schema)} {index : Nat} {key : String} {schema : Schema} :
      variants[index]? = some (key, schema) → key ∈ (variants.take index).map Prod.fst →
        Offends (.sum type discriminant discriminantType variants) [index + 2, 1]
          (.duplicateVariant type.text key)
  | variant {type : FlowType} {discriminant : String} {discriminantType : FlowType}
      {variants : List (String × Schema)} {index : Nat} {key : String} {schema : Schema}
      {place : Place} {problem : Problem} :
      variants[index]? = some (key, schema) → Offends schema place problem →
        Offends (.sum type discriminant discriminantType variants) ((index + 2) :: 2 :: place)
          problem
  | custom {name : String} {types : List FlowType} :
      isIdentifier name = false →
        Offends (.custom name types) [] (.invalidIdentifier name "a custom import")

/-- A problem is the one that stands first. -/
def IsFirst (offends : Place → Problem → Prop) (problem : Problem) : Prop :=
  ∃ place, offends place problem ∧
    ∀ other found, offends other found → other = place ∧ found = problem ∨ place < other

theorem IsFirst.unique {offends : Place → Problem → Prop} {problem other : Problem}
    (h : IsFirst offends problem) (hother : IsFirst offends other) : problem = other := by
  obtain ⟨place, hoffends, hfirst⟩ := h
  obtain ⟨place', hoffends', hfirst'⟩ := hother
  rcases hfirst place' other hoffends' with ⟨-, rfl⟩ | hlt
  · rfl
  · rcases hfirst' place problem hoffends with ⟨-, rfl⟩ | hlt'
    · rfl
    · exact absurd hlt' (List.lt_asymm hlt)

/-! ## Answers that report the first offence -/

/-- An answer fits some offences if it is a good one where there are none, and reports the first one
where there are some. -/
def Reports {α : Type} (offends : Place → Problem → Prop) : Except Problem α → Prop
  | .ok _ => ∀ place problem, ¬offends place problem
  | .error problem => IsFirst offends problem

/-- Requires what a test has found out. -/
def ensure (c : Bool) (problem : Problem) : Except Problem Unit :=
  if c then .ok () else .error problem

namespace Reports

variable {α β : Type} {first later offends : Place → Problem → Prop}

theorem congr (h : ∀ place problem, first place problem ↔ later place problem)
    {answer : Except Problem α} (hanswer : Reports first answer) : Reports later answer := by
  have heq : first = later := funext fun place => funext fun problem => propext (h place problem)
  exact heq ▸ hanswer

/-- One question after another, about offences that stand one behind the other. -/
theorem bind {answer : Except Problem α} {next : α → Except Problem β}
    (hanswer : Reports first answer) (hnext : ∀ value, Reports later (next value))
    (hlt : ∀ place problem, first place problem →
      ∀ other found, later other found → place < other) :
    Reports (fun place problem => first place problem ∨ later place problem) (answer >>= next) := by
  cases answer with
  | ok value =>
      refine (hnext value).congr fun place problem => ?_
      exact (or_iff_right (hanswer place problem)).symm
  | error problem =>
      obtain ⟨place, hoffends, hfirst⟩ := hanswer
      refine ⟨place, Or.inl hoffends, fun other found hfound => ?_⟩
      rcases hfound with hfound | hfound
      · exact hfirst other found hfound
      · exact Or.inr (hlt place problem hoffends other found hfound)

/-- What follows a question and has no bad answer reports nothing. -/
theorem bind_ok {answer : Except Problem α} (hanswer : Reports offends answer) (f : α → β) :
    Reports offends (answer >>= fun value => .ok (f value)) := by
  cases answer with
  | ok value => exact hanswer
  | error problem => exact hanswer

/-- The offences of a part are offences of the whole, further down. -/
theorem descend {answer : Except Problem α} (hanswer : Reports offends answer) {way : Place → Place}
    (hway : ∀ place other, place < other → way place < way other) :
    Reports (fun place problem => ∃ rest, place = way rest ∧ offends rest problem) answer := by
  cases answer with
  | ok value =>
      rintro place problem ⟨rest, -, hoffends⟩
      exact hanswer rest problem hoffends
  | error problem =>
      obtain ⟨rest, hoffends, hfirst⟩ := hanswer
      refine ⟨way rest, ⟨rest, rfl, hoffends⟩, ?_⟩
      rintro _ found ⟨other, rfl, hfound⟩
      rcases hfirst other found hfound with ⟨rfl, rfl⟩ | hlt
      · exact Or.inl ⟨rfl, rfl⟩
      · exact Or.inr (hway rest other hlt)

/-- A question that is asked at one place. -/
theorem ensure (c : Bool) (here : Place) (problem : Problem) :
    Reports (fun place found => place = here ∧ found = problem ∧ c = false)
      (Schema.ensure c problem) := by
  cases c with
  | true =>
      rintro place found ⟨-, -, h⟩
      cases h
  | false => exact ⟨here, ⟨rfl, rfl, rfl⟩, fun other found h => Or.inl ⟨h.1, h.2.1⟩⟩

end Reports

/-! ## Fields and variants -/

/-- What a field or a variant does against the rules: its name is not allowed, its name stands
before it, or its schema is not legal. -/
def EntryOffends (allowed : String → Bool) (refused again : String → Problem) (before : List String)
    (number : Nat) (entry : String × Schema) (place : Place) (problem : Problem) : Prop :=
  (place = [number, 0] ∧ problem = refused entry.1 ∧ allowed entry.1 = false) ∨
  (place = [number, 1] ∧ problem = again entry.1 ∧ entry.1 ∈ before) ∨
  ∃ rest, place = number :: 2 :: rest ∧ Offends entry.2 rest problem

/-- What some of several entries do against the rules.  The names of those before them have been
seen, and the first of them has a given number. -/
def EntriesOffend (allowed : String → Bool) (refused again : String → Problem) (seen : List String)
    (first : Nat) (entries : List (String × Schema)) (place : Place) (problem : Problem) : Prop :=
  ∃ index entry, entries[index]? = some entry ∧
    EntryOffends allowed refused again (((entries.take index).map Prod.fst).reverse ++ seen)
      (first + index) entry place problem

/-- The questions about a field or a variant. -/
def askEntry (allowed : String → Bool) (refused again : String → Problem) (seen : List String)
    (entry : String × Schema) : Except Problem Unit := do
  ensure (allowed entry.1) (refused entry.1)
  checkNew seen entry.1 (again entry.1)
  entry.2.check

section

variable {allowed : String → Bool} {refused again : String → Problem} {seen : List String}
  {first : Nat} {entry : String × Schema} {entries : List (String × Schema)}

theorem exists_cons_of_entryOffends {place : Place} {problem : Problem}
    (h : EntryOffends allowed refused again seen first entry place problem) :
    ∃ rest, place = first :: rest := by
  rcases h with ⟨rfl, -⟩ | ⟨rfl, -⟩ | ⟨rest, rfl, -⟩ <;> exact ⟨_, rfl⟩

/-- Entries come behind every place with a lower number. -/
theorem lt_of_entriesOffend {number : Nat} (hnumber : number < first) (rest : Place)
    {place : Place} {problem : Problem}
    (h : EntriesOffend allowed refused again seen first entries place problem) :
    number :: rest < place := by
  obtain ⟨index, entry, -, h⟩ := h
  obtain ⟨rest', rfl⟩ := exists_cons_of_entryOffends h
  exact List.Lex.rel (Nat.lt_add_right index hnumber)

theorem reports_checkNew (name : String) (here : Place) (problem : Problem) :
    Reports (fun place found => place = here ∧ found = problem ∧ name ∈ seen)
      (checkNew seen name problem) := by
  have hanswer : checkNew seen name problem = ensure (!seen.contains name) problem := by
    unfold checkNew ensure
    cases seen.contains name <;> rfl
  rw [hanswer]
  refine (Reports.ensure _ here problem).congr fun place found => ?_
  rw [Bool.not_eq_false', List.contains_iff_mem]

theorem reports_askEntry (hentry : Reports (Offends entry.2) entry.2.check) (number : Nat) :
    Reports (EntryOffends allowed refused again seen number entry)
      (askEntry allowed refused again seen entry) := by
  refine Reports.congr (fun _ _ => Iff.rfl)
    (Reports.bind (Reports.ensure _ [number, 0] _) (fun _ => ?_) ?_)
  · refine Reports.bind (reports_checkNew _ [number, 1] _) (fun _ => ?_) ?_
    · exact hentry.descend fun _ _ hlt => .cons (.cons hlt)
    · rintro _ _ ⟨rfl, -⟩ _ _ ⟨rest, rfl, -⟩
      exact .cons (.rel Nat.one_lt_two)
  · rintro _ _ ⟨rfl, -⟩ _ _ (⟨rfl, -⟩ | ⟨rest, rfl, -⟩)
    · exact .cons (.rel Nat.zero_lt_one)
    · exact .cons (.rel Nat.zero_lt_two)

theorem entriesOffend_cons_iff {place : Place} {problem : Problem} :
    EntriesOffend allowed refused again seen first (entry :: entries) place problem ↔
      EntryOffends allowed refused again seen first entry place problem ∨
        EntriesOffend allowed refused again (entry.1 :: seen) (first + 1) entries place
          problem := by
  have hbefore (index : Nat) :
      (((entry :: entries).take (index + 1)).map Prod.fst).reverse ++ seen =
        ((entries.take index).map Prod.fst).reverse ++ entry.1 :: seen := by
    simp
  constructor
  · rintro ⟨index, other, hentry, h⟩
    -- the first entry offends, or one of the others, which counts from one later
    cases index with
    | zero =>
        cases hentry
        exact Or.inl h
    | succ index =>
        rw [hbefore, ← Nat.add_assoc, Nat.add_right_comm] at h
        exact Or.inr ⟨index, other, hentry, h⟩
  · rintro (h | ⟨index, other, hentry, h⟩)
    · exact ⟨0, entry, rfl, h⟩
    · rw [Nat.add_right_comm, Nat.add_assoc, ← hbefore] at h
      exact ⟨index + 1, other, hentry, h⟩

/-- The questions about an entry are followed by those about the entries behind it. -/
theorem Reports.cons {α : Type} {rest : Except Problem α}
    (hentry : Reports (Offends entry.2) entry.2.check)
    (hrest : Reports (EntriesOffend allowed refused again (entry.1 :: seen) (first + 1) entries)
      rest) :
    Reports (EntriesOffend allowed refused again seen first (entry :: entries))
      (askEntry allowed refused again seen entry >>= fun _ => rest) := by
  refine Reports.congr (fun _ _ => entriesOffend_cons_iff.symm) ?_
  refine (reports_askEntry hentry first).bind (fun _ => hrest) fun place problem h => ?_
  obtain ⟨way, rfl⟩ := exists_cons_of_entryOffends h
  exact fun _ _ hother => lt_of_entriesOffend (Nat.lt_succ_self first) way hother

end

/-- What the fields of an object do against the rules. -/
abbrev FieldsOffend (type : String) : List String → Nat → List (String × Schema) → Place →
    Problem → Prop :=
  EntriesOffend isBindable (fun name => .invalidIdentifier name ("a field of `" ++ type ++ "`"))
    (.duplicateField type)

/-- What the variants of a sum do against the rules.  Their keys may be any texts. -/
abbrev VariantsOffend (type : String) : List String → Nat → List (String × Schema) → Place →
    Problem → Prop :=
  EntriesOffend (fun _ => true) (.duplicateVariant type) (.duplicateVariant type)

theorem checkFields_cons (type : String) (seen : List String) (field : String × Schema)
    (fields : List (String × Schema)) :
    checkFields type seen (field :: fields) =
      askEntry isBindable (fun name => .invalidIdentifier name ("a field of `" ++ type ++ "`"))
        (.duplicateField type) seen field >>=
          fun _ => checkFields type (field.1 :: seen) fields := by
  obtain ⟨name, schema⟩ := field
  simp only [checkFields, askEntry, bind_assoc]
  rfl

theorem checkVariants_cons (type : String) (seen : List String) (variant : String × Schema)
    (variants : List (String × Schema)) :
    checkVariants type seen (variant :: variants) =
      askEntry (fun _ => true) (.duplicateVariant type) (.duplicateVariant type) seen variant >>=
        fun _ => checkVariants type (variant.1 :: seen) variants := by
  obtain ⟨key, schema⟩ := variant
  simp only [checkVariants, askEntry, bind_assoc]
  rfl

theorem reports_checkFields {type : String} {seen : List String} {first : Nat}
    {fields : List (String × Schema)}
    (h : ∀ field ∈ fields, Reports (Offends field.2) field.2.check) :
    Reports (FieldsOffend type seen first fields) (checkFields type seen fields) := by
  induction fields generalizing seen first with
  | nil =>
      rintro place problem ⟨index, entry, hentry, -⟩
      cases hentry
  | cons field fields ih =>
      rw [List.forall_mem_cons] at h
      rw [checkFields_cons]
      exact Reports.cons h.1 (ih h.2)

theorem reports_checkVariants {type : String} {seen : List String} {first : Nat}
    {variants : List (String × Schema)}
    (h : ∀ variant ∈ variants, Reports (Offends variant.2) variant.2.check) :
    Reports (VariantsOffend type seen first variants) (checkVariants type seen variants) := by
  induction variants generalizing seen first with
  | nil =>
      rintro place problem ⟨index, entry, hentry, -⟩
      cases hentry
  | cons variant variants ih =>
      rw [List.forall_mem_cons] at h
      rw [checkVariants_cons]
      exact Reports.cons h.1 (ih h.2)

theorem checkFields_append (type : String) (seen : List String)
    (fields optional : List (String × Schema)) :
    checkFields type seen (fields ++ optional) =
      checkFields type seen fields >>= fun seen => checkFields type seen optional := by
  induction fields generalizing seen with
  | nil => rfl
  | cons field fields ih =>
      rw [List.cons_append, checkFields_cons, checkFields_cons, bind_assoc]
      exact congrArg _ (funext fun _ => ih _)

/-! ## All schemas -/

theorem offends_object_iff {type : FlowType} {fields optional : List (String × Schema)}
    {place : Place} {problem : Problem} :
    Offends (.object type fields optional) place problem ↔
      FieldsOffend type.text [] 0 (fields ++ optional) place problem := by
  unfold FieldsOffend EntriesOffend EntryOffends
  constructor
  · rintro (⟨hfield, hname⟩ | ⟨hfield, hname⟩ | ⟨hfield, hschema⟩)
    · exact ⟨_, _, hfield, Or.inl ⟨by simp, rfl, hname⟩⟩
    · exact ⟨_, _, hfield, Or.inr (Or.inl ⟨by simp, rfl, by simpa using hname⟩)⟩
    · exact ⟨_, _, hfield, Or.inr (Or.inr ⟨_, by simp, hschema⟩)⟩
  · rintro ⟨index, ⟨name, schema⟩, hfield, h⟩
    rw [Nat.zero_add] at h
    rcases h with ⟨rfl, rfl, hname⟩ | ⟨rfl, rfl, hname⟩ | ⟨rest, rfl, hschema⟩
    · exact .fieldName hfield hname
    · exact .repeatedField hfield (by simpa using hname)
    · exact .field hfield hschema

theorem offends_sum_iff {type : FlowType} {discriminant : String} {discriminantType : FlowType}
    {variants : List (String × Schema)} {place : Place} {problem : Problem} :
    Offends (.sum type discriminant discriminantType variants) place problem ↔
      (place = [0] ∧ problem = .invalidIdentifier type.text "a sum type name" ∧
        isIdentifier (type.baseName?.getD "") = false) ∨
      (place = [1] ∧ problem =
          .invalidIdentifier discriminant ("the discriminant of `" ++ type.text ++ "`") ∧
        isIdentifier discriminant = false) ∨
      VariantsOffend type.text [] 2 variants place problem := by
  have hbase : isIdentifier (type.baseName?.getD "") = false ↔
      ∀ base, type.baseName? = some base → isIdentifier base = false := by
    cases type.baseName? with
    | none => simp [isIdentifier]
    | some base => simp
  rw [hbase]
  unfold VariantsOffend EntriesOffend EntryOffends
  constructor
  · -- only the last four constructors speak of a sum
    rintro (_ | _ | _ | _ | _ | _ | hname | hname | ⟨hvariant, hkey⟩ | ⟨hvariant, hschema⟩)
    · exact Or.inl ⟨rfl, rfl, hname⟩
    · exact Or.inr (Or.inl ⟨rfl, rfl, hname⟩)
    · refine Or.inr (Or.inr ⟨_, _, hvariant, Or.inr (Or.inl ⟨?_, rfl, by simpa using hkey⟩)⟩)
      rw [Nat.add_comm]
    · refine Or.inr (Or.inr ⟨_, _, hvariant, Or.inr (Or.inr ⟨_, ?_, hschema⟩)⟩)
      rw [Nat.add_comm]
  · rintro (⟨rfl, rfl, hname⟩ | ⟨rfl, rfl, hname⟩ | ⟨index, ⟨key, schema⟩, hvariant, h⟩)
    · exact .sumType hname
    · exact .discriminant hname
    · rw [Nat.add_comm] at h
      rcases h with ⟨-, -, hkey⟩ | ⟨rfl, rfl, hkey⟩ | ⟨rest, rfl, hschema⟩
      · cases hkey
      · exact .repeatedVariant hvariant (by simpa using hkey)
      · exact .variant hvariant hschema

theorem offends_list_iff {element : Schema} {place : Place} {problem : Problem} :
    Offends (.list element) place problem ↔
      ∃ rest, place = 0 :: rest ∧ Offends element rest problem := by
  constructor
  · rintro (_ | _ | _ | hoffends)
    exact ⟨_, rfl, hoffends⟩
  · rintro ⟨rest, rfl, hoffends⟩
    exact .element hoffends

theorem offends_mapping_iff {key value : Schema} {place : Place} {problem : Problem} :
    Offends (.mapping key value) place problem ↔
      (∃ rest, place = 0 :: rest ∧ Offends key rest problem) ∨
        ∃ rest, place = 1 :: rest ∧ Offends value rest problem := by
  constructor
  · rintro (_ | _ | _ | _ | hoffends | hoffends)
    · exact Or.inl ⟨_, rfl, hoffends⟩
    · exact Or.inr ⟨_, rfl, hoffends⟩
  · rintro (⟨rest, rfl, hoffends⟩ | ⟨rest, rfl, hoffends⟩)
    · exact .key hoffends
    · exact .value hoffends

theorem offends_custom_iff {name : String} {types : List FlowType} {place : Place}
    {problem : Problem} :
    Offends (.custom name types) place problem ↔
      place = [] ∧ problem = .invalidIdentifier name "a custom import" ∧
        isIdentifier name = false := by
  constructor
  · intro h
    cases h with
    | custom hname => exact ⟨rfl, rfl, hname⟩
  · rintro ⟨rfl, rfl, hname⟩
    exact .custom hname

theorem reports_object {type : FlowType} {fields optional : List (String × Schema)}
    (h : ∀ field ∈ fields ++ optional, Reports (Offends field.2) field.2.check) :
    Reports (Offends (.object type fields optional)) (check (.object type fields optional)) := by
  have hcheck : check (.object type fields optional) =
      checkFields type.text [] (fields ++ optional) >>= fun _ => .ok () := by
    rw [checkFields_append, bind_assoc, check]
    rfl
  rw [hcheck]
  exact ((reports_checkFields h).bind_ok fun _ => ()).congr fun _ _ => offends_object_iff.symm

theorem reports_sum {type : FlowType} {discriminant : String} {discriminantType : FlowType}
    {variants : List (String × Schema)}
    (h : ∀ variant ∈ variants, Reports (Offends variant.2) variant.2.check) :
    Reports (Offends (.sum type discriminant discriminantType variants))
      (check (.sum type discriminant discriminantType variants)) := by
  refine Reports.congr (fun _ _ => offends_sum_iff.symm) ?_
  rw [check]
  refine Reports.bind (Reports.ensure _ [0] _) (fun _ => ?_) ?_
  · refine Reports.bind (Reports.ensure _ [1] _) (fun _ => reports_checkVariants h) ?_
    rintro _ _ ⟨rfl, -⟩ _ _ hother
    exact lt_of_entriesOffend (by decide) [] hother
  · rintro _ _ ⟨rfl, -⟩ _ _ (⟨rfl, -⟩ | hother)
    · exact List.Lex.rel Nat.zero_lt_one
    · exact lt_of_entriesOffend (by decide) [] hother

theorem reports_mapping {key value : Schema} (hkey : Reports (Offends key) key.check)
    (hvalue : Reports (Offends value) value.check) :
    Reports (Offends (.mapping key value)) (check (.mapping key value)) := by
  refine Reports.congr (fun _ _ => offends_mapping_iff.symm) ?_
  rw [check]
  refine (hkey.descend fun _ _ => List.Lex.cons).bind
    (fun _ => hvalue.descend fun _ _ => List.Lex.cons) ?_
  rintro _ _ ⟨_, rfl, -⟩ _ _ ⟨_, rfl, -⟩
  exact List.Lex.rel Nat.zero_lt_one

/-- Every schema is either legal or has a first offence, which is the one that is reported. -/
theorem reports_check (schema : Schema) : Reports (Offends schema) schema.check := by
  induction schema with
  | object type fields optional ihfields ihoptional =>
      exact reports_object (List.forall_mem_append.mpr ⟨ihfields, ihoptional⟩)
  | list element ih =>
      exact (ih.descend fun _ _ => List.Lex.cons).congr fun _ _ => offends_list_iff.symm
  | mapping key value ihkey ihvalue => exact reports_mapping ihkey ihvalue
  | sum type discriminant discriminantType variants ih => exact reports_sum ih
  | custom name types =>
      exact (Reports.ensure _ [] _).congr fun _ _ => offends_custom_iff.symm
  | _ => exact fun place problem h => nomatch h

theorem check_eq_ok_iff_within (schema : Schema) :
    schema.check = .ok () ↔ ∀ inner, Within inner schema → inner.Lawful := by
  refine ⟨fun hlegal inner hinner => lawful_of_within hinner hlegal, fun h => ?_⟩
  induction schema using induct_parts with
  | h schema ih =>
      refine check_eq_ok_iff.mpr ⟨h schema (.self schema), fun part hpart => ?_⟩
      exact ih part hpart fun inner hinner => h inner (.part hpart hinner)

/-- A schema is legal exactly if everything within it keeps its rule, and otherwise the offence that
stands first is reported. -/
theorem check_reports_first (schema : Schema) :
    (schema.check = .ok () ↔ ∀ inner, Within inner schema → inner.Lawful) ∧
      ∀ problem, schema.check = .error problem ↔ IsFirst (Offends schema) problem := by
  refine ⟨check_eq_ok_iff_within schema, fun problem => ?_⟩
  have hreports := reports_check schema
  cases hanswer : schema.check with
  | ok =>
      rw [hanswer] at hreports
      refine iff_of_false nofun ?_
      rintro ⟨place, hoffends, -⟩
      exact hreports place problem hoffends
  | error found =>
      rw [hanswer] at hreports
      constructor
      · intro h
        exact Except.error.inj h ▸ hreports
      · intro hfirst
        exact congrArg Except.error (IsFirst.unique hreports hfirst)

-- an optional field repeats a required one, but what is wrong within the required one comes first
example :
    check (.object (.named "Node") [("next", .list (.custom "de-Node" []))] [("next", .bool)]) =
      .error (.invalidIdentifier "de-Node" "a custom import") := by decide

end ValidatorGen.Schema
