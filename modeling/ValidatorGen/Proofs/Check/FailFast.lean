import ValidatorGen.Proofs.Check.Idempotent
import ValidatorGen.Proofs.Check.Refuse

/-!
# An object is refused for the first of its fields

The validator of an object goes through its fields in the order of their declaration, the required
ones first, and stops at the first field that is refused.  `run_object_fails_fast` says what comes
out where no two fields have one name.  The object is accepted exactly if all fields are that are
checked (`checked`), and then it keeps one member for each of these.  Otherwise the refusal names
the first field that fails (`FailsFirst`), and nothing behind this field has any part in it.

## Strategy

`Refuse` says for each of the two loops which field ends it.  Since an optional field is not
required as well, the two statements together are about one list of fields, the required and then
the optional ones (`run_object_eq_error_iff`).  `FailsFirst` looks at no member but those of the
fields up to the one that fails, so it carries over to every object that agrees there
(`FailsFirst.of_agreesOn`), and with it the refusal.
-/

namespace ValidatorGen.Check

/-- The fields that are checked, in their order: the required ones, and then those of the optional
ones whose member is neither absent nor null. -/
def checked (fields optional : List (String × Schema)) (members : List (String × Json)) :
    List (String × Schema) :=
  fields ++ optional.filter fun field => !isAbsent (Table.get? members field.1)

/-- A field is the first that fails, for a reason of its own; `before` are the fields declared
before it. -/
structure FailsFirst (named : Table Schema) (fields optional : List (String × Schema))
    (members : List (String × Json)) (before : List (String × Schema)) (field : String × Schema)
    (reason : Refusal) : Prop where
  declared : ∃ after, fields ++ optional = before ++ field :: after
  accepts : ∀ earlier ∈ before, earlier ∈ checked fields optional members →
    ∃ value, run named earlier.2 (Table.get? members earlier.1) = some (.ok value)
  isChecked : field ∈ checked fields optional members
  refuses : run named field.2 (Table.get? members field.1) = some (.error reason)

/-- Two objects have the same members under the names of some fields. -/
def AgreesOn (fields : List (String × Schema)) (members others : List (String × Json)) : Prop :=
  ∀ field ∈ fields, Table.get? others field.1 = Table.get? members field.1

variable {named : Table Schema} {custom : String → Input → Run} {type : FlowType}
  {fields optional before : List (String × Schema)} {members others : List (String × Json)}
  {field : String × Schema} {reason refusal : Refusal}

theorem mem_checked_iff : field ∈ checked fields optional members ↔
    field ∈ fields ∨ field ∈ optional ∧ isAbsent (Table.get? members field.1) = false := by
  rw [checked, List.mem_append, List.mem_filter, Bool.not_eq_true']

/-! ## Both loops together -/

theorem passes_iff {isOptional : Bool} : Passes (customs named) isOptional members field ↔
    ((isOptional && isAbsent (Table.get? members field.1)) = false →
      ∃ value, run named field.2 (Table.get? members field.1) = some (.ok value)) := by
  rw [Passes, runWith_customs, or_iff_not_imp_left, Bool.not_eq_true]

/-- What refuses an object is its first field that fails. -/
theorem exists_failsFirst_of_run
    (h : run named (.object type fields optional) (some (.object members)) =
      some (.error refusal)) :
    ∃ before field reason, FailsFirst named fields optional members before field reason ∧
      refusal = .member field.1 (.field field.1 reason) := by
  rw [← runWith_customs] at h
  rcases runWith_object_eq_error_iff.mp h with hmembers | ⟨_, hmembers, h⟩
  · cases hmembers
  cases hmembers
  rcases h with hfields | ⟨table, hfields, hoptional⟩
  · obtain ⟨before, field, after, reason, rfl, hbefore, hfield, rfl⟩ :=
      runFields_eq_error_iff.mp hfields
    refine ⟨before, field, reason, ⟨⟨after ++ optional, by simp⟩, fun earlier hearlier _ => ?_,
      ?_, ?_⟩, rfl⟩
    · exact passes_iff.mp (hbefore earlier hearlier) rfl
    · exact mem_checked_iff.mpr (Or.inl (by simp))
    · rw [← runWith_customs, hfield.refused]
  · obtain ⟨before, field, after, reason, rfl, hbefore, hfield, rfl⟩ :=
      runFields_eq_error_iff.mp hoptional
    -- the required fields have all been accepted when the first optional one is reached
    obtain ⟨values, hvalues, -⟩ := runFields_eq_ok_iff.mp hfields
    rw [lookedAt_false] at hvalues
    have haccepts := exists_forall₂_iff.mp ⟨values, hvalues⟩
    refine ⟨fields ++ before, field, reason, ⟨⟨after, by simp⟩, fun earlier hearlier hchecked => ?_,
      ?_, ?_⟩, rfl⟩
    · rcases List.mem_append.mp hearlier with hearlier | hearlier
      · simpa using haccepts earlier hearlier
      · rcases mem_checked_iff.mp hchecked with hrequired | ⟨-, hpresent⟩
        · simpa using haccepts earlier hrequired
        · exact passes_iff.mp (hbefore earlier hearlier) hpresent
    · exact mem_checked_iff.mpr (Or.inr ⟨by simp, hfield.lookedAt⟩)
    · rw [← runWith_customs, hfield.refused]

/-- The first field that fails refuses its object. -/
theorem FailsFirst.run_object (hnames : ((fields ++ optional).map Prod.fst).Nodup)
    (h : FailsFirst named fields optional members before field reason) (type : FlowType) :
    run named (.object type fields optional) (some (.object members)) =
      some (.error (.member field.1 (.field field.1 reason))) := by
  obtain ⟨after, hdeclared⟩ := h.declared
  have hrefused : runWith (customs named) field.2 (Table.get? members field.1) =
      some (.error reason) := by rw [runWith_customs, h.refuses]
  rw [← runWith_customs]
  refine runWith_object_eq_error_iff.mpr (Or.inr ⟨members, rfl, ?_⟩)
  rcases append_eq_append_cons hdeclared with ⟨rest, rfl⟩ | ⟨middle, rfl, rfl⟩
  · -- the failing field is a required one
    refine Or.inl (runFields_eq_error_iff.mpr ⟨before, field, rest, reason, rfl, ?_, ?_, rfl⟩)
    · intro earlier hearlier
      have hchecked : earlier ∈ checked (before ++ field :: rest) optional members :=
        mem_checked_iff.mpr (Or.inl (List.mem_append_left _ hearlier))
      exact passes_iff.mpr fun _ => h.accepts earlier hearlier hchecked
    · exact ⟨rfl, hrefused⟩
  · -- the failing field is optional, so all required ones have been accepted
    have hfields : ∀ required ∈ lookedAt false members fields, ∃ value,
        runWith (customs named) required.2 (Table.get? members required.1) = some (.ok value) := by
      intro required hrequired
      rw [lookedAt_false] at hrequired
      rw [runWith_customs]
      exact h.accepts required (List.mem_append_left _ hrequired)
        (mem_checked_iff.mpr (Or.inl hrequired))
    obtain ⟨values, hvalues⟩ := exists_forall₂_iff.mpr hfields
    refine Or.inr ⟨_, runFields_eq_ok_iff.mpr ⟨values, hvalues, rfl⟩,
      runFields_eq_error_iff.mpr ⟨middle, field, after, reason, rfl, ?_, ?_, rfl⟩⟩
    · intro earlier hearlier
      refine passes_iff.mpr fun hpresent => ?_
      exact h.accepts earlier (List.mem_append_right _ hearlier)
        (mem_checked_iff.mpr (Or.inr ⟨List.mem_append_left _ hearlier, hpresent⟩))
    · -- an optional field is not required, so it is checked because it is present
      refine ⟨?_, hrefused⟩
      rcases mem_checked_iff.mp h.isChecked with hrequired | ⟨-, hpresent⟩
      · rw [List.map_append, List.nodup_append] at hnames
        exact absurd rfl (hnames.2.2 field.1 (List.mem_map_of_mem hrequired) field.1
          (List.mem_map_of_mem (by simp)))
      · exact hpresent

/-- An object is refused for its first field that fails. -/
theorem run_object_eq_error_iff (hnames : ((fields ++ optional).map Prod.fst).Nodup) :
    run named (.object type fields optional) (some (.object members)) = some (.error refusal) ↔
      ∃ before field reason, FailsFirst named fields optional members before field reason ∧
        refusal = .member field.1 (.field field.1 reason) := by
  constructor
  · exact exists_failsFirst_of_run
  · rintro ⟨before, field, reason, hfails, rfl⟩
    exact hfails.run_object hnames type

theorem forall₂_entry_iff {kept : List (String × Json)} :
    List.Forall₂ (fun field entry => entry.1 = field.1 ∧
      run named field.2 (Table.get? members field.1) = some (.ok entry.2)) fields kept ↔
        ∃ values, FieldsAccept (customs named) members fields values ∧
          kept = (fields.map Prod.fst).zip values := by
  simp only [FieldsAccept, runWith_customs]
  induction fields generalizing kept with
  | nil => simp
  | cons field fields ih =>
      rw [List.forall₂_cons_left_iff]
      constructor
      · rintro ⟨entry, rest, ⟨hname, hvalue⟩, hrest, rfl⟩
        obtain ⟨values, hvalues, rfl⟩ := ih.mp hrest
        refine ⟨entry.2 :: values, .cons hvalue hvalues, ?_⟩
        rw [List.map_cons, List.zip_cons_cons, ← hname]
      · rintro ⟨results, hresults, rfl⟩
        obtain ⟨value, values, hvalue, hvalues, rfl⟩ := List.forall₂_cons_left_iff.mp hresults
        exact ⟨(field.1, value), _, ⟨rfl, hvalue⟩, ih.mpr ⟨values, hvalues, rfl⟩, rfl⟩

/-- An object is accepted if all of its fields are that are checked, and keeps their members. -/
theorem run_object_eq_ok_iff (hnames : ((fields ++ optional).map Prod.fst).Nodup) {value : Json} :
    run named (.object type fields optional) (some (.object members)) = some (.ok value) ↔
      ∃ kept, value = .object kept ∧ List.Forall₂ (fun field entry => entry.1 = field.1 ∧
        run named field.2 (Table.get? members field.1) = some (.ok entry.2))
          (checked fields optional members) kept := by
  have hlooked : ((checked fields optional members).map Prod.fst).Nodup :=
    nodup_lookedAt hnames members
  rw [← runWith_customs, runWith_object_eq_ok_iff]
  constructor
  · rintro ⟨_, values, hmembers, hvalues, rfl⟩
    cases hmembers
    exact ⟨_, rfl, forall₂_entry_iff.mpr
      ⟨values, hvalues, setFields_eq_zip hlooked hvalues.length_eq⟩⟩
  · rintro ⟨kept, rfl, hkept⟩
    obtain ⟨values, hvalues, rfl⟩ := forall₂_entry_iff.mp hkept
    exact ⟨members, values, rfl, hvalues,
      congrArg Json.object (setFields_eq_zip hlooked hvalues.length_eq).symm⟩

/-! ## What a run does not look at -/

theorem FailsFirst.of_agreesOn
    (h : FailsFirst named fields optional members before field reason)
    (hagree : AgreesOn (before ++ [field]) members others) :
    FailsFirst named fields optional others before field reason where
  declared := h.declared
  accepts earlier hearlier hchecked := by
    have hget := hagree earlier (List.mem_append_left _ hearlier)
    rw [mem_checked_iff, hget, ← mem_checked_iff] at hchecked
    rw [hget]
    exact h.accepts earlier hearlier hchecked
  isChecked := by
    rw [mem_checked_iff, hagree field (by simp), ← mem_checked_iff]
    exact h.isChecked
  refuses := by
    rw [hagree field (by simp)]
    exact h.refuses

theorem runFields_of_agreesOn {isOptional : Bool} {result : Table Json}
    (hagree : AgreesOn fields members others) :
    runFields custom isOptional others fields result =
      runFields custom isOptional members fields result := by
  induction fields generalizing result with
  | nil => rfl
  | cons field fields ih =>
      obtain ⟨hfield, hfields⟩ := List.forall_mem_cons.mp hagree
      obtain ⟨name, schema⟩ := field
      simp only [runFields, hfield, ih hfields]

theorem run_object_of_agreesOn (hagree : AgreesOn (fields ++ optional) members others) :
    run named (.object type fields optional) (some (.object others)) =
      run named (.object type fields optional) (some (.object members)) := by
  rw [← runWith_customs, ← runWith_customs]
  have hfields : AgreesOn fields members others :=
    fun field hfield => hagree field (List.mem_append_left _ hfield)
  have hoptional : AgreesOn optional members others :=
    fun field hfield => hagree field (List.mem_append_right _ hfield)
  simp only [runWith, members?, runFields_of_agreesOn hfields, runFields_of_agreesOn hoptional]

/-! ## Any object -/

/-- An object whose run comes to an end is accepted exactly if its checked fields are.  It then has
all members that are required, and keeps one member for each field that was checked.  Otherwise the
first field that fails is reported, and the members of the fields behind it do not matter; nor do
those of any other names.  No schema accepts a member that is absent. -/
theorem run_object_fails_fast (hnames : ((fields ++ optional).map Prod.fst).Nodup)
    {outcome : Outcome}
    (hrun : run named (.object type fields optional) (some (.object members)) = some outcome) :
    ((∃ value, outcome = .ok value) ↔ ∀ field ∈ checked fields optional members,
      ∃ value, run named field.2 (Table.get? members field.1) = some (.ok value)) ∧
    (∀ value, outcome = .ok value → (∀ field ∈ fields, field.1 ∈ members.map Prod.fst) ∧
      ∃ kept, value = .object kept ∧ List.Forall₂ (fun field entry => entry.1 = field.1 ∧
        run named field.2 (Table.get? members field.1) = some (.ok entry.2))
          (checked fields optional members) kept) ∧
    (∀ refusal, outcome = .error refusal → ∃ before field reason,
      FailsFirst named fields optional members before field reason ∧
      refusal.message = "Could not deserialize field \"" ++ field.1 ++ "\": " ++
        ("Could not deserialize field " ++ field.1 ++ ": " ++ reason.message) ∧
      ∀ others, AgreesOn (before ++ [field]) members others →
        run named (.object type fields optional) (some (.object others)) = some outcome) ∧
    (∀ others, AgreesOn (fields ++ optional) members others →
      run named (.object type fields optional) (some (.object others)) = some outcome) ∧
    ∀ (schema : Schema) (value : Json), run named schema none ≠ some (.ok value) := by
  have habsent (schema : Schema) (value : Json) : run named schema none ≠ some (.ok value) :=
    fun h => not_conforms_none schema (conforms_of_run h)
  refine ⟨⟨?_, fun haccepts => ?_⟩, ?_, ?_, ?_, habsent⟩
  · rintro ⟨value, rfl⟩
    intro field hfield
    obtain ⟨kept, -, hkept⟩ := (run_object_eq_ok_iff hnames).mp hrun
    obtain ⟨entry, -, -, hvalue⟩ := exists_mem_of_forall₂ hkept hfield
    exact ⟨entry.2, hvalue⟩
  · cases outcome with
    | ok value => exact ⟨value, rfl⟩
    | error refusal =>
        obtain ⟨before, field, reason, hfails, -⟩ := (run_object_eq_error_iff hnames).mp hrun
        obtain ⟨value, hvalue⟩ := haccepts field hfails.isChecked
        cases hfails.refuses.symm.trans hvalue
  · -- what is accepted is returned field by field, and no field accepts what is missing
    rintro value rfl
    obtain ⟨kept, rfl, hkept⟩ := (run_object_eq_ok_iff hnames).mp hrun
    refine ⟨fun field hfield => ?_, kept, rfl, hkept⟩
    obtain ⟨entry, -, -, hvalue⟩ :=
      exists_mem_of_forall₂ hkept (mem_checked_iff.mpr (Or.inl hfield))
    by_contra hmissing
    rw [Table.get?_eq_none_iff.mpr hmissing] at hvalue
    exact habsent field.2 entry.2 hvalue
  · -- what stands behind the failing field is not looked at
    rintro refusal rfl
    obtain ⟨before, field, reason, hfails, rfl⟩ := (run_object_eq_error_iff hnames).mp hrun
    have hmessage : (Refusal.member field.1 (.field field.1 reason)).message =
        "Could not deserialize field \"" ++ field.1 ++ "\": " ++
          ("Could not deserialize field " ++ field.1 ++ ": " ++ reason.message) := rfl
    exact ⟨before, field, reason, hfails, hmessage, fun others hagree =>
      (hfails.of_agreesOn hagree).run_object hnames type⟩
  · intro others hagree
    rw [run_object_of_agreesOn hagree, hrun]

/-- Notes, whose title and owner are required; an owner is described elsewhere. -/
def noteFields : List (String × Schema) := [("title", .string), ("owner", .custom "deOwner" [])]

/-- A note may have tags and a size. -/
def noteOptional : List (String × Schema) := [("tags", .list .string), ("size", .number)]

/-- A note without an owner whose size is no number either. -/
def noteMembers : List (String × Json) :=
  [("size", .bool true), ("tags", .null), ("title", .string "to do")]

/-- The note is refused for its owner, who has been looked for in vain, and not for its size. -/
theorem run_object_fails_fast_note :
    ((noteFields ++ noteOptional).map Prod.fst).Nodup ∧
    run [("deOwner", .string)] (.object (.named "Note") noteFields noteOptional)
        (some (.object noteMembers)) =
      some (.error (.member "owner" (.field "owner" (.notString none)))) ∧
    ∃ before field reason, FailsFirst [("deOwner", .string)] noteFields noteOptional noteMembers
        before field reason ∧
      (Refusal.member "owner" (.field "owner" (.notString none))).message =
        "Could not deserialize field \"" ++ field.1 ++ "\": " ++
          ("Could not deserialize field " ++ field.1 ++ ": " ++ reason.message) ∧
      ∀ others, AgreesOn (before ++ [field]) noteMembers others →
        run [("deOwner", .string)] (.object (.named "Note") noteFields noteOptional)
            (some (.object others)) =
          some (.error (.member "owner" (.field "owner" (.notString none)))) := by
  have hnames : ((noteFields ++ noteOptional).map Prod.fst).Nodup := by decide
  have hrun : run [("deOwner", .string)] (.object (.named "Note") noteFields noteOptional)
        (some (.object noteMembers)) =
      some (.error (.member "owner" (.field "owner" (.notString none)))) := rfl
  obtain ⟨-, -, hfails, -⟩ := run_object_fails_fast hnames hrun
  exact ⟨hnames, hrun, hfails _ rfl⟩

end ValidatorGen.Check
