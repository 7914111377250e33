import ValidatorGen.Proofs.Check.Refuse
import ValidatorGen.Proofs.Check.Run

/-!
# A sum answers as the variant that it picks

The validator of a sum looks at the discriminant twice: it first asks whether the text is one of the
keys, and then looks for a variant with that key.  `run_sum_dispatches` says that the two agree.
Where the text is a key, the sum answers as the first variant with that key, whether this accepts or
refuses; where it is none, the sum reports the keys; and without a text there it reports the value.
So the second search never fails, and no run ends with the refusal that is kept for this case.

## Strategy

The last part is about all schemas.  `Refusal.IsOwn` holds of the reasons that checkers give by
themselves.  A schema gives no others if custom validators give no others (`isOwn_of_runWith`), and
so by induction on the steps no run does.  The wordings of all these reasons begin with one of three
letters, and none of them is the first one of `unreachable` (`opens_message`).
-/

namespace ValidatorGen

/-- A reason that a checker gives, and not one from elsewhere. -/
def Refusal.IsOwn : Refusal → Prop
  | .unreachable => False
  | .stated _ => False
  | _ => True

/-- A text begins as the wordings of refusals do. -/
def Opens (text : String) : Prop := text.toList.head? ∈ [some 'C', some 'S', some 'n']

instance (text : String) : Decidable (Opens text) := inferInstanceAs (Decidable (_ ∈ _))

theorem Opens.append {text : String} (h : Opens text) (rest : String) : Opens (text ++ rest) := by
  unfold Opens at *
  cases hfirst : text.toList.head? with
  | none => simp [hfirst] at h
  | some c => rwa [String.toList_append, List.head?_append, hfirst, Option.some_or, ← hfirst]

theorem opens_message {reason : Refusal} (h : reason.IsOwn) : Opens reason.message := by
  -- every wording is a fixed phrase with more behind it
  cases reason with
  | unreachable => exact absurd h id
  | stated message => exact absurd h id
  | nullObject | undefinedObject => decide
  | elements refused => exact .append (by decide) _
  | keys reason | values reason => exact .append (by decide) _
  | notBool x | notNumber x | notString x | notArray x | notMapping x | notObject x =>
      exact .append (.append (by decide) _) _
  | unregistered name => exact .append (.append (by decide) _) _
  | field name reason | member name reason | discriminant name reason =>
      exact .append (.append (.append (by decide) _) _) _
  | notListed x listed => exact .append (.append (.append (by decide) _) _) _
  | noVariant x type => exact .append (.append (.append (by decide) _) _) _
  | notOfType x type => exact .append (.append (.append (.append (by decide) _) _) _) _
  | notText x type reason =>
      exact .append (.append (.append (.append (.append (by decide) _) _) _) _) _
  | notValue x type expected =>
      exact .append (.append (.append (.append (.append (.append (by decide) _) _) _) _) _) _

theorem message_ne_unreachable {reason : Refusal} (h : reason.IsOwn) :
    reason.message ≠ "unreachable" := by
  intro heq
  have hopens := opens_message h
  rw [heq] at hopens
  exact absurd hopens (by decide)

namespace Check

variable {named : Table Schema} {custom : String → Input → Run} {x : Input} {reason : Refusal}

/-! ## The reasons that runs give -/

theorem isOwn_of_scalar
    (h : bool x = .error reason ∨ number x = .error reason ∨ string x = .error reason) :
    reason.IsOwn := by
  unfold bool number string at h
  rcases h with h | h | h
  all_goals
    split at h <;> cases h
    trivial

theorem isOwn_of_constant {type : String} {expected : Json}
    (h : constant type expected x = .error reason) : reason.IsOwn := by
  unfold constant at h
  repeat' split at h
  all_goals cases h
  all_goals trivial

theorem isOwn_of_enumeration {type : FlowType} {values : List String}
    (h : enumeration type values x = .error reason) : reason.IsOwn := by
  unfold enumeration at h
  repeat' split at h
  all_goals cases h
  all_goals trivial

theorem isOwn_of_members? (h : members? x = .error reason) : reason.IsOwn := by
  unfold members? at h
  split at h <;> cases h
  all_goals trivial

theorem isOwn_of_list {element : Input → Run} (h : list element x = some (.error reason)) :
    reason.IsOwn := by
  unfold list at h
  split at h
  · obtain ⟨outcomes, -, h⟩ := Option.bind_eq_some_iff.mp h
    cases hcollect : collect outcomes with
    | ok values => simp [hcollect, Except.map] at h
    | error refusal =>
        rw [hcollect] at h
        cases h
        obtain ⟨-, rfl⟩ := collect_eq_error_iff.mp hcollect
        trivial
  · cases h
    trivial

theorem isOwn_of_mapping {key value : Input → Run}
    (h : mapping key value x = some (.error reason)) : reason.IsOwn := by
  unfold mapping at h
  split at h
  · cases h
    trivial
  · obtain ⟨keys, -, h⟩ := Option.bind_eq_some_iff.mp h
    split at h
    · cases h
      trivial
    · obtain ⟨values, -, h⟩ := Option.bind_eq_some_iff.mp h
      split at h <;> cases h
      trivial

/-- A schema gives no reasons but those of checkers, if custom validators do not. -/
theorem isOwn_of_runWith
    (hcustom : ∀ name y reason, custom name y = some (.error reason) → reason.IsOwn)
    (schema : Schema) : ∀ {x : Input} {reason : Refusal},
      runWith custom schema x = some (.error reason) → reason.IsOwn := by
  induction schema with
  | bool => exact fun h => isOwn_of_scalar (Or.inl (Option.some.inj h))
  | number => exact fun h => isOwn_of_scalar (Or.inr (Or.inl (Option.some.inj h)))
  | string => exact fun h => isOwn_of_scalar (Or.inr (Or.inr (Option.some.inj h)))
  | filePath => exact fun h => isOwn_of_scalar (Or.inr (Or.inr (Option.some.inj h)))
  | constant type value => exact fun h => isOwn_of_constant (Option.some.inj h)
  | enumeration type values => exact fun h => isOwn_of_enumeration (Option.some.inj h)
  | object type fields optional =>
      intro x reason h
      -- refused for want of members, or at a required or an optional field
      rcases runWith_object_eq_error_iff.mp h with
        hmembers | ⟨members, -, hfields | ⟨table, -, hfields⟩⟩
      · exact isOwn_of_members? hmembers
      · obtain ⟨before, field, after, reason, -, -, -, rfl⟩ := runFields_eq_error_iff.mp hfields
        trivial
      · obtain ⟨before, field, after, reason, -, -, -, rfl⟩ := runFields_eq_error_iff.mp hfields
        trivial
  | list element => exact fun h => isOwn_of_list h
  | mapping key value => exact fun h => isOwn_of_mapping h
  | sum type discriminant discriminantType variants ih =>
      intro x reason h
      cases htag : discriminant? discriminant x with
      | none =>
          rw [runWith_sum_of_none htag] at h
          cases h
          trivial
      | some tag =>
          cases hvariant : variants.find? (·.1 == tag) with
          | none =>
              rw [runWith_sum_of_notMem htag (find?_eq_none_iff_notMem.mp hvariant)] at h
              cases h
              trivial
          | some variant =>
              rw [runWith_sum_of_find? htag hvariant] at h
              exact ih variant (List.mem_of_find?_eq_some hvariant) h
  | custom name types => exact fun h => hcustom name _ _ h

theorem isOwn_of_resolve (steps : Nat) : ∀ (name : String) (x : Input) (reason : Refusal),
    resolve named steps name x = some (.error reason) → reason.IsOwn := by
  induction steps with
  | zero =>
      intro name x reason h
      unfold resolve at h
      split at h <;> cases h
      trivial
  | succ steps ih =>
      intro name x reason h
      cases hget : named.get? name with
      | none =>
          rw [resolve_of_get?_eq_none hget] at h
          cases h
          trivial
      | some schema =>
          rw [resolve_succ_of_get? hget] at h
          exact isOwn_of_runWith ih schema h

theorem isOwn_of_run {schema : Schema} (h : run named schema x = some (.error reason)) :
    reason.IsOwn :=
  isOwn_of_runWith (isOwn_of_resolve _) schema h

/-! ## Sums -/

/-- A sum answers as the first variant whose key is the text of its discriminant.  A text that is no
key is refused as the enumeration of the keys refuses it, and what has no text there is refused as a
whole.  There is no other refusal of a sum, and no run gives the one for a missing variant. -/
theorem run_sum_dispatches (named : Table Schema) (type : FlowType) (discriminant : String)
    (discriminantType : FlowType) (variants : List (String × Schema)) (x : Input) :
    (∀ members tag, x = some (.object members) →
      Table.get? members discriminant = some (.string tag) →
        (tag ∈ variants.map Prod.fst → ∃ before schema after,
          variants = before ++ (tag, schema) :: after ∧ tag ∉ before.map Prod.fst ∧
          run named (.sum type discriminant discriminantType variants) x = run named schema x) ∧
        (tag ∉ variants.map Prod.fst → ∃ reason refusal,
          run named (.enumeration discriminantType (variants.map Prod.fst)) (some (.string tag)) =
            some (.error reason) ∧
          run named (.sum type discriminant discriminantType variants) x =
            some (.error refusal) ∧
          refusal.message = "Sentinel field " ++ discriminant ++
            " could not deserialize properly: " ++ reason.message)) ∧
    ((∀ members tag, x = some (.object members) →
        Table.get? members discriminant ≠ some (.string tag)) →
      ∃ refusal, run named (.sum type discriminant discriminantType variants) x =
          some (.error refusal) ∧
        refusal.message = "Could not deserialize object into " ++ type.text ++ ": " ++
          x.jsonText) ∧
    ∀ (schema : Schema) (y : Input) (refusal : Refusal),
      run named schema y = some (.error refusal) → refusal.message ≠ "unreachable" := by
  refine ⟨fun members tag hx hmember => ?_, fun hnone => ?_, fun schema y refusal h => ?_⟩
  · have htag : discriminant? discriminant x = some tag :=
      discriminant?_eq_some_iff.mpr ⟨members, hx, hmember⟩
    refine ⟨fun hkey => ?_, fun hkey => ?_⟩
    · -- the variant that is run is the first one under the tag
      cases hvariant : variants.find? (·.1 == tag) with
      | none => exact absurd hkey (find?_eq_none_iff_notMem.mp hvariant)
      | some variant =>
          obtain ⟨hfound, before, after, hsplit, hbefore⟩ :=
            List.find?_eq_some_iff_append.mp hvariant
          have hfirst : before.find? (·.1 == tag) = none :=
            List.find?_eq_none.mpr (by simpa using hbefore)
          obtain rfl : variant.1 = tag := beq_iff_eq.mp hfound
          refine ⟨before, variant.2, after, hsplit, find?_eq_none_iff_notMem.mp hfirst, ?_⟩
          rw [← runWith_customs, runWith_sum_of_find? htag hvariant, runWith_customs]
    · refine ⟨_, .discriminant discriminant _, congrArg some (enumeration_of_notMem hkey), ?_, rfl⟩
      rw [← runWith_customs, runWith_sum_of_notMem htag hkey]
  · -- the input is no object, or has no text under the discriminant
    have htag : discriminant? discriminant x = none := by
      rw [Option.eq_none_iff_forall_not_mem]
      rintro tag htag
      obtain ⟨members, hx, hmember⟩ := discriminant?_eq_some_iff.mp htag
      exact hnone members tag hx hmember
    refine ⟨.noVariant x type, ?_, rfl⟩
    rw [← runWith_customs, runWith_sum_of_none htag]
  · exact message_ne_unreachable (isOwn_of_run h)

/-- Circles, which two variants describe, and dots. -/
def figureVariants : List (String × Schema) := [
  ("dot", .object (.named "Dot") [] []),
  ("circle", .object (.named "Circle") [("r", .number)] []),
  ("circle", .object (.named "Ellipse") [("a", .number), ("b", .number)] [])]

/-- A circle whose radius is no number. -/
def circleMembers : List (String × Json) := [("r", .null), ("kind", .string "circle")]

/-- The circle is refused as the first of the two variants refuses it. -/
theorem run_sum_dispatches_circle :
    Table.get? circleMembers "kind" = some (.string "circle") ∧
    "circle" ∈ figureVariants.map Prod.fst ∧
    ∃ before schema after, figureVariants = before ++ ("circle", schema) :: after ∧
      "circle" ∉ before.map Prod.fst ∧
      run [] (.sum (.named "Figure") "kind" (.named "FigureKind") figureVariants)
        (some (.object circleMembers)) = run [] schema (some (.object circleMembers)) := by
  have hmember : Table.get? circleMembers "kind" = some (.string "circle") := rfl
  have hkey : "circle" ∈ figureVariants.map Prod.fst := by decide
  have hdispatch := run_sum_dispatches [] (.named "Figure") "kind" (.named "FigureKind")
    figureVariants (some (.object circleMembers))
  exact ⟨hmember, hkey, (hdispatch.1 circleMembers "circle" rfl hmember).1 hkey⟩

end Check

end ValidatorGen
