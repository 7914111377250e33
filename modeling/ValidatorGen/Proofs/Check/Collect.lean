import ValidatorGen.Proofs.Check.Refuse

/-!
# Lists and mappings report all that is refused

The checkers of lists and mappings look at every element before they answer.  With validators that
always answer, `checkers_collect_refusals` says what they answer: a list is accepted exactly if all
of its elements are, and otherwise the message has one line for each element that is refused, in
their order and with their indices (`collectMessage`).  A mapping collects its keys in this way
first, and its values if all keys are accepted.  What it returns in the end has the names of the
accepted keys in the order in which they first appear, each with the last of its values.

## Strategy

`refused` counts the outcomes while it drops some of them, so the induction on the outcomes is for
any index that they may be numbered from (`elementMessages_refused`).  Reading pairs into a table is
a fold from the left, so what it makes of names and values is proved by induction from the right
(`Table.names_ofPairs`, `Table.get?_ofPairs`).
-/

namespace ValidatorGen

/-! ## Tables that are read from pairs -/

namespace Table

variable {α : Type}

theorem ofPairs_append_singleton (pairs : List (String × α)) (pair : String × α) :
    ofPairs (pairs ++ [pair]) = (ofPairs pairs).set pair.1 pair.2 := by
  rw [ofPairs, List.foldl_append]
  rfl

/-- The names that are read from pairs stand where they first appear. -/
theorem names_ofPairs (pairs : List (String × α)) :
    (ofPairs pairs).names = (pairs.map Prod.fst).eraseDups := by
  induction pairs using List.reverseRecOn with
  | nil => rfl
  | append_singleton pairs pair ih =>
      have hmem : pair.1 ∈ (ofPairs pairs).names ↔ pair.1 ∈ pairs.map Prod.fst := by
        rw [ih, List.mem_eraseDups]
      rw [ofPairs_append_singleton, names_set, List.map_append, List.eraseDups_append]
      by_cases hpair : pair.1 ∈ pairs.map Prod.fst
      · rw [if_pos (hmem.mpr hpair), ih]
        simp [List.removeAll, hpair]
      · rw [if_neg (hmem.not.mpr hpair), ih]
        simp [List.removeAll, hpair, List.eraseDups_cons]

/-- Under a name that is read from pairs stands the last of its values. -/
theorem get?_ofPairs (pairs : List (String × α)) (name : String) :
    (ofPairs pairs).get? name = get? pairs.reverse name := by
  induction pairs using List.reverseRecOn with
  | nil => rfl
  | append_singleton pairs pair ih =>
      rw [ofPairs_append_singleton, get?_set, List.reverse_append, List.reverse_singleton,
        List.singleton_append, get?_cons, ih]

end Table

namespace Check

/-! ## Messages -/

/-- What is reported of an outcome and its index. -/
def report : Outcome × Nat → Option String
  | (.ok _, _) => none
  | (.error reason, index) => some ("at index " ++ toString index ++ ": " ++ reason.message)

/-- The message for outcomes that are not all accepted: a line for each that is refused. -/
def collectMessage (outcomes : List Outcome) : String :=
  "Could not deserialize list due to errors in the elements: " ++
    "\n".intercalate (outcomes.zipIdx.filterMap report)

theorem elementMessages_refused (outcomes : List Outcome) (index : Nat) :
    Refusal.elementMessages (refused index outcomes) =
      (outcomes.zipIdx index).filterMap report := by
  induction outcomes generalizing index with
  | nil => rfl
  | cons outcome outcomes ih =>
      rw [List.zipIdx_cons]
      cases outcome with
      | ok value => exact ih (index + 1)
      | error reason =>
          have hhead : Refusal.elementMessages (refused index (.error reason :: outcomes)) =
              ("at index " ++ toString index ++ ": " ++ reason.message) ::
                Refusal.elementMessages (refused (index + 1) outcomes) := rfl
          rw [hhead, ih (index + 1)]
          rfl

theorem message_of_collect_eq_error {outcomes : List Outcome} {refusal : Refusal}
    (h : collect outcomes = .error refusal) : refusal.message = collectMessage outcomes := by
  obtain ⟨-, rfl⟩ := collect_eq_error_iff.mp h
  have hmessage : (Refusal.elements (refused 0 outcomes)).message =
      "Could not deserialize list due to errors in the elements: " ++
        "\n".intercalate (Refusal.elementMessages (refused 0 outcomes)) := rfl
  rwa [elementMessages_refused] at hmessage

variable {α : Type} {f : α → Outcome} {xs : List α}

theorem collect_map_eq_ok_iff {values : List Json} :
    collect (xs.map f) = .ok values ↔ List.Forall₂ (fun x value => f x = .ok value) xs values := by
  rw [collect_eq_ok_iff, ← List.forall₂_eq_eq_eq, List.forall₂_map_left_iff,
    List.forall₂_map_right_iff]

theorem exists_collect_map_eq_ok_iff :
    (∃ values, collect (xs.map f) = .ok values) ↔ ∀ x ∈ xs, ∃ value, f x = .ok value := by
  simp only [collect_map_eq_ok_iff, exists_forall₂_iff]

theorem exists_collect_map_eq_error (h : ∃ x ∈ xs, ∃ reason, f x = .error reason) :
    ∃ refusal, collect (xs.map f) = .error refusal := by
  cases hcollect : collect (xs.map f) with
  | error refusal => exact ⟨refusal, rfl⟩
  | ok values =>
      obtain ⟨x, hx, reason, hreason⟩ := h
      obtain ⟨value, hvalue⟩ := exists_collect_map_eq_ok_iff.mp ⟨values, hcollect⟩ x hx
      cases hreason.symm.trans hvalue

/-! ## Validators that always answer -/

theorem list_of_array (element : Input → Outcome) (items : List Json) :
    list (m := Id) element (some (.array items)) =
      (collect (items.map fun item => element (some item))).map Json.array :=
  congrArg (fun outcomes : List Outcome => (collect outcomes).map Json.array) List.idRun_mapM

theorem mapping_of_properties (key value : Input → Outcome) {x : Input}
    {properties : List (String × Json)} (h : properties? x = some properties) :
    mapping (m := Id) key value x =
      match collect (properties.map fun property => key (some (.string property.1))) with
      | .error reason => .error (.keys reason)
      | .ok names =>
        match collect (properties.map fun property => value (some property.2)) with
        | .error reason => .error (.values reason)
        | .ok items => .ok (.object (Table.ofPairs ((names.map propertyName).zip items))) := by
  have hkeys : properties.mapM (m := Id) (fun property => key (some (.string property.1))) =
      properties.map fun property => key (some (.string property.1)) := List.idRun_mapM
  have hvalues : properties.mapM (m := Id) (fun property => value (some property.2)) =
      properties.map fun property => value (some property.2) := List.idRun_mapM
  simp only [mapping, h, hkeys, hvalues]
  rfl

/-- The names and values of what has properties. -/
inductive HasProperties : Input → List (String × Json) → Prop where
  | object (members : List (String × Json)) : HasProperties (some (.object members)) members
  /-- The elements of an array are its properties, under the decimal texts of their indices. -/
  | array (items : List Json) :
      HasProperties (some (.array items)) (items.mapIdx fun index item => (toString index, item))

theorem HasProperties.properties?_eq {x : Input} {properties : List (String × Json)}
    (h : HasProperties x properties) : properties? x = some properties := by
  cases h <;> rfl

theorem propertyName_eq_shown : propertyName = Json.shown := by
  funext json
  cases json <;> rfl

/-- What lists and mappings answer, for all validators of their parts that always answer. -/
theorem checkers_collect_refusals (element key value : Input → Outcome) :
    (∀ items : List Json,
      ((∃ result, list (m := Id) element (some (.array items)) = .ok result) ↔
        ∀ item ∈ items, ∃ kept, element (some item) = .ok kept) ∧
      (∀ result, list (m := Id) element (some (.array items)) = .ok result →
        ∃ values, result = .array values ∧
          List.Forall₂ (fun item kept => element (some item) = .ok kept) items values) ∧
      ∀ refusal, list (m := Id) element (some (.array items)) = .error refusal →
        refusal.message = collectMessage (items.map fun item => element (some item))) ∧
    ∀ (x : Input) (properties : List (String × Json)), HasProperties x properties →
      ((∃ property ∈ properties, ∃ reason, key (some (.string property.1)) = .error reason) →
        ∃ refusal, mapping (m := Id) key value x = .error refusal ∧
          refusal.message = "Could not deserialize keys: " ++
            collectMessage (properties.map fun property => key (some (.string property.1)))) ∧
      ((∀ property ∈ properties, ∃ name, key (some (.string property.1)) = .ok name) →
        (∃ property ∈ properties, ∃ reason, value (some property.2) = .error reason) →
          ∃ refusal, mapping (m := Id) key value x = .error refusal ∧
            refusal.message = "Could not deserialize values: " ++
              collectMessage (properties.map fun property => value (some property.2))) ∧
      ∀ names items,
        List.Forall₂ (fun property name => key (some (.string property.1)) = .ok name)
          properties names →
        List.Forall₂ (fun property item => value (some property.2) = .ok item)
          properties items →
        ∃ kept, mapping (m := Id) key value x = .ok (.object kept) ∧
          kept = Table.ofPairs ((names.map Json.shown).zip items) ∧
          Table.names kept = (names.map Json.shown).eraseDups ∧
          ∀ name, Table.get? kept name =
            Table.get? ((names.map Json.shown).zip items).reverse name := by
  refine ⟨fun items => ?_, fun x properties hproperties => ?_⟩
  · rw [list_of_array, ← exists_collect_map_eq_ok_iff]
    -- whether anything is collected decides between the two outcomes
    cases hcollect : collect (items.map fun item => element (some item)) with
    | ok values =>
        refine ⟨iff_of_true ⟨_, rfl⟩ ⟨values, rfl⟩, fun result hresult => ?_, fun _ h => ?_⟩
        · cases hresult
          exact ⟨values, rfl, collect_map_eq_ok_iff.mp hcollect⟩
        · cases h
    | error refusal =>
        refine ⟨iff_of_false (by rintro ⟨_, h⟩; cases h) (by rintro ⟨_, h⟩; cases h),
          fun _ h => ?_, fun reason hreason => ?_⟩
        · cases h
        · cases hreason
          exact message_of_collect_eq_error hcollect
  · have hmapping := mapping_of_properties key value hproperties.properties?_eq
    refine ⟨fun hkey => ?_, fun hkeys hvalue => ?_, fun names items hnames hitems => ?_⟩
    · -- a refused key is reported before any value is looked at
      obtain ⟨refusal, hrefusal⟩ := exists_collect_map_eq_error hkey
      rw [hrefusal] at hmapping
      exact ⟨.keys refusal, hmapping, congrArg _ (message_of_collect_eq_error hrefusal)⟩
    · -- all keys are accepted, so the values have their turn
      obtain ⟨names, hnames⟩ := exists_collect_map_eq_ok_iff.mpr hkeys
      obtain ⟨refusal, hrefusal⟩ := exists_collect_map_eq_error hvalue
      rw [hnames, hrefusal] at hmapping
      exact ⟨.values refusal, hmapping, congrArg _ (message_of_collect_eq_error hrefusal)⟩
    · have hlength : (names.map Json.shown).length = items.length := by
        rw [List.length_map, ← hnames.length_eq, hitems.length_eq]
      rw [collect_map_eq_ok_iff.mpr hnames, collect_map_eq_ok_iff.mpr hitems,
        propertyName_eq_shown] at hmapping
      refine ⟨_, hmapping, rfl, ?_, Table.get?_ofPairs _⟩
      rw [Table.names_ofPairs, List.map_fst_zip hlength.le]

/-- Two elements of an array are no numbers, so a mapping from strings to numbers reports these. -/
theorem checkers_collect_refusals_scores :
    HasProperties (some (.array [.bool true, .number (.int 3), .null]))
      [("0", .bool true), ("1", .number (.int 3)), ("2", .null)] ∧
    ∃ refusal, mapping (m := Id) string number
        (some (.array [.bool true, .number (.int 3), .null])) = .error refusal ∧
      refusal.message = "Could not deserialize values: " ++
        collectMessage [.error (.notNumber (some (.bool true))), .ok (.number (.int 3)),
          .error (.notNumber (some .null))] := by
  have hproperties : HasProperties (some (.array [.bool true, .number (.int 3), .null]))
      [("0", .bool true), ("1", .number (.int 3)), ("2", .null)] := .array _
  have hcollects := (checkers_collect_refusals string string number).2 _ _ hproperties
  refine ⟨hproperties, hcollects.2.1 ?_ ⟨_, List.mem_cons_self, _, rfl⟩⟩
  simp [string]

/-- Turns the name `b` into a boolean and all others into null. -/
def oddKey : Input → Outcome
  | some (.string "b") => .ok (.bool true)
  | _ => .ok .null

example : mapping (m := Id) oddKey number
    (some (.object [("a", .number (.int 1)), ("b", .number (.int 2)), ("c", .number (.int 3))])) =
      .ok (.object [("null", .number (.int 3)), ("true", .number (.int 2))]) := rfl

end Check

end ValidatorGen
