import Mathlib.Data.Finset.Card
import ValidatorGen.Check.Evaluator
import ValidatorGen.Proofs.Json.Basic

/-!
# Runs do not depend on their number of steps

`Check.run` lets custom validators refer to each other and stops after `stepsFor` of them within
one another.  This file proves that the limit never shows: a run that comes to an end with any
number of steps has the same outcome with `stepsFor`, so `run` obeys the equations of an evaluator
without a limit (`run_custom`, `run_list` and their like).

## Strategy

* **More steps keep an outcome.**  `runWith_refines` compares two functions for custom validators
  along a schema, and `resolve_refines` takes the comparison through the steps.
* **A run looks at its value and below.**  What a schema hands to its parts is the value itself or
  lies less deep (`inputDepth_lt_of_*`), so `runWith_congr` needs two functions to agree on such
  inputs only.
* **A round without news is the last one.**  For one input, the names that have an outcome grow
  with the steps.  Once all inputs below are settled, a step that adds no name changes nothing any
  more (`settled_of_no_news`), and there are no more names than entries of the table, so every
  level of the value costs `named.length` steps at most (`settled_length_mul`).
-/

namespace ValidatorGen.Check

/-! ## What a validator hands to its parts -/

mutual

/-- The custom validators that a schema hands its value as it is: the schema is one itself, or it is
a sum of which some variant hands the value on. -/
def handedOn : Schema → List String
  | .custom name _ => [name]
  | .sum _ _ _ variants => handedOnByVariants variants
  | _ => []

def handedOnByVariants : List (String × Schema) → List String
  | [] => []
  | (_, schema) :: variants => handedOn schema ++ handedOnByVariants variants

end

theorem mem_handedOnByVariants_iff {name : String} {variants : List (String × Schema)} :
    name ∈ handedOnByVariants variants ↔
      ∃ variant ∈ variants, name ∈ handedOn variant.2 := by
  induction variants with
  | nil => simp [handedOnByVariants]
  | cons variant variants ih => simp [handedOnByVariants, ih]

theorem inputDepth_get?_le (members : List (String × Json)) (name : String) :
    inputDepth (Table.get? members name) ≤ Json.depthOfMembers members := by
  induction members with
  | nil => simp [Table.get?, inputDepth]
  | cons head tail ih =>
      rw [Table.get?_cons, Json.depthOfMembers]
      split
      · exact Nat.le_max_left _ _
      · exact ih.trans (Nat.le_max_right _ _)

theorem inputDepth_lt_of_mem_items {item : Json} {items : List Json} (hmem : item ∈ items) :
    inputDepth (some item) < inputDepth (some (.array items)) := by
  have hle := Json.depth_le_depthOfItems hmem
  simp only [inputDepth, Json.depth]
  omega

/-- A field lies less deep than the object or array in which it is looked for, even if it is
absent. -/
theorem inputDepth_lt_of_members {x : Input} {members : List (String × Json)}
    (h : members? x = .ok members) (name : String) :
    inputDepth (Table.get? members name) < inputDepth x := by
  unfold members? at h
  split at h
  · cases h
    have hle := inputDepth_get?_le members name
    simp only [inputDepth, Json.depth] at hle ⊢
    omega
  · cases h
    simp [Table.get?, inputDepth, Json.depth]
  · cases h
  · cases h
  · cases h

/-- A key of a mapping and the value under it lie less deep than the mapping. -/
theorem inputDepth_lt_of_properties {x : Input} {properties : List (String × Json)}
    (h : properties? x = some properties) {property : String × Json}
    (hmem : property ∈ properties) :
    inputDepth (some (.string property.1)) < inputDepth x ∧
      inputDepth (some property.2) < inputDepth x := by
  unfold properties? at h
  split at h
  · cases h
    have hle := Json.depth_le_depthOfMembers hmem
    simp only [inputDepth, Json.depth]
    omega
  · cases h
    obtain ⟨index, hindex, rfl⟩ := List.mem_mapIdx.mp hmem
    have hle := Json.depth_le_depthOfItems (List.getElem_mem hindex)
    simp only [inputDepth, Json.depth]
    omega
  · cases h

/-! ## Runs that have the same outcome -/

/-- The later of two computations has the result of the earlier one, if that has any. -/
def Refines {α : Type} (earlier later : Option α) : Prop :=
  ∀ value, earlier = some value → later = some value

namespace Refines

variable {α β : Type}

theorem refl (a : Option α) : Refines a a := fun _ h => h

theorem trans {a b c : Option α} (hab : Refines a b) (hbc : Refines b c) : Refines a c :=
  fun value h => hbc value (hab value h)

theorem antisymm {a b : Option α} (hab : Refines a b) (hba : Refines b a) : a = b := by
  cases ha : a with
  | some value => exact (hab value ha).symm
  | none =>
      cases hb : b with
      | none => rfl
      | some value => rw [← ha, hba value hb]

theorem bind {a b : Option α} {f g : α → Option β} (hab : Refines a b)
    (hfg : ∀ value, Refines (f value) (g value)) : Refines (a >>= f) (b >>= g) := by
  intro result h
  obtain ⟨value, ha, hf⟩ := Option.bind_eq_some_iff.mp h
  exact Option.bind_eq_some_iff.mpr ⟨value, hab value ha, hfg value result hf⟩

theorem mapM {f g : α → Option β} {list : List α} (h : ∀ x ∈ list, Refines (f x) (g x)) :
    Refines (list.mapM f) (list.mapM g) := by
  induction list with
  | nil => exact refl _
  | cons head tail ih =>
      rw [List.mapM_cons, List.mapM_cons]
      refine bind (h head List.mem_cons_self) fun first => ?_
      refine bind (ih fun x hx => h x (List.mem_cons_of_mem _ hx)) fun rest => ?_
      exact refl _

end Refines

/-- The variant that a tag selects is the first one with that key. -/
theorem runVariant_eq {m : Type → Type} [Monad m] (custom : String → Input → m Outcome)
    (tag : String) (variants : List (String × Schema)) (x : Input) :
    runVariant custom tag variants x =
      match variants.find? (·.1 == tag) with
      | some variant => runWith custom variant.2 x
      | none => pure (.error .unreachable) := by
  induction variants with
  | nil => simp [runVariant]
  | cons head tail ih =>
      by_cases h : head.1 = tag
      · simp [runVariant, h]
      · simp [runVariant, h, ih]

variable {f g : String → Input → Run}

theorem runFields_refines {isOptional : Bool} {members : List (String × Json)}
    {fields : List (String × Schema)}
    (h : ∀ field ∈ fields, Refines (runWith f field.2 (Table.get? members field.1))
      (runWith g field.2 (Table.get? members field.1))) :
    ∀ result, Refines (runFields f isOptional members fields result)
      (runFields g isOptional members fields result) := by
  induction fields with
  | nil => exact fun result => Refines.refl _
  | cons field fields ih =>
      intro result
      have hrest := ih fun field hfield => h field (List.mem_cons_of_mem _ hfield)
      simp only [runFields]
      split
      · exact hrest result
      · refine Refines.bind (h field List.mem_cons_self) fun outcome => ?_
        split
        · exact Refines.refl _
        · exact hrest _

/-- Custom validators that answer more often let a schema answer more often.  Only what the schema
can ask them counts: some of them see the value itself, and all of them what lies less deep. -/
theorem runWith_refines (schema : Schema) : ∀ {x : Input},
    (∀ name ∈ handedOn schema, Refines (f name x) (g name x)) →
    (∀ name y, inputDepth y < inputDepth x → Refines (f name y) (g name y)) →
      Refines (runWith f schema x) (runWith g schema x) := by
  induction schema with
  | bool | number | string | filePath => intro x _ _; exact Refines.refl _
  | constant type value => intro x _ _; exact Refines.refl _
  | enumeration type values => intro x _ _; exact Refines.refl _
  | object type fields optional ihfields ihoptional =>
      intro x hx hbelow
      simp only [runWith]
      split
      · exact Refines.refl _
      · next members hmembers =>
        -- a part is looked at below the value, where the functions agree as well
        have hpart : ∀ {entries : List (String × Schema)},
            (∀ entry ∈ entries, ∀ {y : Input},
              (∀ name ∈ handedOn entry.2, Refines (f name y) (g name y)) →
              (∀ name z, inputDepth z < inputDepth y → Refines (f name z) (g name z)) →
                Refines (runWith f entry.2 y) (runWith g entry.2 y)) →
            ∀ entry ∈ entries, Refines (runWith f entry.2 (Table.get? members entry.1))
              (runWith g entry.2 (Table.get? members entry.1)) := by
          intro entries ih entry hentry
          have hlt := inputDepth_lt_of_members hmembers entry.1
          exact ih entry hentry (fun name _ => hbelow name _ hlt)
            fun name z hz => hbelow name z (hz.trans hlt)
        refine Refines.bind (runFields_refines (hpart ihfields) []) fun required => ?_
        split
        · exact Refines.refl _
        · next result =>
          refine Refines.bind (runFields_refines (hpart ihoptional) result) fun all => ?_
          exact Refines.refl _
  | list element ih =>
      intro x hx hbelow
      simp only [runWith]
      unfold list
      split
      · next items =>
        refine Refines.bind (Refines.mapM fun item hitem => ?_) fun outcomes => Refines.refl _
        have hlt := inputDepth_lt_of_mem_items hitem
        exact ih (fun name _ => hbelow name _ hlt) fun name z hz => hbelow name z (hz.trans hlt)
      · exact Refines.refl _
  | mapping key value ihkey ihvalue =>
      intro x hx hbelow
      simp only [runWith]
      unfold mapping
      split
      · exact Refines.refl _
      · next properties hproperties =>
        refine Refines.bind (Refines.mapM fun property hmem => ?_) fun keys => ?_
        · have hlt := (inputDepth_lt_of_properties hproperties hmem).1
          exact ihkey (fun name _ => hbelow name _ hlt) fun name z hz =>
            hbelow name z (hz.trans hlt)
        · split
          · exact Refines.refl _
          · refine Refines.bind (Refines.mapM fun property hmem => ?_) fun values =>
              Refines.refl _
            have hlt := (inputDepth_lt_of_properties hproperties hmem).2
            exact ihvalue (fun name _ => hbelow name _ hlt) fun name z hz =>
              hbelow name z (hz.trans hlt)
  | sum type discriminant discriminantType variants ih =>
      intro x hx hbelow
      simp only [runWith]
      split
      · exact Refines.refl _
      · split
        · exact Refines.refl _
        · rw [runVariant_eq, runVariant_eq]
          split
          · next variant hfind =>
            have hvariant := List.mem_of_find?_eq_some hfind
            refine ih variant hvariant (fun name hname => hx name ?_) hbelow
            exact mem_handedOnByVariants_iff.mpr ⟨variant, hvariant, hname⟩
          · exact Refines.refl _
  | custom name types =>
      intro x hx hbelow
      exact hx name List.mem_cons_self

/-- A schema reads custom validators at its value and below, and nowhere else. -/
theorem runWith_congr (schema : Schema) {x : Input} (hx : ∀ name, f name x = g name x)
    (hbelow : ∀ name y, inputDepth y < inputDepth x → f name y = g name y) :
    runWith f schema x = runWith g schema x := by
  refine Refines.antisymm (runWith_refines schema ?_ ?_) (runWith_refines schema ?_ ?_)
  · exact fun name _ => hx name ▸ Refines.refl _
  · exact fun name y hy => hbelow name y hy ▸ Refines.refl _
  · exact fun name _ => hx name ▸ Refines.refl _
  · exact fun name y hy => hbelow name y hy ▸ Refines.refl _

/-! ## More steps -/

variable {named : Table Schema}

theorem resolve_of_get?_eq_none {name : String} (h : named.get? name = none) (steps : Nat)
    (x : Input) : resolve named steps name x = some (.error (.unregistered name)) := by
  cases steps with
  | zero => simp [resolve, Table.has, h]
  | succ steps => simp [resolve, h]

theorem resolve_succ_of_get? {name : String} {schema : Schema}
    (h : named.get? name = some schema) (steps : Nat) (x : Input) :
    resolve named (steps + 1) name x = runWith (resolve named steps) schema x := by
  simp [resolve, h]

theorem resolve_refines_succ (steps : Nat) : ∀ (name : String) (x : Input),
    Refines (resolve named steps name x) (resolve named (steps + 1) name x) := by
  induction steps with
  | zero =>
      intro name x
      cases h : named.get? name with
      | none =>
          rw [resolve_of_get?_eq_none h, resolve_of_get?_eq_none h]
          exact Refines.refl _
      | some schema => simp [Refines, resolve, Table.has, h]
  | succ steps ih =>
      intro name x
      cases h : named.get? name with
      | none =>
          rw [resolve_of_get?_eq_none h, resolve_of_get?_eq_none h]
          exact Refines.refl _
      | some schema =>
          rw [resolve_succ_of_get? h, resolve_succ_of_get? h]
          exact runWith_refines schema (fun other _ => ih other x) fun other y _ => ih other y

theorem resolve_refines {steps more : Nat} (hle : steps ≤ more) (name : String) (x : Input) :
    Refines (resolve named steps name x) (resolve named more name x) := by
  induction more, hle using Nat.le_induction with
  | base => exact Refines.refl _
  | succ more _ ih => exact ih.trans (resolve_refines_succ more name x)

theorem runWithin_refines {steps more : Nat} (hle : steps ≤ more) (schema : Schema) (x : Input) :
    Refines (runWithin named steps schema x) (runWithin named more schema x) :=
  runWith_refines schema (fun name _ => resolve_refines hle name x)
    fun name y _ => resolve_refines hle name y

/-! ## Enough steps -/

/-- Whether further steps make no difference at an input. -/
def Settled (named : Table Schema) (steps : Nat) (x : Input) : Prop :=
  ∀ name, ∀ more, steps ≤ more → resolve named more name x = resolve named steps name x

theorem Settled.of_le {steps more : Nat} {x : Input} (h : Settled named steps x)
    (hle : steps ≤ more) : Settled named more x := by
  intro name most hmost
  rw [h name most (hle.trans hmost), h name more hle]

/-- The names of the table that have an outcome at an input after a number of steps. -/
def answered (named : Table Schema) (steps : Nat) (x : Input) : Finset String :=
  named.names.toFinset.filter fun name => (resolve named steps name x).isSome

theorem answered_subset_names (steps : Nat) (x : Input) :
    answered named steps x ⊆ named.names.toFinset := Finset.filter_subset _ _

theorem card_names_le : named.names.toFinset.card ≤ named.length := by
  calc named.names.toFinset.card
      ≤ named.names.length := List.toFinset_card_le _
    _ = named.length := List.length_map _

theorem answered_subset_succ (steps : Nat) (x : Input) :
    answered named steps x ⊆ answered named (steps + 1) x := by
  intro name hname
  rw [answered, Finset.mem_filter] at hname ⊢
  obtain ⟨outcome, houtcome⟩ := Option.isSome_iff_exists.mp hname.2
  refine ⟨hname.1, Option.isSome_iff_exists.mpr ⟨outcome, ?_⟩⟩
  exact resolve_refines_succ steps name x outcome houtcome

/-- A step that changes nothing at an input is followed by steps that change nothing, if all that
lies below the input is settled. -/
theorem settled_of_resolve_succ_eq {steps : Nat} {x : Input}
    (hbelow : ∀ y, inputDepth y < inputDepth x → Settled named steps y)
    (hsame : ∀ name, resolve named (steps + 1) name x = resolve named steps name x) :
    Settled named steps x := by
  intro name more hle
  induction more, hle using Nat.le_induction generalizing name with
  | base => rfl
  | succ more hle ih =>
      cases h : named.get? name with
      | none => rw [resolve_of_get?_eq_none h, resolve_of_get?_eq_none h]
      | some schema =>
          rw [← hsame name, resolve_succ_of_get? h, resolve_succ_of_get? h]
          exact runWith_congr schema ih fun other y hy => hbelow y hy other more hle

/-- If no further name has an outcome after one more step, none ever will. -/
theorem settled_of_no_news {steps : Nat} {x : Input}
    (hbelow : ∀ y, inputDepth y < inputDepth x → Settled named steps y)
    (hnews : answered named (steps + 1) x ⊆ answered named steps x) :
    Settled named steps x := by
  refine settled_of_resolve_succ_eq hbelow fun name => ?_
  cases houtcome : resolve named steps name x with
  | some outcome => exact resolve_refines_succ steps name x outcome houtcome
  | none =>
      have hname : name ∈ named.names := by
        by_contra habsent
        rw [resolve_of_get?_eq_none (Table.get?_eq_none_iff.mpr habsent)] at houtcome
        cases houtcome
      have hold : name ∉ answered named steps x := by simp [answered, houtcome]
      have hnew : name ∉ answered named (steps + 1) x := fun hmem => hold (hnews hmem)
      simpa [answered, hname] using hnew

/-- Every level of a value costs one step for each entry of the table at most. -/
theorem settled_length_mul (x : Input) :
    Settled named (named.length * (inputDepth x + 1)) x := by
  induction hdepth : inputDepth x using Nat.strong_induction_on generalizing x with
  | _ depth ih =>
      have hbelow : ∀ steps, named.length * depth ≤ steps →
          ∀ y, inputDepth y < inputDepth x → Settled named steps y := by
        intro steps hsteps y hy
        rw [hdepth] at hy
        refine (ih (inputDepth y) hy y rfl).of_le (le_trans ?_ hsteps)
        exact Nat.mul_le_mul_left _ hy
      -- every round settles the input or brings a new name
      have hround : ∀ round, Settled named (named.length * depth + round) x ∨
          round ≤ (answered named (named.length * depth + round) x).card := by
        intro round
        induction round with
        | zero => exact Or.inr (Nat.zero_le _)
        | succ round ihround =>
            rcases ihround with hsettled | hcard
            · exact Or.inl (hsettled.of_le (by omega))
            · by_cases hnews : answered named (named.length * depth + round + 1) x ⊆
                  answered named (named.length * depth + round) x
              · have hsettled := settled_of_no_news (hbelow _ (Nat.le_add_right _ _)) hnews
                exact Or.inl (hsettled.of_le (by omega))
              · have hgrows := Finset.card_lt_card
                  ⟨answered_subset_succ (named.length * depth + round) x, hnews⟩
                exact Or.inr (by rw [← Nat.add_assoc]; omega)
      rw [Nat.mul_succ]
      rcases hround named.length with hsettled | hcard
      · exact hsettled
      · -- all names have an outcome
        refine settled_of_no_news (hbelow _ (Nat.le_add_right _ _)) ?_
        have hall : answered named (named.length * depth + named.length) x =
            named.names.toFinset := by
          refine Finset.eq_of_subset_of_card_le (answered_subset_names _ x) ?_
          exact card_names_le.trans hcard
        rw [hall]
        exact answered_subset_names _ x

theorem stepsFor_mono {x y : Input} (hle : inputDepth y ≤ inputDepth x) :
    stepsFor named y ≤ stepsFor named x :=
  Nat.mul_le_mul_left _ (Nat.add_le_add_right hle 3)

theorem settled_stepsFor (x : Input) : Settled named (stepsFor named x) x := by
  refine (settled_length_mul x).of_le ?_
  exact Nat.mul_le_mul_left _ (by omega)

/-- Steps beyond those that `run` takes make no difference. -/
theorem runWithin_eq_run {steps : Nat} {x : Input} (hle : stepsFor named x ≤ steps)
    (schema : Schema) : runWithin named steps schema x = run named schema x := by
  refine runWith_congr schema (fun name => settled_stepsFor x name steps hle) ?_
  intro name y hy
  have hsettled : Settled named (stepsFor named x) y :=
    (settled_stepsFor y).of_le (stepsFor_mono hy.le)
  exact hsettled name steps hle

/-- A run has every outcome that it has with any number of steps. -/
theorem run_eq_some_iff {schema : Schema} {x : Input} {outcome : Outcome} :
    run named schema x = some outcome ↔
      ∃ steps, runWithin named steps schema x = some outcome := by
  constructor
  · intro h
    exact ⟨stepsFor named x, h⟩
  · rintro ⟨steps, h⟩
    rw [← runWithin_eq_run (Nat.le_max_left (stepsFor named x) steps) schema]
    exact runWithin_refines (Nat.le_max_right _ steps) schema x outcome h

/-! ## The equations of a run -/

/-- The outcomes of custom validators, each run for itself. -/
def customs (named : Table Schema) (name : String) (x : Input) : Run :=
  run named (.custom name []) x

/-- A run runs its parts. -/
@[simp] theorem runWith_customs (schema : Schema) (x : Input) :
    runWith (customs named) schema x = run named schema x := by
  refine runWith_congr schema (fun name => rfl) ?_
  intro name y hy
  exact (settled_stepsFor y name _ (stepsFor_mono hy.le)).symm

theorem run_custom_of_get? {name : String} {schema : Schema} (h : named.get? name = some schema)
    (types : List FlowType) (x : Input) :
    run named (.custom name types) x = run named schema x := by
  calc run named (.custom name types) x
      = resolve named (stepsFor named x) name x := rfl
    _ = resolve named (stepsFor named x + 1) name x :=
        (settled_stepsFor x name _ (Nat.le_succ _)).symm
    _ = run named schema x := resolve_succ_of_get? h _ x

theorem run_custom_of_get?_eq_none {name : String} (h : named.get? name = none)
    (types : List FlowType) (x : Input) :
    run named (.custom name types) x = some (.error (.unregistered name)) :=
  resolve_of_get?_eq_none h _ x

theorem run_list (element : Schema) (x : Input) :
    run named (.list element) x = list (run named element) x := by
  rw [← runWith_customs, runWith]
  congr 1
  funext y
  exact runWith_customs element y

theorem run_mapping (key value : Schema) (x : Input) :
    run named (.mapping key value) x = mapping (run named key) (run named value) x := by
  rw [← runWith_customs, runWith]
  congr 1
  · funext y
    exact runWith_customs key y
  · funext y
    exact runWith_customs value y

end ValidatorGen.Check
