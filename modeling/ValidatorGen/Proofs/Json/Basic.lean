import ValidatorGen.Json.Basic

/-!
# JSON values

Induction on a value, the depth of its parts, and values without repeated members.  What a text
denotes is the tree that `distinct` makes of it.  It leaves alone what has no repeated members
already (`distinct_eq_self`), and `isDistinct` tells such trees.
-/

namespace ValidatorGen.Json

/-- What holds of a value whenever it holds of its elements or members holds of all values. -/
@[elab_as_elim]
theorem induct {motive : Json → Prop} (null : motive .null) (bool : ∀ value, motive (.bool value))
    (number : ∀ value, motive (.number value)) (string : ∀ value, motive (.string value))
    (array : ∀ items, (∀ item ∈ items, motive item) → motive (.array items))
    (object : ∀ members, (∀ member ∈ members, motive member.2) → motive (.object members))
    (json : Json) : motive json :=
  @Json.rec motive (fun items => ∀ item ∈ items, motive item)
    (fun members => ∀ member ∈ members, motive member.2) (fun member => motive member.2)
    null bool number string array object
    (fun _ hmem => absurd hmem List.not_mem_nil)
    (fun _ _ hhead htail => List.forall_mem_cons.mpr ⟨hhead, htail⟩)
    (fun _ hmem => absurd hmem List.not_mem_nil)
    (fun _ _ hhead htail => List.forall_mem_cons.mpr ⟨hhead, htail⟩)
    (fun _ _ hvalue => hvalue) json

/-! ## Depth -/

theorem depth_le_depthOfItems {item : Json} {items : List Json} (hmem : item ∈ items) :
    item.depth ≤ depthOfItems items := by
  induction items with
  | nil => simp at hmem
  | cons head tail ih =>
      simp only [depthOfItems]
      rcases List.mem_cons.mp hmem with rfl | hmem
      · exact Nat.le_max_left _ _
      · exact Nat.le_trans (ih hmem) (Nat.le_max_right _ _)

theorem depth_le_depthOfMembers {member : String × Json} {members : List (String × Json)}
    (hmem : member ∈ members) : member.2.depth ≤ depthOfMembers members := by
  induction members with
  | nil => simp at hmem
  | cons head tail ih =>
      simp only [depthOfMembers]
      rcases List.mem_cons.mp hmem with rfl | hmem
      · exact Nat.le_max_left _ _
      · exact Nat.le_trans (ih hmem) (Nat.le_max_right _ _)

theorem depthOfItems_le {items : List Json} {bound : Nat} (h : ∀ item ∈ items, item.depth ≤ bound) :
    depthOfItems items ≤ bound := by
  induction items with
  | nil => exact Nat.zero_le bound
  | cons head tail ih =>
      rw [List.forall_mem_cons] at h
      exact Nat.max_le.mpr ⟨h.1, ih h.2⟩

theorem depthOfMembers_le {members : List (String × Json)} {bound : Nat}
    (h : ∀ member ∈ members, member.2.depth ≤ bound) : depthOfMembers members ≤ bound := by
  induction members with
  | nil => exact Nat.zero_le bound
  | cons head tail ih =>
      rw [List.forall_mem_cons] at h
      exact Nat.max_le.mpr ⟨h.1, ih h.2⟩

/-! ## Repeated members -/

theorem isDistinct_array_iff {items : List Json} :
    (array items).isDistinct = true ↔ ∀ item ∈ items, item.isDistinct = true := by
  rw [isDistinct]
  induction items with
  | nil => simp [itemsDistinct]
  | cons item items ih => rw [itemsDistinct, Bool.and_eq_true, List.forall_mem_cons, ih]

theorem isDistinct_object_iff {members : List (String × Json)} :
    (object members).isDistinct = true ↔
      (members.map Prod.fst).Nodup ∧ ∀ member ∈ members, member.2.isDistinct = true := by
  rw [isDistinct]
  induction members with
  | nil => simp [membersDistinct]
  | cons member members ih =>
      have hnew : (!members.any (·.1 == member.1)) = true ↔ member.1 ∉ members.map Prod.fst := by
        rw [Bool.not_eq_true', List.any_eq_false, List.mem_map, not_exists]
        simp only [beq_iff_eq, not_and]
      rw [membersDistinct, Bool.and_eq_true, Bool.and_eq_true, hnew, ih, List.map_cons,
        List.nodup_cons, List.forall_mem_cons, and_and_and_comm]

theorem distinctItems_eq_map (items : List Json) : distinctItems items = items.map distinct := by
  induction items with
  | nil => rfl
  | cons item items ih => rw [distinctItems, ih, List.map_cons]

theorem distinctMembers_eq_map (members : List (String × Json)) :
    distinctMembers members = members.map fun member => (member.1, member.2.distinct) := by
  induction members with
  | nil => rfl
  | cons member members ih => rw [distinctMembers, ih, List.map_cons]

theorem distinct_eq_self {json : Json} (h : json.isDistinct = true) : json.distinct = json := by
  induction json using induct with
  | null => rfl
  | bool value => rfl
  | number value => rfl
  | string value => rfl
  | array items ih =>
      rw [isDistinct_array_iff] at h
      rw [distinct, distinctItems_eq_map, List.map_congr_left fun item hitem =>
        ih item hitem (h item hitem), List.map_id']
  | object members ih =>
      obtain ⟨hnames, hmembers⟩ := isDistinct_object_iff.mp h
      have hsame : distinctMembers members = members := by
        rw [distinctMembers_eq_map]
        refine (List.map_congr_left fun member hmember => ?_).trans (List.map_id' members)
        rw [ih member hmember (hmembers member hmember)]
      rw [distinct, hsame, Table.ofPairs_eq_self hnames]

end ValidatorGen.Json
