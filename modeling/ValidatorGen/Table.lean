/-!
# Tables

A table lists names with their values in the order in which the names first appeared. Setting a
name that is present replaces its value in place, so reading a list of pairs into a table keeps
the first position and the last value of a repeated name.
-/

namespace ValidatorGen

/-- Names with their values, in the order of first appearance. -/
abbrev Table (α : Type) := List (String × α)

namespace Table

variable {α : Type}

def get? (table : Table α) (name : String) : Option α := List.lookup name table

/-- Gives a name its value: in place if the name is present, at the end if it is new. -/
def set (table : Table α) (name : String) (value : α) : Table α :=
  match table with
  | [] => [(name, value)]
  | (n, v) :: rest => if n = name then (n, value) :: rest else (n, v) :: set rest name value

def has (table : Table α) (name : String) : Bool := (table.get? name).isSome

def names (table : Table α) : List String := table.map Prod.fst

/-- Reads pairs one after the other. -/
def ofPairs (pairs : List (String × α)) : Table α :=
  pairs.foldl (fun table pair => table.set pair.1 pair.2) []

/-! ## What setting a name does -/

theorem get?_cons (entry : String × α) (rest : Table α) (name : String) :
    get? (entry :: rest) name = if name = entry.1 then some entry.2 else get? rest name := by
  obtain ⟨n, v⟩ := entry
  by_cases h : name = n
  · simp [get?, h]
  · simp [get?, List.lookup_cons, beq_eq_false_iff_ne.mpr h, h]

theorem get?_eq_none_iff {table : Table α} {name : String} :
    table.get? name = none ↔ name ∉ table.names := by
  induction table with
  | nil => simp [get?, names]
  | cons entry rest ih =>
    rw [get?_cons, names, List.map_cons, List.mem_cons, not_or]
    split
    · next h => simp [h]
    · next h => rw [ih, names, and_iff_right h]

theorem get?_set (table : Table α) (name : String) (value : α) (other : String) :
    (table.set name value).get? other = if other = name then some value else table.get? other := by
  induction table with
  | nil => simp [set, get?_cons]
  | cons entry rest ih =>
    by_cases hentry : entry.1 = name
    · simp only [set, hentry, if_true, get?_cons]
      split <;> rfl
    · by_cases h : other = entry.1
      · simp [set, hentry, get?_cons, h]
      · simp [set, hentry, get?_cons, h, ih]

theorem mem_of_get? {table : Table α} {name : String} {value : α}
    (h : table.get? name = some value) : (name, value) ∈ table := by
  induction table with
  | nil => cases h
  | cons entry rest ih =>
    rw [get?_cons] at h
    split at h
    · next hname =>
      obtain rfl := hname
      cases h
      exact List.mem_cons_self
    · exact List.mem_cons_of_mem _ (ih h)

/-- Where no name stands twice, every entry is found under its name. -/
theorem get?_eq_some_iff {table : Table α} (h : table.names.Nodup) {name : String} {value : α} :
    table.get? name = some value ↔ (name, value) ∈ table := by
  refine ⟨mem_of_get?, fun hmem => ?_⟩
  induction table with
  | nil => cases hmem
  | cons entry rest ih =>
    rw [names, List.map_cons, List.nodup_cons] at h
    rw [get?_cons]
    rcases List.mem_cons.mp hmem with rfl | hmem
    · exact if_pos rfl
    · rw [if_neg, ih h.2 hmem]
      intro hname
      exact h.1 (hname ▸ List.mem_map_of_mem hmem)

/-- Setting a name brings in nothing but the new entry. -/
theorem eq_or_mem_of_mem_set {table : Table α} {name : String} {value : α} {entry : String × α}
    (h : entry ∈ table.set name value) : entry = (name, value) ∨ entry ∈ table := by
  induction table with
  | nil => exact Or.inl (List.mem_singleton.mp h)
  | cons first rest ih =>
    simp only [set] at h
    split at h
    · next hname =>
      rcases List.mem_cons.mp h with rfl | h
      · exact Or.inl (by rw [hname])
      · exact Or.inr (List.mem_cons_of_mem _ h)
    · rcases List.mem_cons.mp h with rfl | h
      · exact Or.inr List.mem_cons_self
      · exact (ih h).imp_right (List.mem_cons_of_mem _)

/-- Names keep their places, and a new one comes last. -/
theorem names_set (table : Table α) (name : String) (value : α) :
    (table.set name value).names =
      if name ∈ table.names then table.names else table.names ++ [name] := by
  induction table with
  | nil => simp [set, names]
  | cons entry rest ih =>
    obtain ⟨n, v⟩ := entry
    unfold names at ih ⊢
    by_cases hn : n = name
    · simp [set, hn]
    · simp only [set, hn, if_false, List.map_cons, ih, List.mem_cons, Ne.symm hn, false_or]
      split <;> simp

theorem nodup_names_set {table : Table α} (h : table.names.Nodup) (name : String) (value : α) :
    (table.set name value).names.Nodup := by
  rw [names_set]
  split
  · exact h
  · next hnew =>
    rw [List.nodup_append]
    refine ⟨h, by simp, ?_⟩
    rintro other hother _ hmem rfl
    rw [List.mem_singleton] at hmem
    exact hnew (hmem ▸ hother)

/-- Every entry of a table that was read from pairs is one of the pairs. -/
theorem mem_of_mem_ofPairs {pairs : List (String × α)} {entry : String × α} :
    entry ∈ ofPairs pairs → entry ∈ pairs := by
  have hfold : ∀ table : Table α,
      entry ∈ pairs.foldl (fun table pair => table.set pair.1 pair.2) table →
        entry ∈ table ∨ entry ∈ pairs := by
    induction pairs with
    | nil => exact fun _ => Or.inl
    | cons pair rest ih =>
      intro table hentry
      rcases ih _ hentry with hset | hrest
      · rcases eq_or_mem_of_mem_set hset with rfl | htable
        · exact Or.inr List.mem_cons_self
        · exact Or.inl htable
      · exact Or.inr (List.mem_cons_of_mem _ hrest)
  exact fun h => (hfold [] h).resolve_left List.not_mem_nil

/-- No name stands twice in a table that was read from pairs. -/
theorem nodup_names_ofPairs (pairs : List (String × α)) : (ofPairs pairs).names.Nodup := by
  have hfold : ∀ table : Table α, table.names.Nodup →
      (pairs.foldl (fun table pair => table.set pair.1 pair.2) table).names.Nodup := by
    induction pairs with
    | nil => exact fun _ h => h
    | cons pair rest ih => exact fun table h => ih _ (nodup_names_set h pair.1 pair.2)
  exact hfold [] (by simp [names])

/-- Pairs without a repeated name are a table as they stand. -/
theorem ofPairs_eq_self {pairs : List (String × α)} (h : (pairs.map Prod.fst).Nodup) :
    ofPairs pairs = pairs := by
  have hset : ∀ (table : Table α) (name : String) (value : α), name ∉ table.names →
      table.set name value = table ++ [(name, value)] := by
    intro table name value hnew
    induction table with
    | nil => simp [set]
    | cons entry rest ih =>
      simp only [names, List.map_cons, List.mem_cons, not_or] at hnew
      simp [set, Ne.symm hnew.1, ih hnew.2]
  have hfold : ∀ table : Table α, ((table ++ pairs).map Prod.fst).Nodup →
      pairs.foldl (fun table pair => table.set pair.1 pair.2) table = table ++ pairs := by
    induction pairs with
    | nil => simp
    | cons pair rest ih =>
      intro table htable
      have hnew : pair.1 ∉ table.names := by
        simp only [List.map_append, List.map_cons, List.nodup_append, List.mem_cons] at htable
        exact fun hmem => htable.2.2 _ hmem _ (Or.inl rfl) rfl
      rw [List.foldl_cons, hset table pair.1 pair.2 hnew, ih (by simp_all)]
      · simp
      · simpa using htable
  simpa [ofPairs] using hfold [] (by simpa using h)

end Table

end ValidatorGen
