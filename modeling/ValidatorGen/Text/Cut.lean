/-!
# Text cut at a separator

`cut` takes characters apart at every separator. Main statements: the parts with separators between
them are the characters again, and parts that hold no separator come back from what is made of them.
-/

namespace ValidatorGen.Text

/-- Characters cut at every separator; without one they are a single part. -/
def cut (separator : Char) : List Char → List (List Char)
  | [] => [[]]
  | c :: rest =>
    if c = separator then [] :: cut separator rest
    else
      match cut separator rest with
      | [] => [[c]]
      | part :: parts => (c :: part) :: parts

theorem cut_ne_nil (separator : Char) (text : List Char) : cut separator text ≠ [] := by
  cases text with
  | nil => simp [cut]
  | cons c rest =>
    unfold cut
    split
    · simp
    · split <;> simp

theorem cut_of_notMem {separator : Char} {text : List Char} (h : separator ∉ text) :
    cut separator text = [text] := by
  induction text with
  | nil => rfl
  | cons c rest ih =>
    rw [List.mem_cons, not_or] at h
    rw [cut, if_neg (Ne.symm h.1), ih h.2]

/-- No character is lost, and none is added. -/
theorem intercalate_cut (separator : Char) (text : List Char) :
    [separator].intercalate (cut separator text) = text := by
  induction text with
  | nil => simp [cut]
  | cons c rest ih =>
    obtain ⟨part, parts, hcut⟩ := List.exists_cons_of_ne_nil (cut_ne_nil separator rest)
    rw [hcut] at ih
    unfold cut
    split
    · rw [hcut, List.intercalate_cons_cons, ih]
      simp_all
    · -- the character joins the first part, which may be the only one
      rw [hcut]
      cases parts with
      | nil => simp_all
      | cons next others =>
        rw [List.intercalate_cons_cons] at ih
        simp [List.intercalate_cons_cons, ← ih]

/-- What stands in joined parts is a separator or stands in one of them. -/
theorem mem_intercalate {separator c : Char} {parts : List (List Char)}
    (h : c ∈ [separator].intercalate parts) : c = separator ∨ ∃ part ∈ parts, c ∈ part := by
  induction parts with
  | nil => cases h
  | cons part others ih =>
    cases others with
    | nil => exact Or.inr ⟨part, List.mem_cons_self, by simpa using h⟩
    | cons next others =>
      rw [List.intercalate_cons_cons, List.mem_append, List.mem_append, List.mem_singleton] at h
      rcases h with (hpart | rfl) | hothers
      · exact Or.inr ⟨part, List.mem_cons_self, hpart⟩
      · exact Or.inl rfl
      · rcases ih hothers with rfl | ⟨other, hother, hc⟩
        · exact Or.inl rfl
        · exact Or.inr ⟨other, List.mem_cons_of_mem _ hother, hc⟩

/-- The separator stands in none of the parts. -/
theorem separator_notMem_cut {separator : Char} {text part : List Char}
    (h : part ∈ cut separator text) : separator ∉ part := by
  induction text generalizing part with
  | nil => simp_all [cut]
  | cons c rest ih =>
    obtain ⟨first, others, hcut⟩ := List.exists_cons_of_ne_nil (cut_ne_nil separator rest)
    rw [hcut] at ih
    unfold cut at h
    rw [hcut] at h
    split at h
    · rcases List.mem_cons.mp h with rfl | h
      · simp
      · exact ih h
    · next hc =>
      rcases List.mem_cons.mp h with rfl | h
      · simpa [Ne.symm hc] using ih List.mem_cons_self
      · exact ih (List.mem_cons_of_mem _ h)

theorem subset_of_mem_cut {separator : Char} {text part : List Char}
    (h : part ∈ cut separator text) : part ⊆ text := by
  induction text generalizing part with
  | nil => simp_all [cut]
  | cons c rest ih =>
    obtain ⟨first, others, hcut⟩ := List.exists_cons_of_ne_nil (cut_ne_nil separator rest)
    rw [hcut] at ih
    unfold cut at h
    rw [hcut] at h
    split at h
    · rcases List.mem_cons.mp h with rfl | h
      · exact List.nil_subset _
      · exact List.subset_cons_of_subset c (ih h)
    · rcases List.mem_cons.mp h with rfl | h
      · exact List.cons_subset_cons c (ih List.mem_cons_self)
      · exact List.subset_cons_of_subset c (ih (List.mem_cons_of_mem _ h))

/-- Characters are cut on both sides of a separator by themselves. -/
theorem cut_append_separator (separator : Char) (before after : List Char) :
    cut separator (before ++ separator :: after) = cut separator before ++ cut separator after := by
  induction before with
  | nil => simp [cut]
  | cons c rest ih =>
    obtain ⟨part, parts, hcut⟩ := List.exists_cons_of_ne_nil (cut_ne_nil separator rest)
    rw [hcut] at ih
    rw [List.cons_append, cut, cut, ih, hcut]
    split <;> rfl

/-- Parts in which the separator does not stand come back. -/
theorem cut_intercalate {separator : Char} {parts : List (List Char)} (hne : parts ≠ [])
    (hparts : ∀ part ∈ parts, separator ∉ part) :
    cut separator ([separator].intercalate parts) = parts := by
  induction parts with
  | nil => exact absurd rfl hne
  | cons part others ih =>
    rw [List.forall_mem_cons] at hparts
    cases others with
    | nil => simpa using cut_of_notMem hparts.1
    | cons next others =>
      have hothers := ih (List.cons_ne_nil _ _) hparts.2
      rw [List.intercalate_cons_cons, List.append_assoc, List.singleton_append,
        cut_append_separator, cut_of_notMem hparts.1, hothers]
      rfl

end ValidatorGen.Text
