/-!
# Ascending lists of texts

`ascending` arranges texts in the order of their characters, each of them once. Texts compare
character by character by code point, which is also the order of their UTF-8 bytes.
-/

namespace ValidatorGen.Text

/-- Puts a text into an ascending list, unless it is there already. -/
def insertAscending (text : String) : List String → List String
  | [] => [text]
  | head :: tail =>
    if text < head then text :: head :: tail
    else if text = head then head :: tail
    else head :: insertAscending text tail

/-- The texts of a list, each once and in ascending order. -/
def ascending (texts : List String) : List String := texts.foldr insertAscending []

theorem mem_insertAscending {text other : String} {texts : List String} :
    other ∈ insertAscending text texts ↔ other = text ∨ other ∈ texts := by
  induction texts with
  | nil => simp [insertAscending]
  | cons head tail ih =>
    unfold insertAscending
    split
    · simp
    · split
      · next heq => simp [heq]
      · simp only [List.mem_cons, ih]
        exact or_left_comm

@[simp] theorem mem_ascending {text : String} {texts : List String} :
    text ∈ ascending texts ↔ text ∈ texts := by
  induction texts with
  | nil => simp [ascending]
  | cons head tail ih =>
    rw [List.mem_cons, ← ih]
    exact mem_insertAscending

theorem pairwise_insertAscending {text : String} {texts : List String}
    (h : texts.Pairwise (· < ·)) : (insertAscending text texts).Pairwise (· < ·) := by
  induction texts with
  | nil => simp [insertAscending]
  | cons head tail ih =>
    have hhead := List.pairwise_cons.mp h
    unfold insertAscending
    split
    · next hlt =>
      refine List.pairwise_cons.mpr ⟨fun other hmem => ?_, h⟩
      rcases List.mem_cons.mp hmem with rfl | hmem
      · exact hlt
      · exact String.lt_trans hlt (hhead.1 other hmem)
    · split
      · exact h
      · next hnlt hne =>
        refine List.pairwise_cons.mpr ⟨fun other hmem => ?_, ih hhead.2⟩
        rcases mem_insertAscending.mp hmem with rfl | hmem
        · -- the orders of texts are total
          exact String.not_le.mp fun hle => hne (String.le_antisymm hle (String.not_lt.mp hnlt))
        · exact hhead.1 other hmem

/-- The order is strict, so no text stands twice. -/
theorem pairwise_ascending (texts : List String) : (ascending texts).Pairwise (· < ·) := by
  induction texts with
  | nil => exact .nil
  | cons head tail ih => exact pairwise_insertAscending ih

end ValidatorGen.Text
