import ValidatorGen.Json.Decoder
import ValidatorGen.Proofs.Json.Basic
import ValidatorGen.Proofs.Json.Container

/-!
# Values are read as they are written

The compact text of a value is read as the value itself (`takes_tree`), whatever follows it that
does not continue a number.  The value may nest as deep as the reader has levels, and its numbers
have to be integers that a word holds (`Integral`): a reader gets doubles only nearly right.
-/

namespace ValidatorGen.Json

/-- All numbers of a value are integers that a word of 64 bits holds. -/
inductive Integral : Json → Prop where
  | null : Integral .null
  | bool (value : Bool) : Integral (.bool value)
  | number {value : Int} : Number.IsWord value → Integral (.number (.int value))
  | string (value : String) : Integral (.string value)
  | array {items : List Json} : (∀ item ∈ items, Integral item) → Integral (.array items)
  | object {members : List (String × Json)} :
      (∀ member ∈ members, Integral member.2) → Integral (.object members)

namespace Reader

/-! ## Scalars -/

theorem ne_of_isDigit {c d : Char} (h : isDigit c = true) (hd : isDigit d = false) : c ≠ d := by
  rintro rfl
  rw [h] at hd
  cases hd

theorem isBlank_of_isDigit {c : Char} (h : isDigit c = true) : isBlank c = false := by
  simp only [isBlank, Bool.or_eq_false_iff, beq_eq_false_iff_ne]
  exact ⟨⟨⟨ne_of_isDigit h rfl, ne_of_isDigit h rfl⟩, ne_of_isDigit h rfl⟩, ne_of_isDigit h rfl⟩

theorem scalar_of_isDigit {c : Char} (h : isDigit c = true) :
    scalar c = do return .number (← numberTail false) := by
  unfold scalar
  split
  any_goals cases h
  rw [if_pos h]

theorem takes_treeWith_scalar {inner : Option (Reader Json)} {c : Char} {more rest : List Char}
    {json : Json} (hblank : isBlank c = false) (harray : c ≠ '[') (hobject : c ≠ '\x7b')
    (h : Takes (scalar c) (c :: more) json rest) :
    Takes (treeWith inner) (c :: more) json rest := by
  refine takes_bind (takes_peekToken hblank more) ?_
  split
  · next h => cases h
  · next h => exact absurd (Option.some.inj h) harray
  · next h => exact absurd (Option.some.inj h) hobject
  · next h =>
    cases h
    exact h

/-- An integer is read as itself, from its sign or its first digit on. -/
theorem takes_treeWith_int {inner : Option (Reader Json)} {value : Int} {rest : List Char}
    (hword : Number.IsWord value) (hrest : EndsNumber rest) :
    Takes (treeWith inner) (Number.intChars value ++ rest) (.number (.int value)) rest := by
  obtain ⟨hleast, hgreatest⟩ := hword
  have hsize : value.natAbs < wordSize := by
    unfold wordSize
    omega
  unfold Number.intChars
  split
  · next hnegative =>
    have hinteger : integer true value.natAbs 0 = pure (.int value) := by
      have hfits : value.natAbs ≠ 0 ∧ 2 * value.natAbs ≤ wordSize := by
        unfold wordSize
        omega
      simp [integer, hfits, abs_of_neg hnegative]
    refine takes_treeWith_scalar rfl (by decide) (by decide) ?_
    exact takes_bind (takes_advance '-' _)
      (takes_bind (takes_numberTail hrest hsize hinteger) (takes_pure _ rest))
  · next hpositive =>
    have hinteger : integer false value.natAbs 0 = pure (.int value) := by
      simp [integer, abs_of_nonneg (not_lt.mp hpositive)]
    obtain ⟨c, more, hdigits, hc⟩ := exists_digit_cons value.natAbs
    have htail := takes_numberTail hrest hsize hinteger
    rw [hdigits, List.cons_append] at htail
    rw [List.nil_append, hdigits, List.cons_append]
    refine takes_treeWith_scalar (isBlank_of_isDigit hc) (ne_of_isDigit hc rfl)
      (ne_of_isDigit hc rfl) ?_
    rw [scalar_of_isDigit hc]
    exact takes_bind htail (takes_pure _ rest)

/-- A text in quotes is read as itself. -/
theorem takes_treeWith_string {inner : Option (Reader Json)} (value : String) (rest : List Char) :
    Takes (treeWith inner) (quote value ++ rest) (.string value) rest := by
  rw [quote, List.cons_append, List.append_assoc]
  refine takes_treeWith_scalar rfl (by decide) (by decide) ?_
  exact takes_bind (takes_advance '"' _)
    (takes_bind (takes_stringTail value rest) (takes_pure _ rest))

theorem takes_treeWith_word {inner : Option (Reader Json)} {c : Char} {word rest : List Char}
    {json : Json} (hblank : isBlank c = false) (harray : c ≠ '[') (hobject : c ≠ '\x7b')
    (hscalar : scalar c = do advance; Reader.word word; return json) :
    Takes (treeWith inner) (c :: (word ++ rest)) json rest := by
  refine takes_treeWith_scalar hblank harray hobject ?_
  rw [hscalar]
  exact takes_bind (takes_advance c _) (takes_bind (takes_word word rest) (takes_pure json rest))

/-! ## Arrays and objects -/

theorem opensElement_chars {json : Json} (h : Integral json) (rest : List Char) :
    OpensElement (json.chars ++ rest) := by
  cases h with
  | null => exact ⟨_, _, rfl, rfl, by decide⟩
  | bool value => cases value <;> exact ⟨_, _, rfl, rfl, by decide⟩
  | @number value hword =>
      rw [Json.chars, Number.chars, Number.intChars]
      split
      · exact ⟨_, _, rfl, rfl, by decide⟩
      · obtain ⟨c, more, hdigits, hc⟩ := exists_digit_cons value.natAbs
        exact ⟨c, more ++ rest, by rw [hdigits]; rfl, isBlank_of_isDigit hc, ne_of_isDigit hc rfl⟩
  | string value => exact ⟨_, _, rfl, rfl, by decide⟩
  | array h => exact ⟨_, _, rfl, rfl, by decide⟩
  | object h => exact ⟨_, _, rfl, rfl, by decide⟩

/-- Members are kept as they are met, the last one first. -/
theorem gathers_reversed {inner : Reader Json} {list : List (String × Json)}
    (h : ∀ member ∈ list, ∀ text, EndsNumber text →
      Takes inner (member.2.chars ++ text) member.2 text) (read : List (String × Json)) :
    Gathers (fun read name => do return (name, ← memberValue name inner) :: read) read list
      (list.reverse ++ read) := by
  induction list generalizing read with
  | nil => exact .nil read
  | cons member list ih =>
      rw [List.forall_mem_cons] at h
      rw [List.reverse_cons, List.append_assoc]
      refine .cons (fun text htext => ?_) (ih h.2 (member :: read))
      exact takes_bind (takes_memberValue (h.1 text htext)) (takes_pure _ text)

theorem exists_tree_eq (levels : Nat) : ∃ inner, tree levels = treeWith inner := by
  cases levels with
  | zero => exact ⟨none, rfl⟩
  | succ levels => exact ⟨some (tree levels), rfl⟩

theorem exists_tree_eq_some {depth levels : Nat} (h : depth + 1 ≤ levels) :
    ∃ inner, tree levels = treeWith (some (tree inner)) ∧ depth ≤ inner := by
  cases levels with
  | zero => exact absurd h (Nat.not_succ_le_zero depth)
  | succ levels => exact ⟨levels, rfl, Nat.succ_le_succ_iff.mp h⟩

/-- A value is read as itself, as deep as it nests. -/
theorem takes_tree {json : Json} (h : Integral json) {levels : Nat} (hdepth : json.depth ≤ levels)
    {rest : List Char} (hrest : EndsNumber rest) :
    Takes (tree levels) (json.chars ++ rest) json rest := by
  obtain ⟨inner, hinner⟩ := exists_tree_eq levels
  induction h generalizing levels rest inner with
  | null => exact hinner ▸ takes_treeWith_word rfl (by decide) (by decide) rfl
  | bool value =>
      cases value <;> exact hinner ▸ takes_treeWith_word rfl (by decide) (by decide) rfl
  | number hword => exact hinner ▸ takes_treeWith_int hword hrest
  | string value => exact hinner ▸ takes_treeWith_string value rest
  | @array items hitems ih =>
      -- an array is read on one level, which leaves one fewer for its items
      obtain ⟨levels, hlevels, hdepth⟩ := exists_tree_eq_some hdepth
      have htakes : ∀ item ∈ items, ∀ text, EndsNumber text →
          Takes (tree levels) (item.chars ++ text) item text := by
        intro item hitem text htext
        obtain ⟨inner, hinner⟩ := exists_tree_eq levels
        exact ih item hitem ((depth_le_depthOfItems hitem).trans hdepth) htext inner hinner
      have helements := takes_elements (fun item hitem => opensElement_chars (hitems item hitem))
        htakes rest
      rw [List.map_id'] at helements
      rw [hlevels, Json.chars, itemChars_eq_listed, List.cons_append, List.append_assoc]
      exact takes_bind (takes_peekToken rfl _) <| takes_bind (takes_advance '[' _) <|
        takes_bind helements (takes_pure _ rest)
  | @object members hmembers ih =>
      obtain ⟨levels, hlevels, hdepth⟩ := exists_tree_eq_some hdepth
      have htakes : ∀ member ∈ members, ∀ text, EndsNumber text →
          Takes (tree levels) (member.2.chars ++ text) member.2 text := by
        intro member hmember text htext
        obtain ⟨inner, hinner⟩ := exists_tree_eq levels
        exact ih member hmember ((depth_le_depthOfMembers hmember).trans hdepth) htext inner hinner
      have hmembers := takes_members (gathers_reversed htakes []) rest
      rw [hlevels, Json.chars, memberChars_eq_listed, List.cons_append, List.append_assoc]
      refine takes_bind (takes_peekToken rfl _) <| takes_bind (takes_advance '\x7b' _) <|
        takes_bind (takes_within hmembers (takes_closeObject rest)) ?_
      rw [List.append_nil, List.reverse_reverse]
      exact takes_pure _ rest

/-- What a reader takes from the beginning of a text it reads from the text. -/
theorem run_eq_ok {α : Type} {reader : Nat → Reader α} {text : String} {value : α}
    {rest : List Char} (h : Takes (reader maxDepth) text.toList value rest) :
    run reader text = .ok value := by
  obtain ⟨q, hq⟩ := h .start
  rw [run, Cursor.ofText, hq]

end Reader

theorem toList_text_append (json : Json) (rest : String) :
    (json.text ++ rest).toList = json.chars ++ rest.toList := by
  rw [String.toList_append, text, String.toList_ofList]

/-- A value without repeated members is read from its compact text, whatever follows that does not
continue a number. -/
theorem read_text_append {json : Json} (h : Integral json) (hdistinct : json.isDistinct = true)
    (hdepth : json.depth ≤ Reader.maxDepth) {rest : String}
    (hrest : Reader.EndsNumber rest.toList) : Decoder.json.read (json.text ++ rest) = .ok json := by
  have htakes := Reader.takes_map distinct (Reader.takes_tree h hdepth hrest)
  rw [distinct_eq_self hdistinct] at htakes
  rw [← toList_text_append] at htakes
  exact Reader.run_eq_ok htakes

end ValidatorGen.Json
