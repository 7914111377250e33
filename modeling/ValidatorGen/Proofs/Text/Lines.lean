import ValidatorGen.Code.Printer

/-!
# What stands on a line

Laying a text out in lines drops carriage returns and moves lines to the right, so not every part of
a text is still there afterwards.  A part that lies within a line is (`Stands`): gluing, settling
and indenting lines keep it, and so does printing them.
-/

namespace ValidatorGen

namespace Text

variable {separator : Char} {part text : List Char}

/-- A part that holds no separator lies within the first of the pieces that it begins. -/
theorem exists_cut_append (h : separator ∉ part) (rest : List Char) :
    ∃ first others, cut separator (part ++ rest) = first :: others ∧ part <+: first := by
  induction part with
  | nil =>
      obtain ⟨first, others, hcut⟩ := List.exists_cons_of_ne_nil (cut_ne_nil separator rest)
      exact ⟨first, others, hcut, List.nil_prefix⟩
  | cons c part ih =>
      rw [List.mem_cons, not_or] at h
      obtain ⟨first, others, hcut, hpart⟩ := ih h.2
      refine ⟨c :: first, others, ?_, List.cons_prefix_cons.mpr ⟨rfl, hpart⟩⟩
      rw [List.cons_append, cut, if_neg (Ne.symm h.1), hcut]

/-- A part that holds no separator lies within one of the pieces. -/
theorem exists_mem_cut (h : separator ∉ part) (hpart : part <:+: text) :
    ∃ piece ∈ cut separator text, part <:+: piece := by
  obtain ⟨before, after, rfl⟩ := hpart
  induction before with
  | nil =>
      obtain ⟨first, others, hcut, hfirst⟩ := exists_cut_append h after
      rw [List.nil_append, hcut]
      exact ⟨first, List.mem_cons_self, hfirst.isInfix⟩
  | cons c before ih =>
      obtain ⟨piece, hpiece, hwithin⟩ := ih
      obtain ⟨first, others, hcut⟩ :=
        List.exists_cons_of_ne_nil (cut_ne_nil separator (before ++ part ++ after))
      rw [List.cons_append, List.cons_append, cut, hcut]
      rw [hcut] at hpiece
      split
      · exact ⟨piece, List.mem_cons_of_mem _ hpiece, hwithin⟩
      · -- the character joins the first piece
        rcases List.mem_cons.mp hpiece with rfl | hpiece
        · exact ⟨c :: piece, List.mem_cons_self, hwithin.trans (List.suffix_cons c piece).isInfix⟩
        · exact ⟨piece, List.mem_cons_of_mem _ hpiece, hwithin⟩

theorem isInfix_intercalate {separator part : String} {parts : List String} (h : part ∈ parts) :
    part.toList <:+: (separator.intercalate parts).toList := by
  induction parts with
  | nil => cases h
  | cons first others ih =>
      cases others with
      | nil =>
          obtain rfl := List.mem_singleton.mp h
          exact ⟨[], [], by simp [String.intercalate_singleton]⟩
      | cons second others =>
          rw [String.intercalate_cons_cons, String.toList_append, String.toList_append]
          rcases List.mem_cons.mp h with rfl | h
          · rw [List.append_assoc]
            exact (List.prefix_append _ _).isInfix
          · exact (ih h).trans (List.suffix_append _ _).isInfix

end Text

namespace Lines

/-- A part of a text that lies within a line: there is something in it, and nothing that ends a
line. -/
structure Inline (part : List Char) : Prop where
  ne_nil : part ≠ []
  noFeed : '\n' ∉ part
  noReturn : '\r' ∉ part

/-- A part stands on one of the lines. -/
def Stands (part : List Char) (lines : Lines) : Prop := ∃ line ∈ lines, part <:+: line.toList

variable {part : List Char} {lines before after : Lines}

theorem Inline.ne_empty (hpart : Inline part) {line : String} (h : part <:+: line.toList) :
    line ≠ "" := by
  rintro rfl
  exact hpart.ne_nil (List.infix_nil.mp h)

theorem stands_ofText (hpart : Inline part) {text : String} (h : part <:+: text.toList) :
    Stands part (ofText text) := by
  obtain ⟨piece, hpiece, hwithin⟩ := Text.exists_mem_cut hpart.noFeed h
  exact ⟨String.ofList piece, List.mem_map_of_mem hpiece, by rwa [String.toList_ofList]⟩

theorem not_stands_nil : ¬Stands part [] := fun ⟨_, hline, _⟩ => List.not_mem_nil hline

theorem stands_cons {line : String} :
    Stands part (line :: lines) ↔ part <:+: line.toList ∨ Stands part lines := by
  unfold Stands
  simp only [List.mem_cons, exists_eq_or_imp]

theorem stands_append : Stands part (before ++ after) ↔ Stands part before ∨ Stands part after := by
  unfold Stands
  simp only [List.mem_append, or_and_right, exists_or]

theorem stands_glue (h : Stands part before ∨ Stands part after) :
    Stands part (glue before after) := by
  fun_induction glue before after with
  | case1 after => exact h.resolve_left not_stands_nil
  | case2 line => exact h.resolve_right not_stands_nil
  | case3 line next after =>
      rw [stands_cons, stands_cons] at h
      rw [stands_cons, String.toList_append]
      rcases h with (hline | hnil) | hnext | hafter
      · exact Or.inl (hline.trans (List.prefix_append _ _).isInfix)
      · exact absurd hnil not_stands_nil
      · exact Or.inl (hnext.trans (List.suffix_append _ _).isInfix)
      · exact Or.inr hafter
  | case4 line lines after _ _ ih =>
      rw [stands_cons, or_assoc] at h
      exact stands_cons.mpr (h.imp_right ih)

theorem stands_concat {texts : List Lines} {text : Lines} (hmem : text ∈ texts)
    (h : Stands part text) : Stands part (concat texts) := by
  induction texts with
  | nil => cases hmem
  | cons first others ih =>
      rcases List.mem_cons.mp hmem with rfl | hmem
      · exact stands_glue (Or.inl h)
      · exact stands_glue (Or.inr (ih hmem))

theorem Inline.isInfix_dropReturn (hpart : Inline part) {line : String}
    (h : part <:+: line.toList) : part <:+: (dropReturn line).toList := by
  unfold dropReturn
  split
  · next hlast =>
      obtain ⟨start, hline⟩ := List.getLast?_eq_some_iff.mp hlast
      rw [hline, List.dropLast_concat, String.toList_ofList]
      rw [hline, List.infix_concat_iff] at h
      refine h.resolve_left fun hsuffix => ?_
      obtain hnil | ⟨most, rfl, -⟩ := List.suffix_concat_iff.mp hsuffix
      · exact hpart.ne_nil hnil
      · exact hpart.noReturn (List.mem_append_right most List.mem_cons_self)
  · exact h

theorem stands_settle (hpart : Inline part) (h : Stands part lines) :
    Stands part (settle lines) := by
  induction lines with
  | nil => exact h
  | cons line lines ih =>
      rw [stands_cons] at h
      cases lines with
      | nil =>
          have hline := h.resolve_right not_stands_nil
          rw [settle, if_neg (hpart.ne_empty hline)]
          exact stands_cons.mpr (Or.inl hline)
      | cons next others => exact stands_cons.mpr (h.imp hpart.isInfix_dropReturn ih)

theorem stands_indent (hpart : Inline part) (h : Stands part lines) :
    Stands part (indent lines) := by
  obtain ⟨line, hline, hwithin⟩ := h
  refine ⟨"  " ++ line, List.mem_map.mpr ⟨line, hline, if_neg (hpart.ne_empty hwithin)⟩, ?_⟩
  rw [String.toList_append]
  exact hwithin.trans (List.suffix_append _ _).isInfix

theorem isInfix_toText (h : Stands part lines) : part <:+: lines.toText.toList := by
  obtain ⟨line, hline, hwithin⟩ := h
  exact hwithin.trans (Text.isInfix_intercalate hline)

end Lines

end ValidatorGen
