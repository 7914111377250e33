import ValidatorGen.Code.Quoted
import ValidatorGen.Proofs.Questions

/-!
# Literals tell their texts and where they end

`literal?` reads a literal in single quotes as the language does, up to the first quote that is not
escaped, and refuses what the language does not allow.  It reads every text back from its literal
and leaves whatever stands behind (`literal?_quote`), so two texts with the same literal are the
same text (`quote_inj`).

A literal holds no character that controls or ends a line (`isPrintable_of_mem_quote`).  A quote
stands in it only where it is escaped, that is, behind an odd number of backslashes
(`escapes_of_flatMap_escape_eq`).

## Strategy

Everything goes character by character.  Reading undoes `escape` whatever follows, and where nothing
is escaped, nothing is escaped behind what `escape` writes.
-/

namespace ValidatorGen.Code

/-! ## Reading literals -/

/-- Whether a character ends a line of code. -/
def endsCodeLine (c : Char) : Bool := c == '\n' || c == '\r' || c == '\u2028' || c == '\u2029'

/-- A character in front of what the rest of a literal is read as. -/
def denoting (c : Char) (read : Option (List Char × List Char)) : Option (List Char × List Char) :=
  read.map fun tail => (c :: tail.1, tail.2)

/-- Reads a literal behind the quote that begins it: the characters that it stands for, and what
stands behind the quote that ends it.  An escape that names half of a surrogate pair stands for no
character. -/
def literalTail? : List Char → Option (List Char × List Char)
  | [] => none
  | '\'' :: rest => some ([], rest)
  | '\\' :: '\\' :: rest => denoting '\\' (literalTail? rest)
  | '\\' :: '\'' :: rest => denoting '\'' (literalTail? rest)
  | '\\' :: 'n' :: rest => denoting '\n' (literalTail? rest)
  | '\\' :: 'r' :: rest => denoting '\r' (literalTail? rest)
  | '\\' :: 't' :: rest => denoting '\t' (literalTail? rest)
  | '\\' :: 'u' :: a :: b :: c :: d :: rest =>
    match Text.hex4? a b c d with
    | none => none
    | some unit => if unit.isValidChar then denoting (Char.ofNat unit) (literalTail? rest) else none
  | '\\' :: _ => none
  | c :: rest => if endsCodeLine c then none else denoting c (literalTail? rest)

/-- Reads a literal at the beginning of a text: the text that it stands for, and what stands behind
it. -/
def literal? : List Char → Option (String × List Char)
  | '\'' :: rest => (literalTail? rest).map fun tail => (String.ofList tail.1, tail.2)
  | _ => none

/-- The characters that are written by their number lie in the plane that four digits reach. -/
theorem toNat_lt_of_isControl {c : Char}
    (h : (isControl c || c.toNat == 0x2028 || c.toNat == 0x2029) = true) : c.toNat < 0x10000 := by
  simp only [isControl, Bool.or_eq_true, Bool.and_eq_true, decide_eq_true_eq, beq_iff_eq] at h
  omega

/-- Whether a character may stand in a literal as it is: it neither controls nor ends a line. -/
def IsPrintable (c : Char) : Prop := isControl c = false ∧ endsCodeLine c = false

instance (c : Char) : Decidable (IsPrintable c) := inferInstanceAs (Decidable (_ ∧ _))

theorem isPrintable_of_unescaped {c : Char}
    (h : ¬(isControl c || c.toNat == 0x2028 || c.toNat == 0x2029) = true) : IsPrintable c := by
  simp only [Bool.or_eq_true, beq_iff_eq, not_or, Bool.not_eq_true] at h
  obtain ⟨⟨hcontrol, hline⟩, hparagraph⟩ := h
  have hne {other : Char} (hother : isControl other = true) : c ≠ other := by
    rintro rfl
    rw [hother] at hcontrol
    cases hcontrol
  refine ⟨hcontrol, ?_⟩
  simp only [endsCodeLine, Bool.or_eq_false_iff, beq_eq_false_iff_ne]
  refine ⟨⟨⟨hne rfl, hne rfl⟩, ?_⟩, ?_⟩
  · rintro rfl
    exact hline rfl
  · rintro rfl
    exact hparagraph rfl

theorem literalTail?_hex4 {c : Char} (h : c.toNat < 0x10000) (rest : List Char) :
    literalTail? ('\\' :: 'u' :: (Text.hex4 c.toNat ++ rest)) =
      denoting c (literalTail? rest) := by
  obtain ⟨w, x, y, z, hdigits⟩ : ∃ w x y z, Text.hex4 c.toNat = [w, x, y, z] := ⟨_, _, _, _, rfl⟩
  have hvalid : c.toNat.isValidChar := c.valid
  rw [hdigits, List.cons_append, List.cons_append, List.cons_append, List.cons_append,
    List.nil_append, literalTail?, Text.hex4?_of_hex4 h hdigits]
  dsimp only
  rw [if_pos hvalid, Char.ofNat_toNat]

theorem literalTail?_of_ne {c : Char} (hslash : c ≠ '\\') (hquote : c ≠ '\'')
    (hline : endsCodeLine c = false) (rest : List Char) :
    literalTail? (c :: rest) = denoting c (literalTail? rest) := by
  rw [literalTail?.eq_def]
  split <;> simp_all

/-- Every character reads back, whatever follows. -/
theorem literalTail?_escape (c : Char) (rest : List Char) :
    literalTail? (escape c ++ rest) = denoting c (literalTail? rest) := by
  unfold escape
  split
  · rfl
  · rfl
  · rfl
  · rfl
  · rfl
  · next hslash hquote hfeed hreturn _ =>
      split
      · next hcontrol => exact literalTail?_hex4 (toNat_lt_of_isControl hcontrol) rest
      · next hcontrol =>
          exact literalTail?_of_ne hslash hquote (isPrintable_of_unescaped hcontrol).2 rest

theorem literalTail?_flatMap_escape (text rest : List Char) :
    literalTail? (text.flatMap escape ++ '\'' :: rest) = some (text, rest) := by
  induction text with
  | nil => rfl
  | cons c text ih => rw [List.flatMap_cons, List.append_assoc, literalTail?_escape, ih]; rfl

theorem toList_quote (text : String) :
    (quote text).toList = '\'' :: (text.toList.flatMap escape ++ ['\'']) := by
  rw [quote, String.toList_ofList]

/-- A literal is read as its text, and what stands behind it is left. -/
theorem literal?_quote (text : String) (rest : List Char) :
    literal? ((quote text).toList ++ rest) = some (text, rest) := by
  rw [toList_quote, List.cons_append, List.append_assoc, List.singleton_append, literal?,
    literalTail?_flatMap_escape, Option.map_some, String.ofList_toList]

/-- Digits behind a character that is written by its number are read as what they are. -/
example : literal? "'\\u00011\\\\'; '".toList = some ("\x011\\", "; '".toList) := by
  decide +kernel

/-- Texts that are written as the same literal are the same. -/
theorem quote_inj {text other : String} : quote text = quote other ↔ text = other := by
  refine ⟨fun h => ?_, fun h => by rw [h]⟩
  have hread := literal?_quote text []
  rw [h, literal?_quote, Option.some.injEq, Prod.mk.injEq] at hread
  exact hread.1.symm

theorem escaped_inj {text other : String} :
    text.toList.flatMap escape = other.toList.flatMap escape ↔ text = other := by
  rw [← quote_inj, ← String.toList_inj, toList_quote, toList_quote, List.cons_inj_right,
    List.append_left_inj]

/-! ## What stands in literals -/

theorem isPrintable_of_mem_escape (c : Char) : ∀ d ∈ escape c, IsPrintable d := by
  have hpair {letter : Char} (h : IsPrintable letter) : ∀ d ∈ ['\\', letter], IsPrintable d :=
    List.forall_mem_cons.mpr ⟨by decide, List.forall_mem_singleton.mpr h⟩
  unfold escape
  split
  · exact hpair (by decide)
  · exact hpair (by decide)
  · exact hpair (by decide)
  · exact hpair (by decide)
  · exact hpair (by decide)
  · split
    · simp only [List.forall_mem_cons]
      exact ⟨by decide, by decide, Text.forall_mem_hex4 (by decide) c.toNat⟩
    · next hcontrol => simpa using isPrintable_of_unescaped hcontrol

/-- A literal is written in characters that neither control nor end a line. -/
theorem isPrintable_of_mem_quote (text : String) : ∀ c ∈ (quote text).toList, IsPrintable c := by
  simp only [toList_quote, List.forall_mem_cons, List.forall_mem_append, List.mem_flatMap]
  refine ⟨by decide, ?_, by decide, List.forall_mem_nil _⟩
  rintro c ⟨d, -, hc⟩
  exact isPrintable_of_mem_escape d c hc

/-- How many backslashes a text ends with. -/
def slashesAtEnd (text : List Char) : Nat := (text.reverse.takeWhile (· == '\\')).length

/-- Whether a text escapes the character behind it: the last of its backslashes is not escaped
itself. -/
def Escapes (before : List Char) : Prop := slashesAtEnd before % 2 = 1

instance (before : List Char) : Decidable (Escapes before) := inferInstanceAs (Decidable (_ = _))

theorem escapes_concat {before : List Char} {c : Char} :
    Escapes (before ++ [c]) ↔ c = '\\' ∧ ¬Escapes before := by
  unfold Escapes slashesAtEnd
  rw [List.reverse_append, List.reverse_singleton, List.singleton_append, List.takeWhile_cons]
  by_cases hc : c = '\\'
  · simp only [hc, beq_self_eq_true, if_true, List.length_cons, true_and]
    omega
  · simp [hc]

theorem ne_of_mem_hex4 {n : Nat} {c : Char} (h : c ∈ Text.hex4 n) : c ≠ '\\' ∧ c ≠ '\'' :=
  @Text.forall_mem_hex4 (fun digit => digit ≠ '\\' ∧ digit ≠ '\'') (by decide) n c h

theorem not_escapes_append {before piece : List Char} (hne : piece ≠ []) (h : '\\' ∉ piece) :
    ¬Escapes (before ++ piece) := by
  obtain ⟨start, last, rfl⟩ := List.eq_nil_or_concat' piece |>.resolve_left hne
  rw [← List.append_assoc, escapes_concat]
  rintro ⟨rfl, -⟩
  exact h (List.mem_append_right _ List.mem_cons_self)

theorem not_escapes_append_slash {before piece : List Char} (hne : piece ≠ [])
    (h : '\\' ∉ piece) : ¬Escapes (before ++ '\\' :: piece) := by
  rw [← List.singleton_append, ← List.append_assoc]
  exact not_escapes_append hne h

/-- What is written for a character does not escape what follows. -/
theorem not_escapes_append_escape {before : List Char} (h : ¬Escapes before) (c : Char) :
    ¬Escapes (before ++ escape c) := by
  unfold escape
  split
  · rw [← List.singleton_append, ← List.append_assoc, escapes_concat, escapes_concat]
    exact fun hescapes => hescapes.2 ⟨rfl, h⟩
  · exact not_escapes_append_slash (by decide) (by decide)
  · exact not_escapes_append_slash (by decide) (by decide)
  · exact not_escapes_append_slash (by decide) (by decide)
  · exact not_escapes_append_slash (by decide) (by decide)
  · next hslash _ _ _ _ =>
      split
      · refine not_escapes_append_slash (by simp) ?_
        rw [List.mem_cons, not_or]
        exact ⟨by decide, fun hmem => (ne_of_mem_hex4 hmem).1 rfl⟩
      · exact not_escapes_append (by simp) (by simpa using Ne.symm hslash)

/-- What is written for a text does not escape the quote behind it. -/
theorem not_escapes_append_flatMap_escape {before : List Char} (h : ¬Escapes before)
    (text : List Char) : ¬Escapes (before ++ text.flatMap escape) := by
  induction text generalizing before with
  | nil => rwa [List.flatMap_nil, List.append_nil]
  | cons c text ih =>
      rw [List.flatMap_cons, ← List.append_assoc]
      exact ih (not_escapes_append_escape h c)

theorem quote_notMem_escape {c : Char} (h : c ≠ '\'') : '\'' ∉ escape c := by
  unfold escape
  split
  · decide
  · exact absurd rfl h
  · decide
  · decide
  · decide
  · split
    · simp only [List.mem_cons, not_or]
      exact ⟨by decide, by decide, fun hmem => (ne_of_mem_hex4 hmem).2 rfl⟩
    · simpa using Ne.symm h

/-- A quote that is written for a character is escaped. -/
theorem escapes_of_escape_eq {before first rest : List Char} (h : ¬Escapes before) {c : Char}
    (hescape : escape c = first ++ '\'' :: rest) : Escapes (before ++ first) := by
  have hmem : '\'' ∈ escape c := hescape ▸ List.mem_append_right first List.mem_cons_self
  obtain rfl : c = '\'' := not_imp_comm.mp quote_notMem_escape (not_not.mpr hmem)
  -- only the second of the two characters is a quote
  cases first with
  | nil => cases hescape
  | cons slash others =>
      obtain ⟨rfl, hothers⟩ := List.cons.inj hescape
      obtain ⟨rfl, -⟩ | ⟨_, _, hnil⟩ := List.append_eq_cons_iff.mp hothers.symm
      · exact escapes_concat.mpr ⟨rfl, h⟩
      · simp at hnil

/-- Every quote in what is written for a text is escaped. -/
theorem escapes_of_flatMap_escape_eq {before : List Char} (h : ¬Escapes before)
    {text first rest : List Char} (htext : text.flatMap escape = first ++ '\'' :: rest) :
    Escapes (before ++ first) := by
  induction text generalizing before first with
  | nil => simp at htext
  | cons c text ih =>
      rw [List.flatMap_cons] at htext
      rcases append_eq_append_cons htext with ⟨_, hescape⟩ | ⟨middle, rfl, hrest⟩
      · exact escapes_of_escape_eq h hescape
      · rw [← List.append_assoc]
        exact ih (not_escapes_append_escape h c) hrest

end ValidatorGen.Code
