import Mathlib.Data.Nat.Digits.Defs
import ValidatorGen.Json.Reader.Numeral
import ValidatorGen.Proofs.Json.Takes

/-!
# Integers are read as they are written

The digits of a natural number are read back by `takes_numberTail`, as long as a word of 64 bits
holds the number and what comes behind it does not continue it (`EndsNumber`).
-/

namespace ValidatorGen.Json.Reader

/-! ## Words -/

/-- The value of digits that follow a number. -/
def appendDigits (word : Nat) (digits : List Nat) : Nat :=
  digits.foldl (fun value digit => value * 10 + digit) word

theorem le_appendDigits (word : Nat) (digits : List Nat) : word ≤ appendDigits word digits := by
  induction digits generalizing word with
  | nil => exact le_refl word
  | cons digit digits ih =>
      calc word ≤ word * 10 + digit := by omega
        _ ≤ appendDigits (word * 10 + digit) digits := ih _

/-- A word takes all digits if it holds the number that they make up. -/
theorem absorb_eq {word : Nat} {digits : List Nat} (h : appendDigits word digits < wordSize) :
    absorb word digits = (appendDigits word digits, digits.length, 0) := by
  induction digits generalizing word with
  | nil => rfl
  | cons digit digits ih =>
      have hword : word * 10 + digit < wordSize := lt_of_le_of_lt (le_appendDigits _ digits) h
      rw [absorb, if_pos hword, ih h]
      rfl

/-! ## Decimal digits -/

theorem isDigit_of_mem_toDigits {n : Nat} {c : Char} (h : c ∈ Nat.toDigits 10 n) :
    isDigit c = true := by
  have hdigit : c.isDigit = true := Nat.isDigit_of_mem_toDigits (by decide) (by decide) h
  simpa [isDigit, Char.isDigit, Char.le_def] using hdigit

theorem exists_digit_cons (n : Nat) :
    ∃ c more, Nat.toDigits 10 n = c :: more ∧ isDigit c = true := by
  obtain ⟨c, more, hdigits⟩ := List.exists_cons_of_ne_nil (l := Nat.toDigits 10 n)
    Nat.toDigits_ne_nil
  exact ⟨c, more, hdigits, isDigit_of_mem_toDigits (hdigits ▸ List.mem_cons_self)⟩

theorem appendDigits_toDigits (n : Nat) :
    appendDigits 0 ((Nat.toDigits 10 n).map digitValue) = n := by
  have hvalue : Nat.ofDigitChars 10 (Nat.toDigits 10 n) 0 = n :=
    Nat.ofDigitChars_toDigits (by decide) (by decide)
  rw [Nat.ofDigitChars_eq_foldl] at hvalue
  rw [appendDigits, List.foldl_map]
  simpa only [digitValue, Nat.mul_comm] using hvalue

/-- A number that is not zero does not begin with a zero. -/
theorem exists_toDigits_eq_cons {n : Nat} (h : 0 < n) :
    ∃ c more, Nat.toDigits 10 n = c :: more ∧ c ≠ '0' := by
  induction n using Nat.strongRecOn with
  | ind n ih =>
      by_cases hsmall : n < 10
      · refine ⟨n.digitChar, [], Nat.toDigits_of_lt_base hsmall, ?_⟩
        have hdigit : ∀ n < 10, 0 < n → n.digitChar ≠ '0' := by decide
        exact hdigit n hsmall h
      · obtain ⟨c, more, hmore, hc⟩ := ih (n / 10) (by omega) (by omega)
        refine ⟨c, more ++ [(n % 10).digitChar], ?_, hc⟩
        rw [Nat.toDigits_of_base_le (by decide) (by omega), hmore, List.cons_append]

theorem exists_dropWhile_append {test : Char → Bool} {taken rest : List Char}
    (htaken : ∀ c ∈ taken, test c = true) (hrest : ∀ c ∈ rest.head?, test c = false)
    (p : Position) : ∃ q, Cursor.dropWhile test ⟨taken ++ rest, p⟩ = ⟨rest, q⟩ := by
  induction taken generalizing p with
  | nil =>
      refine ⟨p, ?_⟩
      cases rest with
      | nil => rfl
      | cons c rest => simp [Cursor.dropWhile, Cursor.dropWhile.go, hrest c rfl]
  | cons c taken ih =>
      rw [List.forall_mem_cons] at htaken
      obtain ⟨q, hq⟩ := ih htaken.2 (p.after c)
      refine ⟨q, ?_⟩
      rw [← hq]
      simp [Cursor.dropWhile, Cursor.dropWhile.go, htaken.1]

theorem takes_digits {taken rest : List Char} (htaken : ∀ c ∈ taken, isDigit c = true)
    (hrest : ∀ c ∈ rest.head?, isDigit c = false) :
    Takes digits (taken ++ rest) (taken.map digitValue) rest := by
  intro p
  obtain ⟨q, hq⟩ := exists_dropWhile_append htaken hrest p
  refine ⟨q, ?_⟩
  have hnone : rest.takeWhile isDigit = [] := by
    cases rest with
    | nil => rfl
    | cons c rest => exact List.takeWhile_cons_of_neg (by simp [hrest c rfl])
  rw [digits, hq]
  dsimp only
  rw [List.takeWhile_append_of_pos htaken, hnone, List.append_nil]

/-! ## Integers -/

/-- What comes behind a number does not continue it. -/
def EndsNumber (rest : List Char) : Prop :=
  ∀ c ∈ rest.head?, isDigit c = false ∧ c ≠ '.' ∧ c ≠ 'e' ∧ c ≠ 'E'

/-- A zero is taken by itself, and any other number as the digits that come next. -/
theorem takes_written {n : Nat} {rest : List Char} (hrest : EndsNumber rest) {c : Char}
    {more : List Char} (hdigits : Nat.toDigits 10 n = c :: more) :
    Takes (if c = '0' then do advance; return [0] else digits) (c :: (more ++ rest))
      ((Nat.toDigits 10 n).map digitValue) rest := by
  have hall : ∀ d ∈ Nat.toDigits 10 n, isDigit d = true := fun d => isDigit_of_mem_toDigits
  rcases Nat.eq_zero_or_pos n with rfl | hpos
  · cases hdigits
    exact takes_bind (takes_advance '0' rest) (takes_pure [0] rest)
  · obtain ⟨_, _, hdigits', hc⟩ := exists_toDigits_eq_cons hpos
    cases hdigits.symm.trans hdigits'
    rw [if_neg hc]
    rw [hdigits] at hall ⊢
    exact takes_digits hall fun d hd => (hrest d hd).1

/-- The digits of a number are read as the number, with the sign that was met before. -/
theorem takes_numberTail {negative : Bool} {n : Nat} {value : Int} {rest : List Char}
    (hrest : EndsNumber rest) (hword : n < wordSize)
    (hvalue : integer negative n 0 = pure (.int value)) :
    Takes (numberTail negative) (Nat.toDigits 10 n ++ rest) (.int value) rest := by
  obtain ⟨c, more, hdigits, hc⟩ := exists_digit_cons n
  have hwritten := takes_written hrest hdigits
  have hhead : rest.head?.any isDigit = false := by
    cases rest with
    | nil => rfl
    | cons d rest => exact (hrest d rfl).1
  have hpoint : ¬rest.head? = some '.' := fun h => (hrest '.' h).2.1 rfl
  have hmark : isExponentMark rest.head? = false := by
    rw [isExponentMark, Bool.or_eq_false_iff, decide_eq_false_iff_not, decide_eq_false_iff_not]
    exact ⟨fun h => (hrest 'e' h).2.2.1 rfl, fun h => (hrest 'E' h).2.2.2 rfl⟩
  have habsorb : absorb 0 ((Nat.toDigits 10 n).map digitValue) =
      (n, ((Nat.toDigits 10 n).map digitValue).length, 0) := by
    rw [absorb_eq, appendDigits_toDigits]
    rwa [appendDigits_toDigits]
  rw [hdigits, List.cons_append]
  refine takes_bind (takes_peek _) ?_
  simp only [List.head?_cons, hc, Bool.not_true, Bool.false_eq_true, if_false]
  refine takes_bind hwritten (takes_bind (takes_peek rest) ?_)
  rw [if_neg (by simp [hhead]), habsorb]
  refine takes_bind (takes_peek rest) ?_
  rw [if_neg hpoint, if_neg (by simp [hmark]), hvalue]
  exact takes_pure _ rest

end ValidatorGen.Json.Reader
