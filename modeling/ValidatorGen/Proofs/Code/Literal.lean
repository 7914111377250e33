import ValidatorGen.Proofs.Code.Token

/-!
# JSON values in emitted code

A JSON value stands in emitted code as its compact text.  `lex_chars` gives the tokens of that text
by recursion on the value, and `cases_of_word_mem_tokens` the few words among them: the three names
of JSON, and what stands before and behind the point of a number.
-/

namespace ValidatorGen.Json

open Code

/-! ## Numbers -/

namespace Number

/-- Whether numbers are written with a character. -/
def isNumeral (c : Char) : Bool := c.isDigit || c == '.' || c == 'e' || c == '+' || c == '-'

theorem numeral_toDigits (n : Nat) : ∀ c ∈ Nat.toDigits 10 n, isNumeral c = true := by
  intro c hc
  simp [isNumeral, Nat.isDigit_of_mem_toDigits (by decide) (by decide) hc]

theorem numeral_significant {digits : List Char} (h : ∀ c ∈ digits, isNumeral c = true) :
    ∀ c ∈ significant digits, isNumeral c = true := by
  intro c hc
  have hmem : c ∈ digits.reverse := (List.dropWhile_sublist _).mem (List.mem_reverse.mp hc)
  exact h c (List.mem_reverse.mp hmem)

theorem numeral_digitsText {digits : List Char} {point : Int}
    (h : ∀ c ∈ digits, isNumeral c = true) : ∀ c ∈ digitsText digits point, isNumeral c = true := by
  have htake (n : Nat) : ∀ c ∈ digits.take n, isNumeral c = true :=
    fun c hc => h c (List.mem_of_mem_take hc)
  have hdrop (n : Nat) : ∀ c ∈ digits.drop n, isNumeral c = true :=
    fun c hc => h c (List.mem_of_mem_drop hc)
  have hzeros (n : Nat) : ∀ c ∈ List.replicate n '0', isNumeral c = true := by
    intro c hc
    obtain rfl := List.eq_of_mem_replicate hc
    decide
  simp only [digitsText]
  -- the point stands behind the first digit or before it, or there is an exponent
  by_cases hrange : positional.least ≤ point - 1 ∧ point - 1 ≤ positional.greatest
  · rw [if_pos hrange]
    by_cases hpoint : 0 < point
    · rw [if_pos hpoint, List.forall_mem_append, List.forall_mem_append, List.forall_mem_cons]
      refine ⟨⟨htake _, hzeros _⟩, by decide, ?_⟩
      split
      · exact List.all_eq_true.mp rfl
      · exact hdrop _
    · rw [if_neg hpoint, List.forall_mem_cons, List.forall_mem_cons, List.forall_mem_append]
      exact ⟨by decide, by decide, hzeros _, h⟩
  · rw [if_neg hrange, List.forall_mem_append, List.forall_mem_append, List.forall_mem_cons,
      List.forall_mem_cons]
    refine ⟨⟨htake _, ?_⟩, by decide, ?_, numeral_toDigits _⟩
    · split
      · simp
      · exact List.forall_mem_cons.mpr ⟨by decide, hdrop _⟩
    · split <;> decide

theorem numeral_chars (number : Number) : ∀ c ∈ number.chars, isNumeral c = true := by
  unfold chars
  split
  · next value =>
      unfold intChars
      rw [List.forall_mem_append]
      refine ⟨?_, numeral_toDigits _⟩
      split
      · exact List.all_eq_true.mp rfl
      · simp
  · next bits =>
      unfold Binary.text
      rw [List.forall_mem_append]
      constructor
      · split
        · exact List.all_eq_true.mp rfl
        · simp
      · split
        · exact List.all_eq_true.mp rfl
        · exact numeral_digitsText (numeral_significant (numeral_toDigits _))

theorem isQuote_of_isNumeral {c : Char} (h : isNumeral c = true) : isQuote c = false := by
  rw [isQuote, Bool.or_eq_false_iff, beq_eq_false_iff_ne, beq_eq_false_iff_ne]
  constructor <;>
  · rintro rfl
    exact absurd h (by decide)

theorem broken_notMem_lex_chars (number : Number) : .broken ∉ lex number.chars :=
  broken_notMem_lex fun c hc => isQuote_of_isNumeral (numeral_chars number c hc)

end Number

/-! ## Values -/

mutual

/-- The tokens of a value. -/
def tokens : Json → List Token
  | .null => [.word ['n', 'u', 'l', 'l']]
  | .bool true => [.word ['t', 'r', 'u', 'e']]
  | .bool false => [.word ['f', 'a', 'l', 's', 'e']]
  | .number value => lex value.chars
  | .string value => [.literal '"' (value.toList.flatMap escape)]
  | .array items => .mark '[' :: (itemTokens items ++ [.mark ']'])
  | .object members => .mark '\x7b' :: (memberTokens members ++ [.mark '\x7d'])

def itemTokens : List Json → List Token
  | [] => []
  | [item] => item.tokens
  | item :: items => item.tokens ++ .mark ',' :: itemTokens items

def memberTokens : List (String × Json) → List Token
  | [] => []
  | [(name, value)] =>
    .literal '"' (name.toList.flatMap escape) :: .mark ':' :: value.tokens
  | (name, value) :: members =>
    .literal '"' (name.toList.flatMap escape) :: .mark ':' ::
      (value.tokens ++ .mark ',' :: memberTokens members)

end

theorem itemChars_cons_cons (item next : Json) (items : List Json) :
    itemChars (item :: next :: items) = item.chars ++ ',' :: itemChars (next :: items) := by
  simp [itemChars]

theorem itemTokens_cons_cons (item next : Json) (items : List Json) :
    itemTokens (item :: next :: items) =
      item.tokens ++ .mark ',' :: itemTokens (next :: items) := by
  simp [itemTokens]

theorem memberChars_cons_cons (name : String) (value : Json) (next : String × Json)
    (members : List (String × Json)) :
    memberChars ((name, value) :: next :: members) =
      quote name ++ ':' :: (value.chars ++ ',' :: memberChars (next :: members)) := by
  simp [memberChars]

theorem memberTokens_cons_cons (name : String) (value : Json) (next : String × Json)
    (members : List (String × Json)) :
    memberTokens ((name, value) :: next :: members) =
      .literal '"' (name.toList.flatMap escape) :: .mark ':' ::
        (value.tokens ++ .mark ',' :: memberTokens (next :: members)) := by
  simp [memberTokens]

/-- Whether a token may stand in the text of a value. -/
def IsToken : Token → Prop
  | .word word => word ∈ [['n', 'u', 'l', 'l'], ['t', 'r', 'u', 'e'], ['f', 'a', 'l', 's', 'e']] ∨
      ∀ c ∈ word, Number.isNumeral c = true
  | .broken => False
  | _ => True

theorem isToken_of_mem_lex_chars {number : Number} {token : Token} (h : token ∈ lex number.chars) :
    IsToken token := by
  cases token with
  | word word =>
      exact Or.inr fun c hc => number.numeral_chars c (mem_of_word_mem_lex h c hc)
  | broken => exact number.broken_notMem_lex_chars h
  | mark c => trivial
  | literal delimiter content => trivial

mutual

theorem isToken_of_mem_tokens (json : Json) : ∀ token ∈ json.tokens, IsToken token := by
  match json with
  | .null => simp [tokens, IsToken]
  | .bool true => simp [tokens, IsToken]
  | .bool false => simp [tokens, IsToken]
  | .number value => exact fun token => isToken_of_mem_lex_chars
  | .string value => simp [tokens, IsToken]
  | .array items =>
      simp only [tokens, List.forall_mem_cons, List.forall_mem_append]
      exact ⟨trivial, isToken_of_mem_itemTokens items, trivial, by simp⟩
  | .object members =>
      simp only [tokens, List.forall_mem_cons, List.forall_mem_append]
      exact ⟨trivial, isToken_of_mem_memberTokens members, trivial, by simp⟩

theorem isToken_of_mem_itemTokens (items : List Json) :
    ∀ token ∈ itemTokens items, IsToken token := by
  match items with
  | [] => simp [itemTokens]
  | [item] => exact isToken_of_mem_tokens item
  | item :: next :: items =>
      rw [itemTokens_cons_cons, List.forall_mem_append, List.forall_mem_cons]
      exact ⟨isToken_of_mem_tokens item, trivial, isToken_of_mem_itemTokens (next :: items)⟩

theorem isToken_of_mem_memberTokens (members : List (String × Json)) :
    ∀ token ∈ memberTokens members, IsToken token := by
  match members with
  | [] => simp [memberTokens]
  | [(name, value)] =>
      rw [memberTokens, List.forall_mem_cons, List.forall_mem_cons]
      exact ⟨trivial, trivial, isToken_of_mem_tokens value⟩
  | (name, value) :: next :: members =>
      rw [memberTokens_cons_cons, List.forall_mem_cons, List.forall_mem_cons,
        List.forall_mem_append, List.forall_mem_cons]
      exact ⟨trivial, trivial, isToken_of_mem_tokens value, trivial,
        isToken_of_mem_memberTokens (next :: members)⟩

end

theorem broken_notMem_tokens (json : Json) : .broken ∉ json.tokens :=
  fun hmem => isToken_of_mem_tokens json _ hmem

/-- What comes behind a value begins with a mark, so the value is read by itself. -/
theorem lex_chars_append {json : Json} {c : Char} {rest : List Char}
    (hjson : lex json.chars = json.tokens) (hc : continuesIdentifier c = false) :
    lex (json.chars ++ c :: rest) = json.tokens ++ lex (c :: rest) := by
  rw [lex_append (hjson ▸ broken_notMem_tokens json) (Or.inr (opensApart_cons hc)), hjson]

theorem lex_json_quote_append (name : String) (rest : List Char) :
    lex (quote name ++ ':' :: rest) =
      .literal '"' (name.toList.flatMap escape) :: .mark ':' :: lex rest := by
  rw [lex_append (by simp [lex_json_quote]) (Or.inr (opensApart_cons rfl)), lex_json_quote]
  rfl

mutual

theorem lex_chars (json : Json) : lex json.chars = json.tokens := by
  match json with
  | .null => rfl
  | .bool true => rfl
  | .bool false => rfl
  | .number value => rfl
  | .string value => exact lex_json_quote value
  | .array items =>
      show Token.mark '[' :: lex (itemChars items ++ [']']) = _
      rw [lex_itemChars items [] rfl]
      rfl
  | .object members =>
      show Token.mark '\x7b' :: lex (memberChars members ++ ['\x7d']) = _
      rw [lex_memberChars members [] rfl]
      rfl

theorem lex_itemChars (items : List Json) (rest : List Char) {c : Char}
    (hc : continuesIdentifier c = false) :
    lex (itemChars items ++ c :: rest) = itemTokens items ++ lex (c :: rest) := by
  match items with
  | [] => rfl
  | [item] => exact lex_chars_append (lex_chars item) hc
  | item :: next :: items =>
      rw [itemChars_cons_cons, itemTokens_cons_cons, List.append_assoc, List.append_assoc,
        List.cons_append, List.cons_append, lex_chars_append (lex_chars item) rfl,
        ← lex_itemChars (next :: items) rest hc]
      rfl

theorem lex_memberChars (members : List (String × Json)) (rest : List Char) {c : Char}
    (hc : continuesIdentifier c = false) :
    lex (memberChars members ++ c :: rest) = memberTokens members ++ lex (c :: rest) := by
  match members with
  | [] => rfl
  | [(name, value)] =>
      rw [memberChars, List.append_assoc, List.cons_append, lex_json_quote_append,
        lex_chars_append (lex_chars value) hc]
      rfl
  | (name, value) :: next :: members =>
      rw [memberChars_cons_cons, memberTokens_cons_cons, List.append_assoc, List.cons_append,
        List.append_assoc, List.cons_append, lex_json_quote_append,
        lex_chars_append (lex_chars value) rfl, List.cons_append, List.cons_append,
        List.append_assoc, List.cons_append, ← lex_memberChars (next :: members) rest hc]
      rfl

end

end ValidatorGen.Json
