import ValidatorGen.Proofs.Code.Print
import ValidatorGen.Proofs.Code.Quoted

/-!
# Where pieces end

The tokens of a piece tell what the piece is and where it ends, as long as its names are
identifiers: if two sequences of tokens that begin with pieces of one kind are the same, then the
pieces are alike, and so is what stands behind them.  Here this is shown for names, JSON values and
types; a type may only be followed by something that does not open parameters.

A type without parameters is written like its name, so types are compared by their `plain` forms.
-/

namespace ValidatorGen

open Code

/-! ## Names and values -/

namespace Code

variable {rest others : List Token}

theorem lex_append_inj {name other : String} (hname : isIdentifier name = true)
    (hother : isIdentifier other = true)
    (h : lex name.toList ++ rest = lex other.toList ++ others) : name = other ∧ rest = others := by
  rw [lex_of_isIdentifier hname, lex_of_isIdentifier hother] at h
  obtain ⟨hword, hrest⟩ := List.cons.inj h
  exact ⟨String.toList_inj.mp (Token.word.inj hword), hrest⟩

/-- Tokens are told up to the first one of a kind. -/
theorem append_cons_inj {token : Token} {before given : List Token} (hbefore : token ∉ before)
    (hgiven : token ∉ given) (h : before ++ token :: rest = given ++ token :: others) :
    before = given ∧ rest = others := by
  induction before generalizing given with
  | nil =>
      cases given with
      | nil => exact ⟨rfl, (List.cons.inj h).2⟩
      | cons first given => exact absurd ((List.cons.inj h).1 ▸ List.mem_cons_self) hgiven
  | cons first before ih =>
      cases given with
      | nil => exact absurd ((List.cons.inj h).1 ▸ List.mem_cons_self) hbefore
      | cons second given =>
          obtain ⟨rfl, htail⟩ := List.cons.inj h
          rw [List.mem_cons, not_or] at hbefore hgiven
          obtain ⟨rfl, hrest⟩ := ih hbefore.2 hgiven.2 htail
          exact ⟨rfl, hrest⟩

theorem mark_notMem_lex {text : List Char} {c : Char} (h : c ∉ text) : .mark c ∉ lex text := by
  have hword (word : List Char) : .mark c ∉ wordToken word := by
    unfold wordToken
    split <;> simp
  have hscan (mode : Mode) (text : List Char) (h : c ∉ text) : .mark c ∉ scan mode text := by
    fun_induction scan mode text <;> simp_all
  exact hscan _ _ h

end Code

namespace Json

mutual

/-- No value holds the parenthesis that closes the condition around it. -/
theorem close_notMem_tokens (json : Json) : .mark ')' ∉ json.tokens := by
  match json with
  | .null => simp [tokens]
  | .bool true => simp [tokens]
  | .bool false => simp [tokens]
  | .number value =>
      apply mark_notMem_lex
      intro hmem
      exact absurd (value.numeral_chars _ hmem) (by decide)
  | .string value => simp [tokens]
  | .array items => simp [tokens, close_notMem_itemTokens items]
  | .object members => simp [tokens, close_notMem_memberTokens members]

theorem close_notMem_itemTokens (items : List Json) : .mark ')' ∉ itemTokens items := by
  match items with
  | [] => simp [itemTokens]
  | [item] => exact close_notMem_tokens item
  | item :: next :: items =>
      simp [itemTokens_cons_cons, close_notMem_tokens item,
        close_notMem_itemTokens (next :: items)]

theorem close_notMem_memberTokens (members : List (String × Json)) :
    .mark ')' ∉ memberTokens members := by
  match members with
  | [] => simp [memberTokens]
  | [(name, value)] => simp [memberTokens, close_notMem_tokens value]
  | (name, value) :: next :: members =>
      simp [memberTokens_cons_cons, close_notMem_tokens value,
        close_notMem_memberTokens (next :: members)]

end

/-- What stands behind the parenthesis is the same, whatever the values are. -/
theorem tokens_append_close_inj {value other : Json} {rest others : List Token}
    (h : value.tokens ++ .mark ')' :: rest = other.tokens ++ .mark ')' :: others) :
    rest = others :=
  (append_cons_inj value.close_notMem_tokens other.close_notMem_tokens h).2

end Json

/-! ## Types -/

namespace FlowType

/-- A name with parameters, or the name alone. -/
def applying (name : String) : List FlowType → FlowType
  | [] => .named name
  | parameters => .applied name parameters

mutual

/-- The type with names that have no parameters written as such. -/
def plain : FlowType → FlowType
  | .named name => .named name
  | .literal value => .literal value
  | .applied name parameters => applying name (plains parameters)

def plains : List FlowType → List FlowType
  | [] => []
  | parameter :: parameters => parameter.plain :: plains parameters

end

theorem plains_cons (parameter : FlowType) (parameters : List FlowType) :
    plains (parameter :: parameters) = parameter.plain :: plains parameters := by
  simp only [plains]

/-- The tokens of parameters with the marks around them. -/
def argumentTokens : List FlowType → List Token
  | [] => []
  | parameters => .mark '<' :: (parameterTokens parameters ++ [.mark '>'])

/-- Whether all names in a type are identifiers. -/
def Readable (type : FlowType) : Prop := ∀ name ∈ type.mentions, isIdentifier name = true

theorem readable_applied_iff {name : String} {parameters : List FlowType} :
    (applied name parameters).Readable ↔
      isIdentifier name = true ∧ ∀ parameter ∈ parameters, parameter.Readable := by
  have hall : (∀ mention ∈ mentionsOfAll parameters, isIdentifier mention = true) ↔
      ∀ parameter ∈ parameters, parameter.Readable := by
    induction parameters with
    | nil => simp [mentionsOfAll]
    | cons parameter parameters ih =>
        rw [mentionsOfAll, List.forall_mem_append, List.forall_mem_cons, ih]
        rfl
  rw [Readable, mentions, List.forall_mem_cons, hall]

/-- A type is written as a name with parameters, perhaps none. -/
structure IsApplication (type : FlowType) (name : String) (parameters : List FlowType) : Prop where
  tokens : type.tokens = lex name.toList ++ argumentTokens parameters
  plain : type.plain = applying name (plains parameters)
  readable : type.Readable ↔
    isIdentifier name = true ∧ ∀ parameter ∈ parameters, parameter.Readable

theorem isApplication_named (name : String) : (named name).IsApplication name [] where
  tokens := (List.append_nil _).symm
  plain := rfl
  readable := by simp [Readable, mentions]

theorem isApplication_applied (name : String) (parameters : List FlowType) :
    (applied name parameters).IsApplication name parameters where
  tokens := by cases parameters <;> simp [FlowType.tokens, argumentTokens]
  plain := rfl
  readable := readable_applied_iff

/-- Whether tokens do not open parameters. -/
def Closed (rest : List Token) : Prop := rest.head? ≠ some (.mark '<')

/-- A type is read up to its end. -/
def ReadsUp (type : FlowType) : Prop :=
  type.Readable → ∀ other : FlowType, other.Readable → ∀ rest others, Closed rest → Closed others →
    type.tokens ++ rest = other.tokens ++ others → type.plain = other.plain ∧ rest = others

theorem closed_mark {c : Char} (hc : c ≠ '<') (rest : List Token) : Closed (.mark c :: rest) := by
  simpa [Closed] using hc

theorem parameterTokens_cons_cons (parameter next : FlowType) (parameters : List FlowType) :
    parameterTokens (parameter :: next :: parameters) =
      parameter.tokens ++ .mark ',' :: parameterTokens (next :: parameters) := by
  simp [parameterTokens]

/-- Parameters are read up to the mark that closes them. -/
theorem parameterTokens_append_inj {parameter : FlowType} {parameters : List FlowType}
    (ih : ∀ inner ∈ parameter :: parameters, inner.ReadsUp)
    (hreadable : ∀ inner ∈ parameter :: parameters, inner.Readable) {other : FlowType}
    {given : List FlowType} (hgiven : ∀ inner ∈ other :: given, inner.Readable)
    {rest others : List Token} (h : parameterTokens (parameter :: parameters) ++ .mark '>' :: rest =
      parameterTokens (other :: given) ++ .mark '>' :: others) :
    plains (parameter :: parameters) = plains (other :: given) ∧ rest = others := by
  -- behind each parameter stands a comma or the mark that closes them all, and neither opens
  -- parameters, so the first parameters agree and what stands behind them does
  induction parameters generalizing parameter other given with
  | nil =>
      rw [List.forall_mem_singleton] at ih hreadable
      rw [List.forall_mem_cons] at hgiven
      cases given with
      | nil =>
          obtain ⟨hplain, hrest⟩ := ih hreadable other hgiven.1 _ _ (closed_mark (by decide) _)
            (closed_mark (by decide) _) h
          rw [plains_cons, plains_cons, hplain]
          exact ⟨rfl, (List.cons.inj hrest).2⟩
      | cons next given =>
          rw [parameterTokens_cons_cons, List.append_assoc] at h
          obtain ⟨-, hrest⟩ := ih hreadable other hgiven.1 _ _ (closed_mark (by decide) _)
            (closed_mark (by decide) _) h
          exact absurd (List.cons.inj hrest).1 (by decide)
  | cons second parameters ih' =>
      rw [List.forall_mem_cons] at ih hreadable hgiven
      rw [parameterTokens_cons_cons, List.append_assoc] at h
      cases given with
      | nil =>
          obtain ⟨-, hrest⟩ := ih.1 hreadable.1 other hgiven.1 _ _ (closed_mark (by decide) _)
            (closed_mark (by decide) _) h
          exact absurd (List.cons.inj hrest).1 (by decide)
      | cons next given =>
          rw [parameterTokens_cons_cons, List.append_assoc] at h
          obtain ⟨hplain, hrest⟩ := ih.1 hreadable.1 other hgiven.1 _ _ (closed_mark (by decide) _)
            (closed_mark (by decide) _) h
          obtain ⟨hplains, hrest⟩ := ih' ih.2 hreadable.2 hgiven.2 (List.cons.inj hrest).2
          rw [plains_cons, hplain, hplains, ← plains_cons]
          exact ⟨rfl, hrest⟩

theorem argumentTokens_append_inj {parameters : List FlowType}
    (ih : ∀ inner ∈ parameters, inner.ReadsUp) (hreadable : ∀ inner ∈ parameters, inner.Readable)
    {given : List FlowType} (hgiven : ∀ inner ∈ given, inner.Readable) {rest others : List Token}
    (hrest : Closed rest) (hothers : Closed others)
    (h : argumentTokens parameters ++ rest = argumentTokens given ++ others) :
    plains parameters = plains given ∧ rest = others := by
  cases parameters with
  | nil =>
      cases given with
      | nil => exact ⟨rfl, h⟩
      | cons other given =>
          rw [argumentTokens, List.nil_append] at h
          exact absurd (by rw [h]; rfl) hrest
  | cons parameter parameters =>
      cases given with
      | nil =>
          -- the other type would have to be followed by a mark that opens parameters
          rw [argumentTokens, List.nil_append] at h
          exact absurd (by rw [← h]; rfl) hothers
      | cons other given =>
          simp only [argumentTokens, List.cons_append, List.append_assoc, List.nil_append,
            List.cons.injEq, true_and] at h
          exact parameterTokens_append_inj ih hreadable hgiven h

variable {type other : FlowType} {name given : String} {parameters arguments : List FlowType}
  {rest others : List Token}

theorem IsApplication.append_inj (h : type.IsApplication name parameters)
    (hother : other.IsApplication given arguments) (ih : ∀ inner ∈ parameters, inner.ReadsUp)
    (hreadable : type.Readable) (hgiven : other.Readable) (hrest : Closed rest)
    (hothers : Closed others) (heq : type.tokens ++ rest = other.tokens ++ others) :
    type.plain = other.plain ∧ rest = others := by
  rw [h.tokens, hother.tokens, List.append_assoc, List.append_assoc] at heq
  obtain ⟨hname, hreadable⟩ := h.readable.mp hreadable
  obtain ⟨hname', hgiven⟩ := hother.readable.mp hgiven
  obtain ⟨hnames, harguments⟩ := lex_append_inj hname hname' heq
  obtain ⟨hplains, htail⟩ :=
    argumentTokens_append_inj ih hreadable hgiven hrest hothers harguments
  rw [h.plain, hother.plain, hnames, hplains]
  exact ⟨rfl, htail⟩

/-- A name does not begin like a literal. -/
theorem IsApplication.tokens_append_ne (h : type.IsApplication name parameters)
    (hreadable : type.Readable) (value : String) :
    type.tokens ++ rest ≠ (literal value).tokens ++ others := by
  rw [h.tokens, lex_of_isIdentifier (h.readable.mp hreadable).1]
  intro heq
  cases (List.cons.inj heq).1

theorem IsApplication.readsUp (h : type.IsApplication name parameters)
    (ih : ∀ inner ∈ parameters, inner.ReadsUp) : type.ReadsUp := by
  intro hreadable other hother rest others hrest hothers heq
  cases other with
  | literal value => exact absurd heq (h.tokens_append_ne hreadable value)
  | named given =>
      exact h.append_inj (isApplication_named given) ih hreadable hother hrest hothers heq
  | applied given arguments =>
      exact h.append_inj (isApplication_applied given arguments) ih hreadable hother hrest hothers
        heq

theorem readsUp_literal (value : String) : (literal value).ReadsUp := by
  intro _ other hother rest others _ _ heq
  cases other with
  | literal given =>
      obtain ⟨hliteral, hrest⟩ := List.cons.inj heq
      rw [escaped_inj.mp (Token.literal.inj hliteral).2]
      exact ⟨rfl, hrest⟩
  | named given =>
      exact absurd heq.symm ((isApplication_named given).tokens_append_ne hother value)
  | applied given arguments =>
      exact absurd heq.symm ((isApplication_applied given arguments).tokens_append_ne hother value)

/-- A type is told from its tokens, and so is where it ends. -/
theorem readsUp (type : FlowType) : type.ReadsUp := by
  induction type using induct with
  | named name => exact (isApplication_named name).readsUp (by simp)
  | literal value => exact readsUp_literal value
  | applied name parameters ih => exact (isApplication_applied name parameters).readsUp ih

theorem tokens_append_mark_inj (htype : type.Readable) (hother : other.Readable) {c : Char}
    (hc : c ≠ '<') (h : type.tokens ++ .mark c :: rest = other.tokens ++ .mark c :: others) :
    type.plain = other.plain ∧ rest = others := by
  obtain ⟨hplain, hrest⟩ :=
    type.readsUp htype other hother _ _ (closed_mark hc rest) (closed_mark hc others) h
  exact ⟨hplain, (List.cons.inj hrest).2⟩

end FlowType

end ValidatorGen
