import ValidatorGen.Proofs.Code.Boundaries
import ValidatorGen.Proofs.Schema.Pieces

/-!
# What the frames of a validator's code hold

The code of a validator is a frame of fixed pieces around what comes from the schema: types, names,
texts, and the code of the parts.  For each kind of frame there is a lemma here: if two frames of
the kind begin the same tokens, then they hold the same, and the tokens behind them are the same.
Of the code of the parts, nothing is asked but that it is read up to its end in this sense
(`Tells`).

A text that a message repeats is one literal token, so it never matters what the message says about
a type; what counts is the type itself, where it is written.
-/

namespace ValidatorGen.Schema

open Code

variable {rest others : List Token}

/-- Tokens that begin with the code of one expression or the other tell that `P` holds, and where
that code ends. -/
def Tells (P : Prop) (expr given : Expr) : Prop :=
  ∀ rest others, tokensOf expr.pieces ++ rest = tokensOf given.pieces ++ others → P ∧ rest = others

/-- The same for statements. -/
def TellsBody (P : Prop) (body given : List Stmt) : Prop :=
  ∀ rest others, tokensOf (bodyPieces body) ++ rest = tokensOf (bodyPieces given) ++ others →
    P ∧ rest = others

/-! ## One value -/

theorem constantCode_append_inj {type other : String} {value given : Json}
    (h : tokensOf (constantCode type value).pieces ++ rest =
      tokensOf (constantCode other given).pieces ++ others) :
    type = other ∧ value.text = given.text ∧ rest = others := by
  simp only [constantCode, hasType, failWith, naming, shown, Expr.pieces, Stmt.pieces, bodyPieces,
    functionPieces, blockPieces, resultPieces, argumentPieces, Operator.pieces, tokensOf_cons,
    tokensOf_nil, Piece.tokens, List.append_assoc, List.cons_append, List.nil_append,
    List.append_nil, List.cons.injEq, List.append_cancel_left_eq, true_and, Token.literal.injEq,
    escaped_inj] at h
  obtain ⟨rfl, -, h⟩ := h
  -- the value itself is passed over; the last message repeats its text as a literal
  have htail := Json.tokens_append_close_inj h
  simp only [List.cons.injEq, List.append_cancel_left_eq, true_and, Token.literal.injEq,
    escaped_inj, String.append_left_inj, String.append_right_inj] at htail
  exact ⟨rfl, htail⟩

/-! ## Several texts -/

/-- What stands behind the first of several comparisons. -/
def furtherTokens : List String → List Token
  | [] => []
  | values => .mark '|' :: .mark '|' :: tokensOf (isOneOf "either" values).pieces

theorem tokens_isOneOf_cons (value : String) (values : List String) :
    tokensOf (isOneOf "either" (value :: values)).pieces = .word "either".toList :: .mark '=' ::
      .mark '=' :: .mark '=' :: .literal '\'' (value.toList.flatMap escape) ::
        furtherTokens values := by
  have hname : lex "either".toList = [.word "either".toList] := lex_of_isIdentifier (by decide)
  cases values with
  | nil =>
      simp only [isOneOf, Expr.pieces, Operator.pieces, tokensOf_cons, tokensOf_nil, Piece.tokens,
        hname, List.cons_append, List.nil_append, furtherTokens]
  | cons next values =>
      simp only [isOneOf, Expr.pieces, Operator.pieces, tokensOf_cons, Piece.tokens, hname,
        List.cons_append, List.nil_append, furtherTokens]

theorem isOneOf_append_inj {values given : List String}
    (h : tokensOf (isOneOf "either" values).pieces ++ .mark ')' :: rest =
      tokensOf (isOneOf "either" given).pieces ++ .mark ')' :: others) :
    values = given ∧ rest = others := by
  induction values generalizing given with
  | nil =>
      cases given with
      | nil => exact ⟨rfl, (List.cons.inj (List.cons.inj h).2).2⟩
      | cons other given =>
          rw [tokens_isOneOf_cons] at h
          exact absurd (List.cons.inj h).1 (by decide)
  | cons value values ih =>
      cases given with
      | nil =>
          rw [tokens_isOneOf_cons] at h
          exact absurd (List.cons.inj h).1 (by decide)
      | cons other given =>
          simp only [tokens_isOneOf_cons, List.cons_append, List.cons.injEq, true_and,
            Token.literal.injEq, escaped_inj] at h
          obtain ⟨rfl, h⟩ := h
          -- the next mark tells whether there is a further comparison
          cases values with
          | nil =>
              cases given with
              | nil => exact ⟨rfl, (List.cons.inj h).2⟩
              | cons next given => exact absurd (List.cons.inj h).1 (by decide)
          | cons next values =>
              cases given with
              | nil => exact absurd (List.cons.inj h).1 (by decide)
              | cons other given =>
                  obtain ⟨hvalues, hrest⟩ := ih (List.cons.inj (List.cons.inj h).2).2
                  rw [hvalues]
                  exact ⟨rfl, hrest⟩

theorem enumerationCode_append_inj {type other : FlowType} {values given : List String}
    (htype : type.Readable) (hother : other.Readable)
    (h : tokensOf (enumerationCode type values).pieces ++ rest =
      tokensOf (enumerationCode other given).pieces ++ others) :
    type.plain = other.plain ∧ values = given ∧ rest = others := by
  simp only [enumerationCode, isError, messageOf, failWith, naming, shown, Expr.pieces, Stmt.pieces,
    bodyPieces, functionPieces, blockPieces, resultPieces, annotationPieces, argumentPieces,
    Operator.pieces, tokensOf_append, tokensOf_cons, tokensOf_nil, Piece.tokens, List.append_assoc,
    List.cons_append, List.nil_append, List.append_nil, List.cons.injEq,
    List.append_cancel_left_eq, true_and] at h
  obtain ⟨hplain, h⟩ := FlowType.tokens_append_mark_inj htype hother (by decide) h
  simp only [List.cons.injEq, List.append_cancel_left_eq, true_and] at h
  obtain ⟨hvalues, h⟩ := isOneOf_append_inj h.2
  simp only [List.cons.injEq, List.append_cancel_left_eq, true_and] at h
  exact ⟨hplain, hvalues, h.2⟩

/-! ## Objects -/

theorem properties_append_inj {names given : List String}
    (hnames : ∀ name ∈ names, isIdentifier name = true)
    (hgiven : ∀ name ∈ given, isIdentifier name = true)
    (h : tokensOf (names.flatMap fun name => [.name name, .mark ',']) ++ .mark '\x7d' :: rest =
      tokensOf (given.flatMap fun name => [.name name, .mark ',']) ++ .mark '\x7d' :: others) :
    names = given ∧ rest = others := by
  have htokens {name : String} (names : List String) (hname : isIdentifier name = true) :
      tokensOf ((name :: names).flatMap fun name => [.name name, .mark ',']) =
        .word name.toList :: .mark ',' ::
          tokensOf (names.flatMap fun name => [.name name, .mark ',']) := by
    rw [List.flatMap_cons, tokensOf_append, tokensOf_cons, Piece.tokens, lex_of_isIdentifier hname]
    rfl
  -- a list ends at the brace, where the other one would go on with a word
  induction names generalizing given with
  | nil =>
      cases given with
      | nil => exact ⟨rfl, (List.cons.inj h).2⟩
      | cons other given =>
          rw [htokens given (hgiven other List.mem_cons_self)] at h
          cases (List.cons.inj h).1
  | cons name names ih =>
      rw [List.forall_mem_cons] at hnames
      rw [htokens names hnames.1] at h
      cases given with
      | nil => cases (List.cons.inj h).1
      | cons other given =>
          rw [List.forall_mem_cons] at hgiven
          rw [htokens given hgiven.1] at h
          obtain ⟨hname, htail⟩ := List.cons.inj h
          obtain ⟨hnames, hrest⟩ := ih hnames.2 hgiven.2 (List.cons.inj htail).2
          rw [String.toList_inj.mp (Token.word.inj hname), hnames]
          exact ⟨rfl, hrest⟩

theorem tellsBody_buildRecord {type other : FlowType} {names given : List String}
    (htype : type.Readable) (hother : other.Readable)
    (hnames : ∀ name ∈ names, isIdentifier name = true)
    (hgiven : ∀ name ∈ given, isIdentifier name = true) :
    TellsBody (names = given) (buildRecord type names) (buildRecord other given) := by
  intro rest others h
  simp only [buildRecord, Expr.pieces, Stmt.pieces, bodyPieces, blockPieces, tokensOf_append,
    tokensOf_cons, tokensOf_nil, Piece.tokens, List.append_assoc, List.cons_append,
    List.nil_append, List.append_nil, List.cons.injEq, List.append_cancel_left_eq, true_and] at h
  obtain ⟨-, h⟩ := FlowType.tokens_append_mark_inj htype hother (by decide) h
  obtain ⟨hnames, h⟩ := properties_append_inj hnames hgiven (List.cons.inj h).2
  simp only [List.cons.injEq, List.append_cancel_left_eq, true_and] at h
  exact ⟨hnames, h⟩

theorem objectCode_append_inj {type other : FlowType} {members given : List Stmt}
    (htype : type.Readable) (hother : other.Readable)
    (h : tokensOf (objectCode type members).pieces ++ rest =
      tokensOf (objectCode other given).pieces ++ others) :
    type.plain = other.plain ∧
      tokensOf (bodyPieces members) ++ .mark '\x7d' :: .mark '\x7d' :: rest =
        tokensOf (bodyPieces given) ++ .mark '\x7d' :: .mark '\x7d' :: others := by
  simp only [objectCode, hasType, isError, failWith, naming, shown, Expr.pieces, Stmt.pieces,
    bodyPieces, functionPieces, blockPieces, resultPieces, argumentPieces, Operator.pieces,
    tokensOf_append, tokensOf_cons, tokensOf_nil, Piece.tokens, List.append_assoc,
    List.cons_append, List.nil_append, List.append_nil, List.cons.injEq,
    List.append_cancel_left_eq, true_and] at h
  obtain ⟨hplain, h⟩ := FlowType.tokens_append_mark_inj htype hother (by decide) h
  simp only [List.cons.injEq, List.append_cancel_left_eq, true_and] at h
  exact ⟨hplain, h⟩

theorem fieldCode_append_inj {P : Prop} {name other : String} (isOptional : Bool)
    {validator given : Expr} {body final : List Stmt} (hname : isIdentifier name = true)
    (hother : isIdentifier other = true) (htells : Tells P validator given)
    (h : tokensOf (bodyPieces (fieldCode name isOptional validator body)) ++ rest =
      tokensOf (bodyPieces (fieldCode other isOptional given final)) ++ others) :
    name = other ∧ P ∧ tokensOf (bodyPieces body) ++ .mark '\x7d' :: rest =
      tokensOf (bodyPieces final) ++ .mark '\x7d' :: others := by
  cases isOptional
  all_goals
    simp only [fieldCode, isAbsent, isError, messageOf, failWith, Expr.pieces, Stmt.pieces,
      bodyPieces, blockPieces, annotationPieces, argumentPieces, Operator.pieces, tokensOf_append,
      tokensOf_cons, tokensOf_nil, Piece.tokens, List.append_assoc, List.cons_append,
      List.nil_append, List.append_nil, List.cons.injEq, true_and, Bool.false_eq_true, if_true,
      if_false] at h
    -- the name of the field comes first, and the rest of the frame repeats it
    obtain ⟨rfl, h⟩ := lex_append_inj hname hother h
    simp only [List.cons.injEq, List.append_cancel_left_eq, true_and] at h
    obtain ⟨hpart, h⟩ := htells _ _ h
    simp only [List.cons.injEq, List.append_cancel_left_eq, true_and] at h
    exact ⟨rfl, hpart, h⟩

/-! ## Checkers of parts -/

theorem bound_append_inj {P : Prop} {checker : Checker} {validator given : Expr}
    (htells : Tells P validator given)
    (h : tokensOf (bound checker [validator]).pieces ++ rest =
      tokensOf (bound checker [given]).pieces ++ others) : P ∧ rest = others := by
  simp only [bound, Expr.pieces, argumentPieces, tokensOf_append, tokensOf_cons, tokensOf_nil,
    Piece.tokens, List.append_assoc, List.cons_append, List.nil_append, List.append_nil,
    List.cons.injEq, List.append_cancel_left_eq, true_and] at h
  obtain ⟨hpart, h⟩ := htells _ _ h
  exact ⟨hpart, (List.cons.inj h).2⟩

theorem bound_pair_append_inj {P Q : Prop} {checker : Checker} {key value given other : Expr}
    (hkey : Tells P key given) (hvalue : Tells Q value other)
    (h : tokensOf (bound checker [key, value]).pieces ++ rest =
      tokensOf (bound checker [given, other]).pieces ++ others) : P ∧ Q ∧ rest = others := by
  simp only [bound, Expr.pieces, argumentPieces, tokensOf_append, tokensOf_cons, tokensOf_nil,
    Piece.tokens, List.append_assoc, List.cons_append, List.nil_append, List.append_nil,
    List.cons.injEq, List.append_cancel_left_eq, true_and] at h
  obtain ⟨hpart, h⟩ := hkey _ _ h
  obtain ⟨hother, h⟩ := hvalue _ _ (List.cons.inj h).2
  exact ⟨hpart, hother, (List.cons.inj h).2⟩

/-! ## Sums -/

theorem case_append_inj {P : Prop} {key other : String} {validator given : Expr}
    (htells : Tells P validator given)
    (h : tokensOf (Stmt.case key [.ret (.call (.group validator) [.read "x"])]).pieces ++ rest =
      tokensOf (Stmt.case other [.ret (.call (.group given) [.read "x"])]).pieces ++ others) :
    key = other ∧ P ∧ rest = others := by
  simp only [Expr.pieces, Stmt.pieces, bodyPieces, argumentPieces, tokensOf_append,
    tokensOf_cons, tokensOf_nil, Piece.tokens, List.append_assoc, List.cons_append,
    List.nil_append, List.append_nil, List.cons.injEq, true_and, Token.literal.injEq,
    escaped_inj] at h
  obtain ⟨hkey, h⟩ := h
  obtain ⟨hpart, h⟩ := htells _ _ h
  simp only [List.cons.injEq, List.append_cancel_left_eq, true_and] at h
  exact ⟨hkey, hpart, h⟩

/-- A refinement holds its type, its discriminant and the validator of that, and then the cases up
to the keyword of the clause behind them. -/
theorem refinement_append_inj {type other : FlowType} {discriminant given : String}
    {tag validator : Expr} {cases final : List Stmt} {P : Prop} (htype : type.Readable)
    (hother : other.Readable) (hkey : isIdentifier (refinementName type) = true)
    (hgivenKey : isIdentifier (refinementName other) = true) (htells : Tells P tag validator)
    (h : tokensOf (refinement type discriminant tag cases).pieces =
      tokensOf (refinement other given validator final).pieces) :
    type.plain = other.plain ∧ discriminant = given ∧ P ∧ ∃ rest others,
      tokensOf (bodyPieces cases) ++ .word Keyword.fallback.text.toList :: rest =
        tokensOf (bodyPieces final) ++ .word Keyword.fallback.text.toList :: others := by
  simp only [refinement, hasDiscriminant, hasType, isError, messageOf, failWith, Expr.pieces,
    Stmt.pieces, bodyPieces, bodyPieces_append, Declaration.pieces, functionPieces, blockPieces,
    resultPieces, annotationPieces, argumentPieces, Operator.pieces, tokensOf_append,
    tokensOf_cons, tokensOf_nil, Piece.tokens, List.append_assoc, List.cons_append,
    List.nil_append, List.append_nil, List.cons.injEq, true_and] at h
  -- the name of the refinement says less than its type, which follows
  obtain ⟨-, h⟩ := lex_append_inj hkey hgivenKey h
  simp only [List.cons.injEq, List.append_cancel_left_eq, true_and] at h
  obtain ⟨hplain, h⟩ := FlowType.tokens_append_mark_inj htype hother (by decide) h
  simp only [List.cons.injEq, List.append_cancel_left_eq, true_and, Token.literal.injEq,
    escaped_inj] at h
  obtain ⟨rfl, h⟩ := h
  simp only [List.cons.injEq, List.append_cancel_left_eq, true_and] at h
  obtain ⟨htag, h⟩ := htells _ _ h
  simp only [List.cons.injEq, List.append_cancel_left_eq, true_and] at h
  exact ⟨hplain, rfl, htag, _, _, h⟩

end ValidatorGen.Schema
