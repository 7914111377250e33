import ValidatorGen.Proofs.Code.Layout
import ValidatorGen.Proofs.Code.Literal

/-!
# What emitted text consists of

The text of an expression is made of pieces: keywords and marks, which the printer sets, and names,
types, texts and JSON values, which it takes over from the tree.  `Expr.pieces` lists them in the
order of the text, and `Piece.tokens` says what each of them is read as.  A piece is `Plain` if the
names in it hold no quotes.
-/

namespace ValidatorGen

open Code

/-- Whether a name holds no quotes. -/
def Code.Plain (name : String) : Prop := ∀ c ∈ name.toList, isQuote c = false

-- this goes through the characters of a name, not through all characters there are
instance (name : String) : Decidable (Code.Plain name) :=
  List.decidableBAll (fun c => isQuote c = false) name.toList

theorem Code.Plain.reads {name : String} (h : Plain name) : Reads name (lex name.toList) :=
  ⟨rfl, broken_notMem_lex h⟩

theorem Code.Plain.append {name other : String} (h : Plain name) (hother : Plain other) :
    Plain (name ++ other) := by
  unfold Plain
  rw [String.toList_append, List.forall_mem_append]
  exact ⟨h, hother⟩

theorem Code.plain_intercalate {separator : String} {names : List String} (h : Plain separator)
    (hnames : ∀ name ∈ names, Plain name) : Plain (separator.intercalate names) := by
  induction names with
  | nil => exact fun c hc => absurd hc List.not_mem_nil
  | cons first others ih =>
      rw [List.forall_mem_cons] at hnames
      cases others with
      | nil => exact String.intercalate_singleton ▸ hnames.1
      | cons second others =>
          rw [String.intercalate_cons_cons]
          exact (hnames.1.append h).append (ih hnames.2)

theorem Code.reads_quote (value : String) :
    Reads (quote value) [.literal '\'' (value.toList.flatMap escape)] :=
  ⟨lex_quote value, by simp⟩

theorem Code.reads_json (value : Json) : Reads value.text value.tokens := by
  refine ⟨?_, value.broken_notMem_tokens⟩
  rw [Json.text, String.toList_ofList, Json.lex_chars]

/-! ## Types -/

namespace FlowType

mutual

/-- The tokens of a type. -/
def tokens : FlowType → List Token
  | .named name => lex name.toList
  | .literal value => [.literal '\'' (value.toList.flatMap escape)]
  | .applied name parameters =>
    if parameters.isEmpty then lex name.toList
    else lex name.toList ++ .mark '<' :: (parameterTokens parameters ++ [.mark '>'])

def parameterTokens : List FlowType → List Token
  | [] => []
  | [parameter] => parameter.tokens
  | parameter :: parameters => parameter.tokens ++ .mark ',' :: parameterTokens parameters

end

mutual

theorem reads_text (type : FlowType) (h : ∀ name ∈ type.mentions, Plain name) :
    Reads type.text type.tokens := by
  match type, h with
  | .named name, h => exact (h name (by simp [mentions])).reads
  | .literal value, _ => exact reads_quote value
  | .applied name [], h => exact (h name (by simp [mentions])).reads
  | .applied name (parameter :: parameters), h =>
      rw [mentions, List.forall_mem_cons] at h
      have hparameters := reads_texts (parameter :: parameters) h.2
      have hopen : Delimits "<" [.mark '<'] := by decide
      have hclose : Delimits ">" [.mark '>'] := by decide
      simpa [text, tokens] using (h.1.reads.between hopen hparameters).before hclose

theorem reads_texts (parameters : List FlowType)
    (h : ∀ name ∈ mentionsOfAll parameters, Plain name) :
    Reads (", ".intercalate (texts parameters)) (parameterTokens parameters) := by
  match parameters, h with
  | [], _ => exact ⟨rfl, by simp [parameterTokens]⟩
  | [parameter], h =>
      rw [mentionsOfAll, List.forall_mem_append] at h
      simpa [texts, parameterTokens] using reads_text parameter h.1
  | parameter :: next :: parameters, h =>
      rw [mentionsOfAll, List.forall_mem_append] at h
      have hrest := reads_texts (next :: parameters) h.2
      simpa [texts, parameterTokens, String.intercalate_cons_cons] using
        (reads_text parameter h.1).between delimits_comma hrest

end

mutual

/-- The words of a type are those of the names that it mentions. -/
theorem exists_mention_of_word_mem (type : FlowType) {word : List Char}
    (h : .word word ∈ type.tokens) : ∃ name ∈ type.mentions, .word word ∈ lex name.toList := by
  match type, h with
  | .named name, h => exact ⟨name, by simp [mentions], h⟩
  | .literal value, h => simp [tokens] at h
  | .applied name [], h => exact ⟨name, by simp [mentions], h⟩
  | .applied name (parameter :: parameters), h =>
      simp only [tokens, List.isEmpty_cons, Bool.false_eq_true, if_false, List.mem_append,
        List.mem_cons, reduceCtorEq, List.not_mem_nil, or_false, false_or] at h
      rcases h with hname | hparameters
      · exact ⟨name, by simp [mentions], hname⟩
      · obtain ⟨found, hfound, hword⟩ :=
          exists_mention_of_word_mem_parameters (parameter :: parameters) hparameters
        exact ⟨found, List.mem_cons_of_mem _ hfound, hword⟩

theorem exists_mention_of_word_mem_parameters (parameters : List FlowType) {word : List Char}
    (h : .word word ∈ parameterTokens parameters) :
    ∃ name ∈ mentionsOfAll parameters, .word word ∈ lex name.toList := by
  match parameters, h with
  | [], h => simp [parameterTokens] at h
  | [parameter], h =>
      obtain ⟨found, hfound, hword⟩ := exists_mention_of_word_mem parameter h
      exact ⟨found, by simpa [mentionsOfAll] using hfound, hword⟩
  | parameter :: next :: parameters, h =>
      simp only [parameterTokens, List.mem_append, List.mem_cons, reduceCtorEq, false_or] at h
      rcases h with hparameter | hrest
      · obtain ⟨found, hfound, hword⟩ := exists_mention_of_word_mem parameter hparameter
        exact ⟨found, List.mem_append_left _ hfound, hword⟩
      · obtain ⟨found, hfound, hword⟩ :=
          exists_mention_of_word_mem_parameters (next :: parameters) hrest
        exact ⟨found, List.mem_append_right _ hfound, hword⟩

end

end FlowType

namespace Code

/-! ## Pieces -/

/-- The words that the printer sets. -/
inductive Keyword where
  | const
  | ret
  | when
  | otherwise
  | select
  | case
  | fallback
  | construct
  | typeOf
  | isInstance
  | mixed
  | error
  deriving DecidableEq, Repr

def Keyword.text : Keyword → String
  | const => "const"
  | ret => "return"
  | when => "if"
  | otherwise => "else"
  | select => "switch"
  | case => "case"
  | fallback => "default"
  | construct => "new"
  | typeOf => "typeof"
  | isInstance => "instanceof"
  | mixed => "mixed"
  | error => "Error"

/-- A piece of emitted text. -/
inductive Piece where
  | keyword (keyword : Keyword)
  | mark (c : Char)
  | name (name : String)
  | type (type : FlowType)
  | text (value : String)
  | json (value : Json)

namespace Piece

/-- The tokens of a piece. -/
def tokens : Piece → List Token
  | .keyword word => [.word word.text.toList]
  | .mark c => [.mark c]
  | .name given => lex given.toList
  | .type given => given.tokens
  | .text value => [.literal '\'' (value.toList.flatMap escape)]
  | .json value => value.tokens

/-- Whether what is taken over holds no quotes, or is a literal. -/
def Plain : Piece → Prop
  | .name given => Code.Plain given
  | .type given => ∀ mentioned ∈ given.mentions, Code.Plain mentioned
  | _ => True

/-- The names in a piece. -/
def names : Piece → List String
  | .name given => [given]
  | .type given => given.mentions
  | _ => []

theorem plain_iff {piece : Piece} : piece.Plain ↔ ∀ name ∈ piece.names, Code.Plain name := by
  cases piece <;> simp [Plain, names]

end Piece

/-- The tokens of several pieces, one after the other. -/
def tokensOf (pieces : List Piece) : List Token := pieces.flatMap Piece.tokens

@[simp] def Operator.pieces : Operator → List Piece
  | plus => [.mark '+']
  | identical => [.mark '=', .mark '=', .mark '=']
  | equal => [.mark '=', .mark '=']
  | unequal => [.mark '!', .mark '=']
  | both => [.mark '&', .mark '&']
  | either => [.mark '|', .mark '|']
  | isInstance => [.keyword .isInstance]

/-- The pieces of the result of a function, up to its body. -/
@[simp] def resultPieces : Option FlowType → List Piece
  | none => []
  | some type => [.mark ':', .type type, .mark '|', .keyword .error]

/-- The pieces of the type of a constant. -/
@[simp] def annotationPieces : Option FlowType → List Piece
  | none => []
  | some type => [.mark ':', .type type]

/-- The pieces of a block behind its head. -/
@[simp] def blockPieces (head body : List Piece) : List Piece :=
  head ++ .mark '\x7b' :: (body ++ [.mark '\x7d'])

/-- The pieces of a function; `lead` stands before it. -/
@[simp] def functionPieces (lead : List Piece) (parameter : String) (result : Option FlowType)
    (body : List Piece) : List Piece :=
  blockPieces (lead ++ .mark '(' :: .name parameter :: .mark ':' :: .keyword .mixed :: .mark ')' ::
    (resultPieces result ++ [.mark '=', .mark '>'])) body

mutual

@[simp] def Expr.pieces : Expr → List Piece
  | .read name => [.name name]
  | .text value => [.text value]
  | .json value => [.json value]
  | .property object name => object.pieces ++ [.mark '.', .name name]
  | .call function arguments =>
    function.pieces ++ .mark '(' :: (argumentPieces arguments ++ [.mark ')'])
  | .construct type argument =>
    .keyword .construct :: .name type :: .mark '(' :: (argument.pieces ++ [.mark ')'])
  | .typeOf operand => .keyword .typeOf :: operand.pieces
  | .not operand => .mark '!' :: operand.pieces
  | .binary operator left right => left.pieces ++ (operator.pieces ++ right.pieces)
  | .conditional condition yes no =>
    condition.pieces ++ .mark '?' :: (yes.pieces ++ .mark ':' :: no.pieces)
  | .group inner => .mark '(' :: (inner.pieces ++ [.mark ')'])
  | .function parameter result body => functionPieces [] parameter result (bodyPieces body)

@[simp] def argumentPieces : List Expr → List Piece
  | [] => []
  | [argument] => argument.pieces
  | argument :: arguments => argument.pieces ++ .mark ',' :: argumentPieces arguments

@[simp] def Stmt.pieces : Stmt → List Piece
  | .constant name type value =>
    .keyword .const :: .name name :: (annotationPieces type ++ .mark '=' :: value.pieces)
  | .record name type properties =>
    blockPieces [.keyword .const, .name name, .mark ':', .type type, .mark '=']
      (properties.flatMap fun property => [.name property, .mark ','])
  | .ret value => .keyword .ret :: value.pieces
  | .when condition body =>
    blockPieces (.keyword .when :: .mark '(' :: (condition.pieces ++ [.mark ')']))
      (bodyPieces body)
  | .orWhen condition body =>
    blockPieces (.keyword .otherwise :: .keyword .when :: .mark '(' ::
      (condition.pieces ++ [.mark ')'])) (bodyPieces body)
  | .otherwise body => blockPieces [.keyword .otherwise] (bodyPieces body)
  | .select subject clauses =>
    blockPieces (.keyword .select :: .mark '(' :: (subject.pieces ++ [.mark ')']))
      (bodyPieces clauses)
  | .case value body => .keyword .case :: .text value :: .mark ':' :: bodyPieces body
  | .fallback body => .keyword .fallback :: .mark ':' :: bodyPieces body

@[simp] def bodyPieces : List Stmt → List Piece
  | [] => []
  | statement :: statements => statement.pieces ++ bodyPieces statements

end

/-- The pieces of a declaration. -/
@[simp] def Declaration.pieces (declaration : Declaration) : List Piece :=
  functionPieces [.keyword .const, .name declaration.name, .mark '='] declaration.parameter
    (some declaration.result) (bodyPieces declaration.body)

end Code

end ValidatorGen
