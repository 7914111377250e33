import ValidatorGen.Proofs.Code.Boundaries

/-!
# Brackets

A text is `WellFormed` if every literal ends on its line and the brackets outside literals are
nested and closed.  `wellFormed_print` and `wellFormed_printDeclaration` say that printed code is,
as long as the names and types that are taken over hold neither quotes nor brackets.

## Strategy

`dueBehind` reads brackets token by token and keeps those that still have to come.  That nothing is
due in the end does not carry an induction, since a part of a text stands within brackets of others.
What does is that a part leaves the brackets that are due as it finds them (`Balanced`).  Balanced
tokens may be set one behind the other and between two brackets that belong together, and there is
nothing else that the printer does.
-/

namespace ValidatorGen

namespace Code

def brackets : List Char := ['(', ')', '[', ']', '\x7b', '\x7d']

def isBracket (c : Char) : Bool := brackets.contains c

/-- The bracket that closes what a bracket opens, if it opens something. -/
def closing? : Char → Option Char
  | '(' => some ')'
  | '[' => some ']'
  | '\x7b' => some '\x7d'
  | _ => none

/-- The brackets that are due behind a token, the next one first, if `due` are those before it.
There are none to tell if the token closes something else than the innermost of what is open. -/
def dueBehind (due : List Char) : Token → Option (List Char)
  | .mark c =>
    if isBracket c then
      match closing? c with
      | some closing => some (closing :: due)
      | none => if due.head? = some c then some due.tail else none
    else some due
  | _ => some due

/-- Brackets are nested, and none stays open. -/
def Nested (tokens : List Token) : Prop := tokens.foldlM dueBehind [] = some []

instance (tokens : List Token) : Decidable (Nested tokens) :=
  inferInstanceAs (Decidable (_ = _))

example : Nested (lex "f('(', [x])".toList) ∧ ¬Nested (lex "([)]".toList) := by decide

/-- Literals end on their lines, and the brackets outside them are nested and closed. -/
structure WellFormed (text : String) : Prop where
  whole : .broken ∉ lex text.toList
  nested : Nested (lex text.toList)

/-- Tokens leave the brackets that are due as they are. -/
def Balanced (tokens : List Token) : Prop := ∀ due, tokens.foldlM dueBehind due = some due

theorem Balanced.nested {tokens : List Token} (h : Balanced tokens) : Nested tokens := h []

theorem Reads.wellFormed {text : String} {tokens : List Token} (h : Reads text tokens)
    (hbalanced : Balanced tokens) : WellFormed text where
  whole := by rw [h.1]; exact h.2
  nested := by rw [h.1]; exact hbalanced.nested

/-! ## Balanced tokens -/

section Balanced

variable {tokens others : List Token} {token : Token} {c : Char}

theorem balanced_nil : Balanced [] := fun _ => rfl

theorem balanced_singleton (h : ∀ due, dueBehind due token = some due) : Balanced [token] := by
  intro due
  rw [List.foldlM_cons, h due]
  rfl

theorem balanced_word (word : List Char) : Balanced [.word word] := balanced_singleton fun _ => rfl

theorem balanced_literal (quote : Char) (content : List Char) :
    Balanced [.literal quote content] := balanced_singleton fun _ => rfl

theorem balanced_mark (h : isBracket c = false) : Balanced [.mark c] :=
  balanced_singleton fun due => by simp [dueBehind, h]

theorem Balanced.append (h : Balanced tokens) (hothers : Balanced others) :
    Balanced (tokens ++ others) := by
  intro due
  rw [List.foldlM_append, h due]
  exact hothers due

theorem Balanced.cons (h : Balanced [token]) (hothers : Balanced others) :
    Balanced (token :: others) := h.append hothers

/-- What stands between two brackets that belong together. -/
theorem Balanced.enclosed {closing : Char} (h : Balanced tokens) (hc : closing? c = some closing) :
    Balanced (Token.mark c :: (tokens ++ [.mark closing])) := by
  have hbrackets : isBracket c = true ∧ isBracket closing = true ∧ closing? closing = none := by
    unfold closing? at hc
    split at hc <;> cases hc <;> decide
  intro due
  have hopens : dueBehind due (.mark c) = some (closing :: due) := by
    simp [dueBehind, hbrackets, hc]
  have hcloses : dueBehind (closing :: due) (.mark closing) = some due := by
    simp [dueBehind, hbrackets]
  calc (Token.mark c :: (tokens ++ [.mark closing])).foldlM dueBehind due
      = (tokens ++ [Token.mark closing]).foldlM dueBehind (closing :: due) := by
        rw [List.foldlM_cons, hopens]; rfl
    _ = [Token.mark closing].foldlM dueBehind (closing :: due) := by
        rw [List.foldlM_append, h]; rfl
    _ = some due := by rw [List.foldlM_cons, hcloses]; rfl

theorem balanced_of_forall (h : ∀ token ∈ tokens, Balanced [token]) : Balanced tokens := by
  induction tokens with
  | nil => exact balanced_nil
  | cons token others ih =>
      rw [List.forall_mem_cons] at h
      exact h.1.cons (ih h.2)

/-- The marks of a text are among its characters. -/
theorem balanced_lex {text : List Char} (h : ∀ c ∈ text, isBracket c = false) :
    Balanced (lex text) := by
  refine balanced_of_forall fun token htoken => ?_
  cases token with
  | word word => exact balanced_word word
  | literal quote content => exact balanced_literal quote content
  | broken => exact balanced_singleton fun _ => rfl
  | mark c =>
      have hmem : c ∈ text := Decidable.of_not_not fun hnot => mark_notMem_lex hnot htoken
      exact balanced_mark (h c hmem)

end Balanced

/-- No bracket is among the characters of a kind to which none of the brackets belongs. -/
theorem isBracket_eq_false {kind : Char → Bool} {c : Char} (hkind : brackets.any kind = false)
    (hc : kind c = true) : isBracket c = false := by
  rw [isBracket, ← Bool.not_eq_true, List.contains_iff_mem]
  exact fun hmem => List.any_eq_false.mp hkind c hmem hc

/-- Whether a name holds no brackets. -/
def Bracketless (name : String) : Prop := ∀ c ∈ name.toList, isBracket c = false

-- this goes through the characters of a name, not through all characters there are
instance (name : String) : Decidable (Bracketless name) :=
  List.decidableBAll (fun c => isBracket c = false) name.toList

theorem balanced_comma : Balanced [.mark ','] := balanced_mark (by decide)

theorem balanced_colon : Balanced [.mark ':'] := balanced_mark (by decide)

theorem balanced_equals : Balanced [.mark '='] := balanced_mark (by decide)

end Code

open Code

/-! ## Values and types -/

namespace Json

theorem balanced_lex_chars (number : Number) : Balanced (lex number.chars) :=
  balanced_lex fun c hc => isBracket_eq_false rfl (number.numeral_chars c hc)

mutual

theorem balanced_tokens (json : Json) : Balanced json.tokens := by
  match json with
  | .null => exact balanced_word _
  | .bool true => exact balanced_word _
  | .bool false => exact balanced_word _
  | .number value => exact balanced_lex_chars value
  | .string value => exact balanced_literal _ _
  | .array items => exact (balanced_itemTokens items).enclosed (by decide)
  | .object members => exact (balanced_memberTokens members).enclosed (by decide)

theorem balanced_itemTokens (items : List Json) : Balanced (itemTokens items) := by
  match items with
  | [] => exact balanced_nil
  | [item] => exact balanced_tokens item
  | item :: next :: items =>
      rw [itemTokens_cons_cons]
      exact (balanced_tokens item).append
        (balanced_comma.cons (balanced_itemTokens (next :: items)))

theorem balanced_memberTokens (members : List (String × Json)) :
    Balanced (memberTokens members) := by
  have hname (name : String) {tokens : List Token} (h : Balanced tokens) :
      Balanced (.literal '"' (name.toList.flatMap escape) :: .mark ':' :: tokens) :=
    (balanced_literal _ _).cons (balanced_colon.cons h)
  match members with
  | [] => exact balanced_nil
  | [(name, value)] => exact hname name (balanced_tokens value)
  | (name, value) :: next :: members =>
      rw [memberTokens_cons_cons]
      exact hname name ((balanced_tokens value).append
        (balanced_comma.cons (balanced_memberTokens (next :: members))))

end

end Json

namespace FlowType

mutual

theorem balanced_tokens (type : FlowType) (h : ∀ name ∈ type.mentions, Bracketless name) :
    Balanced type.tokens := by
  match type, h with
  | .named name, h => exact balanced_lex (h name (by simp [mentions]))
  | .literal value, _ => exact balanced_literal _ _
  | .applied name [], h => exact balanced_lex (h name (by simp [mentions]))
  | .applied name (parameter :: parameters), h =>
      rw [mentions, List.forall_mem_cons] at h
      have hopen : Balanced [.mark '<'] := balanced_mark (by decide)
      have hclose : Balanced [.mark '>'] := balanced_mark (by decide)
      have hparameters := balanced_parameterTokens (parameter :: parameters) h.2
      rw [tokens, if_neg (by simp)]
      exact (balanced_lex h.1).append (hopen.cons (hparameters.append hclose))

theorem balanced_parameterTokens (parameters : List FlowType)
    (h : ∀ name ∈ mentionsOfAll parameters, Bracketless name) :
    Balanced (parameterTokens parameters) := by
  match parameters, h with
  | [], _ => exact balanced_nil
  | [parameter], h =>
      rw [mentionsOfAll, List.forall_mem_append] at h
      exact balanced_tokens parameter h.1
  | parameter :: next :: parameters, h =>
      rw [mentionsOfAll, List.forall_mem_append] at h
      rw [parameterTokens_cons_cons]
      exact (balanced_tokens parameter h.1).append
        (balanced_comma.cons (balanced_parameterTokens (next :: parameters) h.2))

end

end FlowType

/-! ## Printed code -/

namespace Code

/-- Whether the names in a piece hold no brackets. -/
def Piece.Bracketless (piece : Piece) : Prop := ∀ name ∈ piece.names, Code.Bracketless name

variable {pieces inner : List Piece}

theorem balanced_keyword (keyword : Keyword) : Balanced (Piece.keyword keyword).tokens :=
  balanced_word _

theorem balanced_text (value : String) : Balanced (Piece.text value).tokens :=
  balanced_literal _ _

theorem balanced_name {name : String} (h : Piece.Bracketless (.name name)) :
    Balanced (Piece.name name).tokens := balanced_lex (h name List.mem_cons_self)

theorem balanced_type {type : FlowType} (h : Piece.Bracketless (.type type)) :
    Balanced (Piece.type type).tokens := type.balanced_tokens h

theorem balanced_parenthesized (h : Balanced (tokensOf inner)) :
    Balanced (tokensOf (.mark '(' :: (inner ++ [.mark ')']))) := by
  rw [tokensOf_cons, tokensOf_append]
  exact h.enclosed (by decide)

theorem balanced_block (h : Balanced (tokensOf pieces)) (hinner : Balanced (tokensOf inner)) :
    Balanced (tokensOf (blockPieces pieces inner)) := by
  rw [blockPieces, tokensOf_append, tokensOf_cons, tokensOf_append]
  exact h.append (hinner.enclosed (by decide))

theorem balanced_operator (operator : Operator) : Balanced (tokensOf operator.pieces) := by
  cases operator with
  | isInstance => exact balanced_word _
  | _ => exact balanced_of_forall (by simp [Piece.tokens, balanced_mark, isBracket, brackets])

theorem balanced_annotationPieces {type : Option FlowType}
    (h : ∀ piece ∈ annotationPieces type, piece.Bracketless) :
    Balanced (tokensOf (annotationPieces type)) := by
  cases type with
  | none => exact balanced_nil
  | some type =>
      have htype := balanced_type (h (.type type) (by simp))
      simpa [Piece.tokens] using balanced_colon.cons htype

theorem balanced_function {lead : List Piece} {parameter : String} {result : Option FlowType}
    (hlead : Balanced (tokensOf lead))
    (h : ∀ piece ∈ .name parameter :: resultPieces result, piece.Bracketless)
    (hinner : Balanced (tokensOf inner)) :
    Balanced (tokensOf (functionPieces lead parameter result inner)) := by
  rw [List.forall_mem_cons] at h
  have hparameters : Balanced (tokensOf (.mark '(' ::
      ([.name parameter, .mark ':', .keyword .mixed] ++ [.mark ')']))) :=
    balanced_parenthesized ((balanced_name h.1).append
      (balanced_colon.cons (balanced_keyword .mixed)))
  have hresult : Balanced (tokensOf (resultPieces result)) := by
    cases result with
    | none => exact balanced_nil
    | some type =>
        have htype := balanced_type (h.2 (.type type) (by simp))
        have herror : Balanced (.mark '|' :: (Piece.keyword .error).tokens) :=
          Balanced.cons (balanced_mark (by decide)) (balanced_keyword .error)
        simpa [Piece.tokens] using balanced_colon.cons (htype.append herror)
  have harrow : Balanced (tokensOf [.mark '=', .mark '>']) :=
    balanced_equals.cons (balanced_mark (by decide))
  have hhead := (hlead.append hparameters).append (hresult.append harrow)
  refine balanced_block ?_ hinner
  simpa using hhead

theorem balanced_properties (properties : List String)
    (h : ∀ piece ∈ properties.flatMap fun property => [Piece.name property, .mark ','],
      piece.Bracketless) :
    Balanced (tokensOf (properties.flatMap fun property => [.name property, .mark ','])) := by
  induction properties with
  | nil => exact balanced_nil
  | cons property properties ih =>
      rw [List.flatMap_cons, List.forall_mem_append] at h
      rw [List.flatMap_cons, tokensOf_append]
      have hproperty := balanced_name (h.1 (.name property) (by simp))
      exact (hproperty.append balanced_comma).append (ih h.2)

mutual

theorem balanced_expr (expr : Expr) (h : ∀ piece ∈ expr.pieces, piece.Bracketless) :
    Balanced (tokensOf expr.pieces) := by
  match expr, h with
  | .read name, h => simpa using balanced_name (h (.name name) (by simp))
  | .text value, _ => exact balanced_text value
  | .json value, _ => simpa [Piece.tokens] using value.balanced_tokens
  | .property object name, h =>
      rw [Expr.pieces, List.forall_mem_append] at h
      have hname := balanced_name (h.2 (.name name) (by simp))
      have hdot : Balanced [.mark '.'] := balanced_mark (by decide)
      simpa [Piece.tokens] using (balanced_expr object h.1).append (hdot.cons hname)
  | .call function arguments, h =>
      rw [Expr.pieces, List.forall_mem_append, List.forall_mem_cons, List.forall_mem_append] at h
      rw [Expr.pieces, tokensOf_append]
      exact (balanced_expr function h.1).append
        (balanced_parenthesized (balanced_arguments arguments h.2.2.1))
  | .construct type argument, h =>
      simp only [Expr.pieces, List.forall_mem_cons, List.forall_mem_append] at h
      obtain ⟨-, htype, -, hargument, -⟩ := h
      exact ((balanced_keyword .construct).append (balanced_name htype)).append
        (balanced_parenthesized (balanced_expr argument hargument))
  | .typeOf operand, h =>
      rw [Expr.pieces, List.forall_mem_cons] at h
      exact (balanced_keyword .typeOf).append (balanced_expr operand h.2)
  | .not operand, h =>
      rw [Expr.pieces, List.forall_mem_cons] at h
      exact Balanced.cons (balanced_mark (by decide)) (balanced_expr operand h.2)
  | .binary operator left right, h =>
      rw [Expr.pieces, List.forall_mem_append, List.forall_mem_append] at h
      rw [Expr.pieces, tokensOf_append, tokensOf_append]
      exact (balanced_expr left h.1).append
        ((balanced_operator operator).append (balanced_expr right h.2.2))
  | .conditional condition yes no, h =>
      simp only [Expr.pieces, List.forall_mem_cons, List.forall_mem_append] at h
      obtain ⟨hcondition, -, hyes, -, hno⟩ := h
      have hquestion : Balanced [.mark '?'] := balanced_mark (by decide)
      rw [Expr.pieces, tokensOf_append, tokensOf_cons, tokensOf_append]
      exact (balanced_expr condition hcondition).append (hquestion.append
        ((balanced_expr yes hyes).append (balanced_colon.append (balanced_expr no hno))))
  | .group inner, h =>
      simp only [Expr.pieces, List.forall_mem_cons, List.forall_mem_append] at h
      exact balanced_parenthesized (balanced_expr inner h.2.1)
  | .function parameter result body, h =>
      simp only [Expr.pieces, functionPieces, blockPieces, List.forall_mem_cons,
        List.forall_mem_append] at h
      obtain ⟨⟨-, -, hparameter, -, -, -, hresult, -⟩, -, hbody, -⟩ := h
      have hnames := List.forall_mem_cons.mpr ⟨hparameter, hresult⟩
      exact balanced_function balanced_nil hnames (balanced_body body hbody)

theorem balanced_arguments (arguments : List Expr)
    (h : ∀ piece ∈ argumentPieces arguments, piece.Bracketless) :
    Balanced (tokensOf (argumentPieces arguments)) := by
  match arguments, h with
  | [], _ => exact balanced_nil
  | [argument], h => exact balanced_expr argument h
  | argument :: next :: arguments, h =>
      simp only [argumentPieces, List.forall_mem_cons, List.forall_mem_append] at h
      obtain ⟨hargument, -, harguments⟩ := h
      have hfirst := balanced_expr argument hargument
      have hrest := balanced_arguments (next :: arguments) harguments
      simpa [Piece.tokens] using hfirst.append (balanced_comma.cons hrest)

theorem balanced_stmt (stmt : Stmt) (h : ∀ piece ∈ stmt.pieces, piece.Bracketless) :
    Balanced (tokensOf stmt.pieces) := by
  match stmt, h with
  | .constant name type value, h =>
      simp only [Stmt.pieces, List.forall_mem_cons, List.forall_mem_append] at h
      obtain ⟨-, hname, htype, -, hvalue⟩ := h
      have hbound := (balanced_keyword .const).append (balanced_name hname)
      have hwhole := (hbound.append (balanced_annotationPieces htype)).append
        (balanced_equals.cons (balanced_expr value hvalue))
      simpa [Piece.tokens] using hwhole
  | .record name type properties, h =>
      simp only [Stmt.pieces, blockPieces, List.forall_mem_cons, List.forall_mem_append] at h
      obtain ⟨⟨-, hname, -, htype, -⟩, -, hproperties, -⟩ := h
      have hbound := (balanced_keyword .const).append (balanced_name hname)
      have hhead := hbound.append
        (balanced_colon.cons ((balanced_type htype).append balanced_equals))
      refine balanced_block ?_ (balanced_properties properties hproperties)
      simpa [Piece.tokens] using hhead
  | .ret value, h =>
      rw [Stmt.pieces, List.forall_mem_cons] at h
      exact (balanced_keyword .ret).append (balanced_expr value h.2)
  | .when condition body, h =>
      simp only [Stmt.pieces, blockPieces, List.forall_mem_cons, List.forall_mem_append] at h
      obtain ⟨⟨-, -, hcondition, -⟩, -, hbody, -⟩ := h
      have hhead := (balanced_keyword .when).append
        (balanced_parenthesized (balanced_expr condition hcondition))
      exact balanced_block hhead (balanced_body body hbody)
  | .orWhen condition body, h =>
      simp only [Stmt.pieces, blockPieces, List.forall_mem_cons, List.forall_mem_append] at h
      obtain ⟨⟨-, -, -, hcondition, -⟩, -, hbody, -⟩ := h
      have hhead := (balanced_keyword .when).append
        (balanced_parenthesized (balanced_expr condition hcondition))
      exact balanced_block ((balanced_keyword .otherwise).append hhead) (balanced_body body hbody)
  | .otherwise body, h =>
      simp only [Stmt.pieces, blockPieces, List.forall_mem_cons, List.forall_mem_append] at h
      obtain ⟨-, -, hbody, -⟩ := h
      exact balanced_block (balanced_keyword .otherwise) (balanced_body body hbody)
  | .select subject clauses, h =>
      simp only [Stmt.pieces, blockPieces, List.forall_mem_cons, List.forall_mem_append] at h
      obtain ⟨⟨-, -, hsubject, -⟩, -, hclauses, -⟩ := h
      have hhead := (balanced_keyword .select).append
        (balanced_parenthesized (balanced_expr subject hsubject))
      exact balanced_block hhead (balanced_body clauses hclauses)
  | .case value body, h =>
      simp only [Stmt.pieces, List.forall_mem_cons] at h
      obtain ⟨-, -, -, hbody⟩ := h
      have hhead := (balanced_keyword .case).append (balanced_text value)
      exact hhead.append (balanced_colon.cons (balanced_body body hbody))
  | .fallback body, h =>
      simp only [Stmt.pieces, List.forall_mem_cons] at h
      obtain ⟨-, -, hbody⟩ := h
      exact (balanced_keyword .fallback).append (balanced_colon.cons (balanced_body body hbody))

theorem balanced_body (body : List Stmt) (h : ∀ piece ∈ bodyPieces body, piece.Bracketless) :
    Balanced (tokensOf (bodyPieces body)) := by
  match body, h with
  | [], _ => exact balanced_nil
  | statement :: statements, h =>
      rw [bodyPieces, List.forall_mem_append] at h
      rw [bodyPieces, tokensOf_append]
      exact (balanced_stmt statement h.1).append (balanced_body statements h.2)

end

theorem wellFormed_print {expr : Expr} (hplain : ∀ piece ∈ expr.pieces, piece.Plain)
    (h : ∀ piece ∈ expr.pieces, piece.Bracketless) : WellFormed expr.print :=
  (reads_print hplain).wellFormed (balanced_expr expr h)

theorem wellFormed_printDeclaration {declaration : Declaration}
    (hplain : ∀ piece ∈ declaration.pieces, piece.Plain)
    (h : ∀ piece ∈ declaration.pieces, piece.Bracketless) : WellFormed declaration.print := by
  refine (reads_printDeclaration hplain).wellFormed ?_
  simp only [Declaration.pieces, functionPieces, blockPieces, List.forall_mem_cons,
    List.forall_mem_append] at h
  obtain ⟨⟨⟨-, hname, -⟩, -, hparameter, -, -, -, hresult, -⟩, -, hbody, -⟩ := h
  have hlead := (balanced_keyword .const).append ((balanced_name hname).append balanced_equals)
  have hnames := List.forall_mem_cons.mpr ⟨hparameter, hresult⟩
  exact balanced_function hlead hnames (balanced_body declaration.body hbody)

end Code

end ValidatorGen
