import ValidatorGen.Proofs.Code.Pieces
import ValidatorGen.Proofs.Code.Quoted
import ValidatorGen.Proofs.Text.Lines

/-!
# Literals stand in printed code

Whatever text a piece of code writes as a literal, that literal stands in the printed code, whatever
stands around it: `isInfix_print` and `isInfix_printDeclaration`.  Unlike what is known of tokens
this does not depend on the names that are taken over, which may hold quotes and line feeds.

## Strategy

A literal lies within a line, so it stands on one wherever it is taken over, and it stays there when
the lines around it are glued, settled and indented.  The induction is on the tree of the code.
-/

namespace ValidatorGen

namespace FlowType

mutual

/-- The texts of the literals in a type. -/
def literals : FlowType → List String
  | .named _ => []
  | .literal value => [value]
  | .applied _ parameters => literalsOfAll parameters

def literalsOfAll : List FlowType → List String
  | [] => []
  | parameter :: parameters => parameter.literals ++ literalsOfAll parameters

end

end FlowType

namespace Code

open Lines

/-- The texts that a piece writes as literals in single quotes. -/
def Piece.quoted : Piece → List String
  | .text value => [value]
  | .type given => given.literals
  | _ => []

/-- The texts that pieces write as literals, in their order. -/
def quotedOf (pieces : List Piece) : List String := pieces.flatMap Piece.quoted

@[simp] theorem quotedOf_nil : quotedOf [] = [] := rfl

@[simp] theorem quotedOf_cons (piece : Piece) (pieces : List Piece) :
    quotedOf (piece :: pieces) = piece.quoted ++ quotedOf pieces := rfl

@[simp] theorem quotedOf_append (pieces others : List Piece) :
    quotedOf (pieces ++ others) = quotedOf pieces ++ quotedOf others := List.flatMap_append

@[simp] theorem quotedOf_operator (operator : Operator) : quotedOf operator.pieces = [] := by
  cases operator <;> rfl

theorem quotedOf_properties (properties : List String) :
    quotedOf (properties.flatMap fun property => [.name property, .mark ',']) = [] := by
  induction properties with
  | nil => rfl
  | cons property properties ih =>
      rw [List.flatMap_cons, quotedOf_append, ih]
      rfl

theorem inline_quote (text : String) : Inline (quote text).toList where
  ne_nil := by simp [toList_quote]
  noFeed hmem := absurd (isPrintable_of_mem_quote text _ hmem) (by decide)
  noReturn hmem := absurd (isPrintable_of_mem_quote text _ hmem) (by decide)

variable {value : String}

mutual

theorem isInfix_text (type : FlowType) (h : value ∈ type.literals) :
    (quote value).toList <:+: type.text.toList := by
  match type with
  | .named name => exact absurd h List.not_mem_nil
  | .literal other =>
      obtain rfl := List.mem_singleton.mp h
      exact List.infix_refl _
  | .applied name [] => exact absurd h List.not_mem_nil
  | .applied name (parameter :: parameters) =>
      obtain ⟨text, hmem, hwithin⟩ := exists_mem_texts (parameter :: parameters) h
      rw [FlowType.text, if_neg (by simp), String.toList_append, String.toList_append]
      exact (hwithin.trans (Text.isInfix_intercalate hmem)).trans
        ((List.suffix_append _ _).isInfix.trans (List.prefix_append _ _).isInfix)

theorem exists_mem_texts (parameters : List FlowType)
    (h : value ∈ FlowType.literalsOfAll parameters) :
    ∃ text ∈ FlowType.texts parameters, (quote value).toList <:+: text.toList := by
  match parameters with
  | [] => exact absurd h List.not_mem_nil
  | parameter :: parameters =>
      rcases List.mem_append.mp h with h | h
      · exact ⟨parameter.text, List.mem_cons_self, isInfix_text parameter h⟩
      · obtain ⟨text, hmem, hwithin⟩ := exists_mem_texts parameters h
        exact ⟨text, List.mem_cons_of_mem _ hmem, hwithin⟩

end

/-! ## Blocks -/

section

variable {part : List Char} {head body : Lines}

theorem stands_blockLines (hpart : Inline part) (h : Stands part head ∨ Stands part body) :
    Stands part (blockLines head body) := by
  unfold blockLines
  rw [stands_append, stands_append]
  refine Or.inl (h.imp (fun hhead => ?_) (stands_indent hpart))
  exact stands_settle hpart (stands_concat List.mem_cons_self hhead)

theorem stands_clauseLines (hpart : Inline part) (h : Stands part head ∨ Stands part body) :
    Stands part (clauseLines head body) :=
  stands_append.mpr (h.imp (stands_settle hpart) (stands_indent hpart))

theorem stands_functionLines {lead parameter : String} {result : Option FlowType}
    (h : value ∈ quotedOf (resultPieces result) ∨ Stands (quote value).toList body) :
    Stands (quote value).toList (functionLines lead parameter result body) := by
  refine stands_blockLines (inline_quote value) (h.imp_left fun hresult => ?_)
  cases result with
  | none => exact absurd hresult List.not_mem_nil
  | some type =>
      have htype : value ∈ type.literals := by simpa [Piece.quoted] using hresult
      refine stands_ofText (inline_quote value) ((isInfix_text type htype).trans ?_)
      exact ⟨(lead ++ "(" ++ parameter ++ ": mixed): ").toList, " | Error =>".toList, by simp⟩

theorem stands_typeLines {type : FlowType} (h : value ∈ type.literals) :
    Stands (quote value).toList (typeLines type) := by
  refine stands_ofText (inline_quote value) ((isInfix_text type h).trans ?_)
  rw [String.toList_append]
  exact (List.suffix_append _ _).isInfix

end

mutual

theorem stands_expr (expr : Expr) (h : value ∈ quotedOf expr.pieces) :
    Stands (quote value).toList expr.lines := by
  match expr with
  | .read name => simp [Piece.quoted] at h
  | .text other =>
      obtain rfl : value = other := by simpa [Piece.quoted] using h
      exact stands_ofText (inline_quote value) (List.infix_refl _)
  | .json json => simp [Piece.quoted] at h
  | .property object name =>
      have hobject : value ∈ quotedOf object.pieces := by simpa [Piece.quoted] using h
      exact stands_concat (by simp) (stands_expr object hobject)
  | .call function arguments =>
      have hparts : value ∈ quotedOf function.pieces ∨
          value ∈ quotedOf (argumentPieces arguments) := by simpa [Piece.quoted] using h
      rcases hparts with hfunction | harguments
      · exact stands_concat (by simp) (stands_expr function hfunction)
      · exact stands_concat (by simp) (stands_arguments arguments harguments)
  | .construct type argument =>
      have hargument : value ∈ quotedOf argument.pieces := by simpa [Piece.quoted] using h
      exact stands_concat (by simp) (stands_expr argument hargument)
  | .typeOf operand =>
      have hoperand : value ∈ quotedOf operand.pieces := by simpa [Piece.quoted] using h
      exact stands_concat (by simp) (stands_expr operand hoperand)
  | .not operand =>
      have hoperand : value ∈ quotedOf operand.pieces := by simpa [Piece.quoted] using h
      exact stands_concat (by simp) (stands_expr operand hoperand)
  | .binary operator left right =>
      have hparts : value ∈ quotedOf left.pieces ∨ value ∈ quotedOf right.pieces := by
        simpa [-Operator.pieces] using h
      rcases hparts with hleft | hright
      · exact stands_concat (by simp) (stands_expr left hleft)
      · exact stands_concat (by simp) (stands_expr right hright)
  | .conditional condition yes no =>
      have hparts : value ∈ quotedOf condition.pieces ∨ value ∈ quotedOf yes.pieces ∨
          value ∈ quotedOf no.pieces := by simpa [Piece.quoted] using h
      rcases hparts with hcondition | hyes | hno
      · exact stands_concat (by simp) (stands_expr condition hcondition)
      · exact stands_concat (by simp) (stands_expr yes hyes)
      · exact stands_concat (by simp) (stands_expr no hno)
  | .group inner =>
      have hinner : value ∈ quotedOf inner.pieces := by simpa [Piece.quoted] using h
      exact stands_concat (by simp) (stands_expr inner hinner)
  | .function parameter result body =>
      have hparts :
          value ∈ quotedOf (resultPieces result) ∨ value ∈ quotedOf (bodyPieces body) := by
        simpa [-resultPieces, Piece.quoted] using h
      exact stands_functionLines (hparts.imp_right (stands_body body))

theorem stands_arguments (arguments : List Expr) (h : value ∈ quotedOf (argumentPieces arguments)) :
    Stands (quote value).toList (argumentLines arguments) := by
  match arguments with
  | [] => simp at h
  | [argument] => exact stands_expr argument h
  | argument :: next :: arguments =>
      have hparts : value ∈ quotedOf argument.pieces ∨
          value ∈ quotedOf (argumentPieces (next :: arguments)) := by
        simpa [Piece.quoted] using h
      rcases hparts with hargument | hothers
      · exact stands_concat (by simp) (stands_expr argument hargument)
      · exact stands_concat (by simp) (stands_arguments (next :: arguments) hothers)

theorem stands_stmt (stmt : Stmt) (h : value ∈ quotedOf stmt.pieces) :
    Stands (quote value).toList stmt.lines := by
  match stmt with
  | .constant name type operand =>
      have hparts : value ∈ quotedOf (annotationPieces type) ∨ value ∈ quotedOf operand.pieces := by
        simpa [-annotationPieces, Piece.quoted] using h
      refine stands_settle (inline_quote value) ?_
      -- a constant quotes in its type or in its value
      rcases hparts with htype | hoperand
      · cases type with
        | none => exact absurd htype List.not_mem_nil
        | some type =>
            have hliteral : value ∈ type.literals := by simpa [Piece.quoted] using htype
            exact stands_concat (List.mem_cons_of_mem _ List.mem_cons_self)
              (stands_typeLines hliteral)
      · exact stands_concat (by simp) (stands_expr operand hoperand)
  | .record name type properties =>
      have htype : value ∈ type.literals := by
        simpa [Piece.quoted, quotedOf_properties] using h
      have hhead : Stands (quote value).toList
          (concat [ofText ("const " ++ name), typeLines type, ofText " ="]) :=
        stands_concat (by simp) (stands_typeLines htype)
      rw [Stmt.lines]
      -- without properties the record stands on one line
      split
      · exact stands_settle (inline_quote value) (stands_concat List.mem_cons_self hhead)
      · exact stands_blockLines (inline_quote value) (Or.inl hhead)
  | .ret operand =>
      have hoperand : value ∈ quotedOf operand.pieces := by simpa [Piece.quoted] using h
      exact stands_settle (inline_quote value)
        (stands_concat (by simp) (stands_expr operand hoperand))
  | .when condition body =>
      have hparts : value ∈ quotedOf condition.pieces ∨ value ∈ quotedOf (bodyPieces body) := by
        simpa [Piece.quoted] using h
      exact stands_blockLines (inline_quote value) (hparts.imp
        (fun hcondition => stands_concat (by simp) (stands_expr condition hcondition))
        (stands_body body))
  | .orWhen condition body =>
      have hparts : value ∈ quotedOf condition.pieces ∨ value ∈ quotedOf (bodyPieces body) := by
        simpa [Piece.quoted] using h
      exact stands_blockLines (inline_quote value) (hparts.imp
        (fun hcondition => stands_concat (by simp) (stands_expr condition hcondition))
        (stands_body body))
  | .otherwise body =>
      have hbody : value ∈ quotedOf (bodyPieces body) := by simpa [Piece.quoted] using h
      exact stands_blockLines (inline_quote value) (Or.inr (stands_body body hbody))
  | .select subject clauses =>
      have hparts : value ∈ quotedOf subject.pieces ∨ value ∈ quotedOf (bodyPieces clauses) := by
        simpa [Piece.quoted] using h
      exact stands_blockLines (inline_quote value) (hparts.imp
        (fun hsubject => stands_concat (by simp) (stands_expr subject hsubject))
        (stands_body clauses))
  | .case other body =>
      have hparts : value = other ∨ value ∈ quotedOf (bodyPieces body) := by
        simpa [Piece.quoted] using h
      refine stands_clauseLines (inline_quote value) (hparts.imp ?_ (stands_body body))
      rintro rfl
      exact stands_ofText (inline_quote value) ⟨"case ".toList, ":".toList, by simp⟩
  | .fallback body =>
      have hbody : value ∈ quotedOf (bodyPieces body) := by simpa [Piece.quoted] using h
      exact stands_clauseLines (inline_quote value) (Or.inr (stands_body body hbody))

theorem stands_body (body : List Stmt) (h : value ∈ quotedOf (bodyPieces body)) :
    Stands (quote value).toList (bodyLines body) := by
  match body with
  | [] => exact absurd h List.not_mem_nil
  | statement :: statements =>
      rw [bodyPieces, quotedOf_append, List.mem_append] at h
      exact stands_append.mpr (h.imp (stands_stmt statement) (stands_body statements))

end

/-- The literals of an expression stand in its text. -/
theorem isInfix_print {expr : Expr} (h : value ∈ quotedOf expr.pieces) :
    (quote value).toList <:+: expr.print.toList :=
  isInfix_toText (stands_expr expr h)

/-- The literals of a declaration stand in its text. -/
theorem isInfix_printDeclaration {declaration : Declaration}
    (h : value ∈ quotedOf declaration.pieces) :
    (quote value).toList <:+: declaration.print.toList := by
  have hparts : value ∈ quotedOf (resultPieces (some declaration.result)) ∨
      value ∈ quotedOf (bodyPieces declaration.body) := by
    simpa [Piece.quoted] using h
  exact isInfix_toText (stands_functionLines (hparts.imp_right (stands_body declaration.body)))

/-! ## Tokens -/

/-- The token that the literal of a text is read as. -/
def Token.ofText (text : String) : Token := .literal '\'' (text.toList.flatMap escape)

/-- Outside of other literals, the literal of a text is one token whatever stands around it. -/
theorem lex_append_quote_append (text : String) {before : List Char} (h : .broken ∉ lex before)
    (after : List Char) : lex (before ++ ((quote text).toList ++ after)) =
      lex before ++ .ofText text :: lex after := by
  have hopens : OpensApart ((quote text).toList ++ after) := by
    rw [toList_quote]
    exact opensApart_cons (by decide)
  have hcloses : ClosesApart (quote text).toList := by
    rw [toList_quote, ← List.cons_append]
    exact closesApart_concat (by decide)
  rw [lex_append h (Or.inr hopens), lex_append (by simp [lex_quote]) (Or.inl hcloses), lex_quote]
  rfl

mutual

theorem ofText_mem_tokens_of_mem_literals (type : FlowType) (h : value ∈ type.literals) :
    .ofText value ∈ type.tokens := by
  match type with
  | .named name => exact absurd h List.not_mem_nil
  | .literal value =>
      obtain rfl := List.mem_singleton.mp h
      exact List.mem_singleton_self _
  | .applied name [] => exact absurd h List.not_mem_nil
  | .applied name (parameter :: parameters) =>
      have hparameters := ofText_mem_parameterTokens (parameter :: parameters) h
      rw [FlowType.tokens, if_neg (by simp)]
      exact List.mem_append_right _ (List.mem_cons_of_mem _ (List.mem_append_left _ hparameters))

theorem ofText_mem_parameterTokens (parameters : List FlowType)
    (h : value ∈ FlowType.literalsOfAll parameters) :
    .ofText value ∈ FlowType.parameterTokens parameters := by
  match parameters with
  | [] => exact absurd h List.not_mem_nil
  | [parameter] =>
      rw [FlowType.literalsOfAll, FlowType.literalsOfAll, List.append_nil] at h
      exact ofText_mem_tokens_of_mem_literals parameter h
  | parameter :: next :: parameters =>
      rw [FlowType.literalsOfAll, List.mem_append] at h
      rw [FlowType.parameterTokens, List.mem_append, List.mem_cons]
      · exact h.imp (ofText_mem_tokens_of_mem_literals parameter) fun h =>
          Or.inr (ofText_mem_parameterTokens (next :: parameters) h)
      · simp

end

theorem ofText_mem_tokensOf {pieces : List Piece} (h : value ∈ quotedOf pieces) :
    .ofText value ∈ tokensOf pieces := by
  obtain ⟨piece, hpiece, htext⟩ := List.mem_flatMap.mp h
  refine List.mem_flatMap.mpr ⟨piece, hpiece, ?_⟩
  cases piece with
  | text value =>
      obtain rfl := List.mem_singleton.mp htext
      exact List.mem_singleton_self _
  | type given => exact ofText_mem_tokens_of_mem_literals given htext
  | _ => exact absurd htext List.not_mem_nil

end Code

end ValidatorGen
