import ValidatorGen.Proofs.Code.Pieces
import ValidatorGen.Proofs.Code.Quoted

/-!
# Printed code consists of its pieces

`reads_print` says that the tokens of an expression's text are those of its pieces, one after the
other, as long as the names and types that are taken over hold no quotes.  So nothing that is taken
over merges with what stands around it, and the tree determines where every token comes from.

## Strategy

The induction is on the tree.  Two neighbouring pieces never meet: where the printer sets a fixed
text between them, that text begins and ends with a mark or a blank (`Delimits`), and statements
stand on lines of their own, which settling and indenting leave alone.
-/

namespace ValidatorGen.Code

@[simp] theorem tokensOf_nil : tokensOf [] = [] := rfl

@[simp] theorem tokensOf_cons (piece : Piece) (pieces : List Piece) :
    tokensOf (piece :: pieces) = piece.tokens ++ tokensOf pieces := rfl

@[simp] theorem tokensOf_append (pieces others : List Piece) :
    tokensOf (pieces ++ others) = tokensOf pieces ++ tokensOf others := List.flatMap_append

open Lines

variable {s t : List Token}

theorem reads_toText_append {lines others : Lines} (h : Reads lines.toText s)
    (hothers : Reads others.toText t) : Reads (Lines.toText (lines ++ others)) (s ++ t) := by
  obtain ⟨rfl, hwhole⟩ := h
  obtain ⟨rfl, hwhole'⟩ := hothers
  exact ⟨lex_toText_append lines others, fun hmem => (List.mem_append.mp hmem).elim hwhole hwhole'⟩

theorem reads_settle {lines : Lines} (h : Reads lines.toText s) :
    Reads (settle lines).toText s := ⟨(lex_toText_settle lines).trans h.1, h.2⟩

theorem reads_indent {lines : Lines} (h : Reads lines.toText s) :
    Reads (indent lines).toText s := ⟨(lex_toText_indent lines).trans h.1, h.2⟩

theorem reads_blockLines {head body : Lines} {pieces inner : List Piece}
    (hhead : Reads head.toText (tokensOf pieces)) (hbody : Reads body.toText (tokensOf inner)) :
    Reads (blockLines head body).toText (tokensOf (blockPieces pieces inner)) := by
  have hopen : Delimits " \x7b" [.mark '\x7b'] := by decide
  have hclose : Reads (Lines.toText ["\x7d"]) [.mark '\x7d'] := by decide
  have hfirst : Reads (concat [head, ofText " \x7b"]).toText
      (tokensOf pieces ++ [.mark '\x7b']) := by
    simpa [String.join] using hhead.before hopen
  simpa [blockLines, blockPieces, Piece.tokens] using
    reads_toText_append (reads_toText_append (reads_settle hfirst) (reads_indent hbody)) hclose

/-- What stands in parentheses behind a keyword. -/
theorem reads_head {lead : String} {condition : Lines} (hlead : Leads lead t)
    (h : Reads condition.toText s) :
    Reads (concat [ofText lead, condition, ofText ")"]).toText (t ++ s ++ [.mark ')']) := by
  simpa [String.join] using (h.behind hlead).before delimits_close

theorem reads_clauseLines {head body : Lines} (hhead : Reads head.toText s)
    (hbody : Reads body.toText t) : Reads (clauseLines head body).toText (s ++ t) :=
  reads_toText_append (reads_settle hhead) (reads_indent hbody)

theorem reads_functionLines {lead parameter : String} {result : Option FlowType} {body : Lines}
    {leadPieces inner : List Piece} (hlead : Reads lead (tokensOf leadPieces))
    (hplain : ∀ piece ∈ .name parameter :: resultPieces result, piece.Plain)
    (hbody : Reads body.toText (tokensOf inner)) :
    Reads (functionLines lead parameter result body).toText
      (tokensOf (functionPieces leadPieces parameter result inner)) := by
  rw [List.forall_mem_cons] at hplain
  have hmixed : Delimits ": mixed)" [.mark ':', .word "mixed".toList, .mark ')'] := by decide
  have herror : Delimits " | Error =>"
    [.mark '|', .word "Error".toList, .mark '=', .mark '>'] := by decide
  have harrow : Delimits " =>" [.mark '=', .mark '>'] := by decide
  have hparameter := (hlead.between delimits_open (Code.Plain.reads hplain.1)).before hmixed
  refine reads_blockLines ?_ hbody
  rw [toText_ofText]
  -- with a result type the parameter is annotated, and its type ends where the error case begins
  cases result with
  | none =>
      have hhead := hparameter.before harrow
      simpa [resultPieces, Piece.tokens, Keyword.text] using hhead
  | some type =>
      have htype := type.reads_text (hplain.2 (.type type) (by simp [resultPieces]))
      have hhead := (hparameter.between delimits_colon htype).before herror
      refine hhead.congr ?_ ?_
      · simp only [String.append_assoc]
        rfl
      · simp [resultPieces, Piece.tokens, Keyword.text]

theorem delimits_operator (operator : Operator) :
    Delimits (" " ++ operator.text ++ " ") (tokensOf operator.pieces) := by
  cases operator <;> decide

/-- What a constant is declared as. -/
theorem reads_binding {name : String} {type : Option FlowType} (hname : Plain name)
    (htype : ∀ piece ∈ annotationPieces type, piece.Plain) :
    Reads ("const " ++ name ++ (type.map fun type => ": " ++ type.text).getD "")
      (tokensOf (.keyword .const :: .name name :: annotationPieces type)) := by
  have hconst : Leads "const " [.word "const".toList] := by decide
  have hbound := hname.reads.behind hconst
  cases type with
  | none => simpa [annotationPieces, Piece.tokens, Keyword.text] using hbound
  | some type =>
      have hannotated := type.reads_text (htype (.type type) (by simp [annotationPieces]))
      refine (hbound.between delimits_colon hannotated).congr ?_ ?_
      · simp [String.append_assoc]
      · simp [annotationPieces, Piece.tokens, Keyword.text]

theorem reads_properties (properties : List String)
    (h : ∀ piece ∈ properties.flatMap fun property => [Piece.name property, .mark ','],
      piece.Plain) :
    Reads (Lines.toText (properties.flatMap fun property => settle (ofText (property ++ ","))))
      (tokensOf (properties.flatMap fun property => [.name property, .mark ','])) := by
  induction properties with
  | nil => exact ⟨rfl, by simp⟩
  | cons property properties ih =>
      rw [List.flatMap_cons, List.forall_mem_append] at h
      have hcomma : Delimits "," [.mark ','] := by decide
      have hname := (Plain.reads (h.1 (.name property) (by simp))).before hcomma
      have hline : Reads (settle (ofText (property ++ ","))).toText
          (tokensOf [.name property, .mark ',']) := by
        refine (reads_settle (hname.congr ?_ rfl)).congr rfl ?_
        · simp
        · simp [Piece.tokens]
      rw [List.flatMap_cons, List.flatMap_cons, tokensOf_append]
      exact reads_toText_append hline (ih h.2)

mutual

theorem reads_expr (expr : Expr) (h : ∀ piece ∈ expr.pieces, piece.Plain) :
    Reads expr.lines.toText (tokensOf expr.pieces) := by
  match expr, h with
  | .read name, h =>
      have hname := Plain.reads (h (.name name) (by simp [Expr.pieces]))
      simpa [Expr.lines, Expr.pieces, Piece.tokens] using hname
  | .text value, _ =>
      simpa [Expr.lines, Expr.pieces, Piece.tokens] using reads_quote value
  | .json value, _ =>
      simpa [Expr.lines, Expr.pieces, Piece.tokens] using reads_json value
  | .property object name, h =>
      rw [Expr.pieces, List.forall_mem_append] at h
      have hdot : Delimits "." [.mark '.'] := by decide
      have hobject := reads_expr object h.1
      have hname := Plain.reads (h.2 (.name name) (by simp))
      refine (hobject.between hdot hname).congr ?_ ?_
      · simp [Expr.lines, String.join, String.append_assoc]
      · simp [Expr.pieces, Piece.tokens]
  | .call function arguments, h =>
      rw [Expr.pieces, List.forall_mem_append, List.forall_mem_cons, List.forall_mem_append] at h
      have hfunction := reads_expr function h.1
      have harguments := reads_arguments arguments h.2.2.1
      have hcall := (hfunction.between delimits_open harguments).before delimits_close
      refine hcall.congr ?_ ?_
      · simp [Expr.lines, String.join]
      · simp [Expr.pieces, Piece.tokens]
  | .construct type argument, h =>
      simp only [Expr.pieces, List.forall_mem_cons, List.forall_mem_append] at h
      have hnew : Leads "new " [.word "new".toList] := by decide
      have htype := (Plain.reads h.2.1).behind hnew
      have hargument := reads_expr argument h.2.2.2.1
      have hcall := (htype.between delimits_open hargument).before delimits_close
      refine hcall.congr ?_ ?_
      · simp [Expr.lines, String.join]
      · simp [Expr.pieces, Piece.tokens, Keyword.text]
  | .typeOf operand, h =>
      rw [Expr.pieces, List.forall_mem_cons] at h
      have htypeof : Leads "typeof " [.word "typeof".toList] := by decide
      refine ((reads_expr operand h.2).behind htypeof).congr ?_ ?_
      · simp [Expr.lines, String.join]
      · simp [Expr.pieces, Piece.tokens, Keyword.text]
  | .not operand, h =>
      rw [Expr.pieces, List.forall_mem_cons] at h
      have hnot : Leads "!" [.mark '!'] := by decide
      refine ((reads_expr operand h.2).behind hnot).congr ?_ ?_
      · simp [Expr.lines, String.join]
      · simp [Expr.pieces, Piece.tokens]
  -- an operator stands between blanks, so neither operand can run into it
  | .binary operator left right, h =>
      rw [Expr.pieces, List.forall_mem_append, List.forall_mem_append] at h
      have hleft := reads_expr left h.1
      have hright := reads_expr right h.2.2
      refine (hleft.between (delimits_operator operator) hright).congr ?_ ?_
      · simp [Expr.lines, String.join, String.append_assoc]
      · simp [Expr.pieces]
  | .conditional condition yes no, h =>
      simp only [Expr.pieces, List.forall_mem_cons, List.forall_mem_append] at h
      have hquestion : Delimits " ? " [.mark '?'] := by decide
      have hcolon : Delimits " : " [.mark ':'] := by decide
      have hcondition := reads_expr condition h.1
      have hyes := reads_expr yes h.2.2.1
      have hno := reads_expr no h.2.2.2.2
      refine ((hcondition.between hquestion hyes).between hcolon hno).congr ?_ ?_
      · simp [Expr.lines, String.join]
      · simp [Expr.pieces, Piece.tokens]
  | .group inner, h =>
      simp only [Expr.pieces, List.forall_mem_cons, List.forall_mem_append] at h
      have hopen : Leads "(" [.mark '('] := by decide
      have hinner := reads_expr inner h.2.1
      refine ((hinner.behind hopen).before delimits_close).congr ?_ ?_
      · simp [Expr.lines, String.join]
      · simp [Expr.pieces, Piece.tokens]
  | .function parameter result body, h =>
      simp only [Expr.pieces, functionPieces, blockPieces, List.forall_mem_cons,
        List.forall_mem_append] at h
      obtain ⟨⟨-, -, hparameter, -, -, -, hresult, -⟩, -, hbody, -⟩ := h
      have hplain := List.forall_mem_cons.mpr ⟨hparameter, hresult⟩
      exact reads_functionLines (by decide) hplain (reads_body body hbody)

theorem reads_arguments (arguments : List Expr)
    (h : ∀ piece ∈ argumentPieces arguments, piece.Plain) :
    Reads (argumentLines arguments).toText (tokensOf (argumentPieces arguments)) := by
  match arguments, h with
  | [], _ => exact ⟨rfl, by simp [argumentPieces]⟩
  | [argument], h => exact reads_expr argument h
  | argument :: next :: arguments, h =>
      simp only [argumentPieces, List.forall_mem_cons, List.forall_mem_append] at h
      have hfirst := reads_expr argument h.1
      have hrest := reads_arguments (next :: arguments) h.2.2
      refine (hfirst.between delimits_comma hrest).congr ?_ ?_
      · simp [argumentLines, String.join, String.append_assoc]
      · simp [argumentPieces, Piece.tokens]

theorem reads_stmt (stmt : Stmt) (h : ∀ piece ∈ stmt.pieces, piece.Plain) :
    Reads stmt.lines.toText (tokensOf stmt.pieces) := by
  match stmt, h with
  | .constant name type value, h =>
      simp only [Stmt.pieces, List.forall_mem_cons, List.forall_mem_append] at h
      obtain ⟨-, hname, htype, -, hvalue⟩ := h
      have hbound := reads_binding hname htype
      have hwhole := hbound.between delimits_equals (reads_expr value hvalue)
      refine (reads_settle (hwhole.congr ?_ rfl)).congr rfl ?_
      · cases type <;> simp [String.join, typeLines]
      · simp [Stmt.pieces, Piece.tokens]
  | .record name type properties, h =>
      simp only [Stmt.pieces, blockPieces, List.forall_mem_cons, List.forall_mem_append] at h
      obtain ⟨⟨-, hname, -, htype, -⟩, -, hproperties, -⟩ := h
      have hequals : Delimits " =" [.mark '='] := by decide
      have hannotation : ∀ piece ∈ annotationPieces (some type), piece.Plain := by
        simpa [annotationPieces, Piece.Plain] using htype
      have hhead := (reads_binding hname hannotation).before hequals
      have hlines : Reads (concat [ofText ("const " ++ name), typeLines type, ofText " ="]).toText
          (tokensOf [.keyword .const, .name name, .mark ':', .type type, .mark '=']) := by
        refine hhead.congr ?_ ?_
        · simp [String.join, typeLines]
        · simp [annotationPieces, Piece.tokens]
      -- a record without properties is written on one line, any other one as a block
      cases properties with
      | nil =>
          have hempty : Delimits " \x7b\x7d" [.mark '\x7b', .mark '\x7d'] := by decide
          refine (reads_settle ((hlines.before hempty).congr ?_ rfl)).congr rfl ?_
          · simp [String.join]
          · simp [Stmt.pieces, blockPieces, Piece.tokens]
      | cons property properties =>
          exact reads_blockLines hlines (reads_properties (property :: properties) hproperties)
  | .ret value, h =>
      rw [Stmt.pieces, List.forall_mem_cons] at h
      have hreturn : Leads "return " [.word "return".toList] := by decide
      have hwhole := (reads_expr value h.2).behind hreturn
      refine (reads_settle (hwhole.congr ?_ rfl)).congr rfl ?_
      · simp [String.join]
      · simp [Stmt.pieces, Piece.tokens, Keyword.text]
  | .when condition body, h =>
      simp only [Stmt.pieces, blockPieces, List.forall_mem_cons, List.forall_mem_append] at h
      obtain ⟨⟨-, -, hcondition, -⟩, -, hbody, -⟩ := h
      have hopen : Leads "if(" [.word "if".toList, .mark '('] := by decide
      have hhead := reads_head hopen (reads_expr condition hcondition)
      refine reads_blockLines (hhead.congr rfl ?_) (reads_body body hbody)
      simp [Piece.tokens, Keyword.text]
  | .orWhen condition body, h =>
      simp only [Stmt.pieces, blockPieces, List.forall_mem_cons, List.forall_mem_append] at h
      obtain ⟨⟨-, -, -, hcondition, -⟩, -, hbody, -⟩ := h
      have hopen : Leads "else if(" [.word "else".toList, .word "if".toList, .mark '('] := by decide
      have hhead := reads_head hopen (reads_expr condition hcondition)
      refine reads_blockLines (hhead.congr rfl ?_) (reads_body body hbody)
      simp [Piece.tokens, Keyword.text]
  | .otherwise body, h =>
      simp only [Stmt.pieces, blockPieces, List.forall_mem_cons, List.forall_mem_append] at h
      obtain ⟨-, -, hbody, -⟩ := h
      exact reads_blockLines (by decide) (reads_body body hbody)
  | .select subject clauses, h =>
      simp only [Stmt.pieces, blockPieces, List.forall_mem_cons, List.forall_mem_append] at h
      obtain ⟨⟨-, -, hsubject, -⟩, -, hclauses, -⟩ := h
      have hopen : Leads "switch(" [.word "switch".toList, .mark '('] := by decide
      have hhead := reads_head hopen (reads_expr subject hsubject)
      refine reads_blockLines (hhead.congr rfl ?_) (reads_body clauses hclauses)
      simp [Piece.tokens, Keyword.text]
  | .case value body, h =>
      simp only [Stmt.pieces, List.forall_mem_cons] at h
      obtain ⟨-, -, -, hbody⟩ := h
      have hcase : Leads "case " [.word "case".toList] := by decide
      have hcolon : Delimits ":" [.mark ':'] := by decide
      have hhead := ((reads_quote value).behind hcase).before hcolon
      refine (reads_clauseLines (hhead.congr ?_ rfl) (reads_body body hbody)).congr rfl ?_
      · simp
      · simp [Stmt.pieces, Piece.tokens, Keyword.text]
  | .fallback body, h =>
      simp only [Stmt.pieces, List.forall_mem_cons] at h
      obtain ⟨-, -, hbody⟩ := h
      have hdefault : Reads (ofText "default:").toText [.word "default".toList, .mark ':'] := by
        decide
      refine (reads_clauseLines hdefault (reads_body body hbody)).congr rfl ?_
      simp [Stmt.pieces, Piece.tokens, Keyword.text]

theorem reads_body (body : List Stmt) (h : ∀ piece ∈ bodyPieces body, piece.Plain) :
    Reads (bodyLines body).toText (tokensOf (bodyPieces body)) := by
  match body, h with
  | [], _ => exact ⟨rfl, by simp [bodyPieces]⟩
  | statement :: statements, h =>
      rw [bodyPieces, List.forall_mem_append] at h
      rw [bodyLines, bodyPieces, tokensOf_append]
      exact reads_toText_append (reads_stmt statement h.1) (reads_body statements h.2)

end

/-- The tokens of an expression's text are those of its pieces. -/
theorem reads_print {expr : Expr} (h : ∀ piece ∈ expr.pieces, piece.Plain) :
    Reads expr.print (tokensOf expr.pieces) := reads_expr expr h

/-- The tokens of a declaration's text are those of its pieces. -/
theorem reads_printDeclaration {declaration : Declaration}
    (h : ∀ piece ∈ declaration.pieces, piece.Plain) :
    Reads declaration.print (tokensOf declaration.pieces) := by
  simp only [Declaration.pieces, functionPieces, blockPieces, List.forall_mem_cons,
    List.forall_mem_append] at h
  obtain ⟨⟨⟨-, hname, -⟩, -, hparameter, -, -, -, hresult, -⟩, -, hbody, -⟩ := h
  have hlead := (@reads_binding _ none hname (by simp [annotationPieces])).before delimits_equals
  have hplain := List.forall_mem_cons.mpr ⟨hparameter, hresult⟩
  refine reads_functionLines (hlead.congr ?_ ?_) hplain (reads_body declaration.body hbody)
  · simp
  · simp [annotationPieces, Piece.tokens]

/-! ## How a declaration begins -/

theorem newline_notMem_quote (value : String) : '\n' ∉ (quote value).toList :=
  fun hmem => absurd (isPrintable_of_mem_quote value _ hmem) (by decide)

mutual

theorem newline_notMem_text (type : FlowType) (h : ∀ name ∈ type.mentions, '\n' ∉ name.toList) :
    '\n' ∉ type.text.toList := by
  match type, h with
  | .named name, h => exact h name List.mem_cons_self
  | .literal value, _ => exact newline_notMem_quote value
  | .applied name [], h => exact h name List.mem_cons_self
  | .applied name (parameter :: parameters), h =>
      rw [FlowType.mentions, List.forall_mem_cons] at h
      have hparameters := newline_notMem_texts (parameter :: parameters) h.2
      rw [FlowType.text, if_neg (by simp)]
      simp only [String.toList_append, List.mem_append, not_or]
      exact ⟨⟨⟨h.1, by decide⟩, hparameters⟩, by decide⟩

theorem newline_notMem_texts (parameters : List FlowType)
    (h : ∀ name ∈ FlowType.mentionsOfAll parameters, '\n' ∉ name.toList) :
    '\n' ∉ (", ".intercalate (FlowType.texts parameters)).toList := by
  match parameters, h with
  | [], _ => exact List.not_mem_nil
  | [parameter], h =>
      rw [FlowType.mentionsOfAll, List.forall_mem_append] at h
      rw [FlowType.texts, FlowType.texts, String.intercalate_singleton]
      exact newline_notMem_text parameter h.1
  | parameter :: next :: parameters, h =>
      rw [FlowType.mentionsOfAll, List.forall_mem_append] at h
      have hrest := newline_notMem_texts (next :: parameters) h.2
      rw [FlowType.texts, FlowType.texts, String.intercalate_cons_cons, ← FlowType.texts]
      simp only [String.toList_append, List.mem_append, not_or]
      exact ⟨⟨newline_notMem_text parameter h.1, by decide⟩, hrest⟩

end

theorem exists_toText_cons (line : String) (lines : Lines) :
    ∃ rest, Lines.toText (line :: lines) = line ++ rest := by
  cases lines with
  | nil => exact ⟨"", by simp [toText]⟩
  | cons next others =>
      refine ⟨"\n" ++ Lines.toText (next :: others), ?_⟩
      rw [toText, String.intercalate_cons_cons, String.append_assoc]
      rfl

theorem exists_toText_blockLines {head : String} (h : '\n' ∉ head.toList) (body : Lines) :
    ∃ rest, (blockLines (ofText head) body).toText = head ++ rest := by
  have hline : settle (concat [ofText head, ofText " \x7b"]) = [head ++ " \x7b"] := by
    have hne : head ++ " \x7b" ≠ "" := by
      intro hempty
      have hlength := congrArg (List.length ∘ String.toList) hempty
      simp at hlength
    rw [ofText_of_notMem h]
    simp [concat, glue, settle, ofText_of_notMem, hne]
  obtain ⟨rest, hrest⟩ := exists_toText_cons (head ++ " \x7b") (indent body ++ ["\x7d"])
  refine ⟨" \x7b" ++ rest, ?_⟩
  rw [blockLines, hline, List.append_assoc, List.singleton_append, hrest, String.append_assoc]

/-- A declaration begins with the name that it binds. -/
theorem exists_print_eq {declaration : Declaration} (hname : '\n' ∉ declaration.name.toList)
    (hparameter : '\n' ∉ declaration.parameter.toList)
    (hresult : ∀ name ∈ declaration.result.mentions, '\n' ∉ name.toList) :
    ∃ rest, declaration.print = "const " ++ declaration.name ++ " = " ++ rest := by
  have hhead : '\n' ∉ ("const " ++ declaration.name ++ " = " ++ "(" ++ declaration.parameter ++
      ": mixed)" ++ (": " ++ declaration.result.text ++ " | Error") ++ " =>").toList := by
    have htype := newline_notMem_text declaration.result hresult
    simp [hname, hparameter, htype]
  obtain ⟨rest, hrest⟩ := exists_toText_blockLines hhead (bodyLines declaration.body)
  refine ⟨"(" ++ (declaration.parameter ++ (": mixed)" ++
    (": " ++ declaration.result.text ++ " | Error" ++ (" =>" ++ rest)))), ?_⟩
  rw [Declaration.print, functionLines, hrest]
  simp only [String.append_assoc]

end ValidatorGen.Code
