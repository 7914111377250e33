import ValidatorGen.Code.Basic
import ValidatorGen.Json.Writer
import ValidatorGen.Text.Lines

/-!
# The text of emitted code

An expression is printed as lines: one line unless it holds a function, whose body stands in lines
of its own. A statement settles its lines, since names and types are taken over as they are and
may bring line breaks of their own.
-/

namespace ValidatorGen.Code

open Lines

/-- A statement with a block of its own. -/
def blockLines (head : Lines) (body : Lines) : Lines :=
  settle (concat [head, ofText " \x7b"]) ++ indent body ++ ["\x7d"]

/-- A statement whose block is marked by its indentation alone. -/
def clauseLines (head : Lines) (body : Lines) : Lines := settle head ++ indent body

/-- A type behind a colon. -/
def typeLines (type : FlowType) : Lines := ofText (": " ++ type.text)

/-- A function with one parameter; `lead` stands before it on its first line. -/
def functionLines (lead parameter : String) (result : Option FlowType) (body : Lines) : Lines :=
  let type := match result with
    | none => ""
    | some result => ": " ++ result.text ++ " | Error"
  blockLines (ofText (lead ++ "(" ++ parameter ++ ": mixed)" ++ type ++ " =>")) body

mutual

def Expr.lines : Expr → Lines
  | .read name => ofText name
  | .text value => ofText (quote value)
  | .json value => ofText value.text
  | .property object name => concat [object.lines, ofText ("." ++ name)]
  | .call function arguments =>
    concat [function.lines, ofText "(", argumentLines arguments, ofText ")"]
  | .construct type argument =>
    concat [ofText ("new " ++ type ++ "("), argument.lines, ofText ")"]
  | .typeOf operand => concat [ofText "typeof ", operand.lines]
  | .not operand => concat [ofText "!", operand.lines]
  | .binary operator left right =>
    concat [left.lines, ofText (" " ++ operator.text ++ " "), right.lines]
  | .conditional condition yes no =>
    concat [condition.lines, ofText " ? ", yes.lines, ofText " : ", no.lines]
  | .group inner => concat [ofText "(", inner.lines, ofText ")"]
  | .function parameter result body => functionLines "" parameter result (bodyLines body)

/-- Arguments with commas between them. -/
def argumentLines : List Expr → Lines
  | [] => []
  | [argument] => argument.lines
  | argument :: arguments => concat [argument.lines, ofText ", ", argumentLines arguments]

def Stmt.lines : Stmt → Lines
  | .constant name type value =>
    let type := match type with
      | none => []
      | some type => typeLines type
    settle (concat [ofText ("const " ++ name), type, ofText " = ", value.lines])
  | .record name type properties =>
    let head := concat [ofText ("const " ++ name), typeLines type, ofText " ="]
    if properties.isEmpty then settle (concat [head, ofText " \x7b\x7d"])
    else blockLines head (properties.flatMap fun property => settle (ofText (property ++ ",")))
  | .ret value => settle (concat [ofText "return ", value.lines])
  | .when condition body =>
    blockLines (concat [ofText "if(", condition.lines, ofText ")"]) (bodyLines body)
  | .orWhen condition body =>
    blockLines (concat [ofText "else if(", condition.lines, ofText ")"]) (bodyLines body)
  | .otherwise body => blockLines (ofText "else") (bodyLines body)
  | .select subject clauses =>
    blockLines (concat [ofText "switch(", subject.lines, ofText ")"]) (bodyLines clauses)
  | .case value body => clauseLines (ofText ("case " ++ quote value ++ ":")) (bodyLines body)
  | .fallback body => clauseLines (ofText "default:") (bodyLines body)

def bodyLines : List Stmt → Lines
  | [] => []
  | statement :: statements => statement.lines ++ bodyLines statements

end

def Expr.print (expr : Expr) : String := expr.lines.toText

def Declaration.print (declaration : Declaration) : String :=
  (functionLines ("const " ++ declaration.name ++ " = ") declaration.parameter
    (some declaration.result) (bodyLines declaration.body)).toText

end ValidatorGen.Code
