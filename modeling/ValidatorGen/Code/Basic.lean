import ValidatorGen.FlowType

/-!
# Emitted code

The part of Flow-annotated JavaScript that validators are written in. An expression reads names,
calls functions and builds functions; a statement declares a constant, returns, or is a clause of
a conditional or of a selection. Every function has one parameter, which may be any value.
-/

namespace ValidatorGen.Code

/-- The operators of two operands. -/
inductive Operator where
  | plus
  | identical
  | equal
  | unequal
  | both
  | either
  | isInstance
  deriving DecidableEq, Repr

def Operator.text : Operator → String
  | plus => "+"
  | identical => "==="
  | equal => "=="
  | unequal => "!="
  | both => "&&"
  | either => "||"
  | isInstance => "instanceof"

mutual

inductive Expr where
  /-- The value of a name. -/
  | read (name : String)
  /-- A string literal. -/
  | text (value : String)
  /-- A JSON value written as such. -/
  | json (value : Json)
  /-- A property of an object. -/
  | property (object : Expr) (name : String)
  | call (function : Expr) (arguments : List Expr)
  /-- A new object of a class. -/
  | construct (type : String) (argument : Expr)
  | typeOf (operand : Expr)
  | not (operand : Expr)
  | binary (operator : Operator) (left right : Expr)
  | conditional (condition yes no : Expr)
  | group (inner : Expr)
  /-- A function of one parameter, with the type of its result if that is declared. -/
  | function (parameter : String) (result : Option FlowType) (body : List Stmt)

/-- A statement. -/
inductive Stmt where
  | constant (name : String) (type : Option FlowType) (value : Expr)
  /-- A constant object whose properties are the constants of the same names. -/
  | record (name : String) (type : FlowType) (properties : List String)
  | ret (value : Expr)
  /-- The first clause of a conditional. -/
  | when (condition : Expr) (body : List Stmt)
  /-- A further clause of a conditional. -/
  | orWhen (condition : Expr) (body : List Stmt)
  /-- The last clause of a conditional. -/
  | otherwise (body : List Stmt)
  | select (subject : Expr) (clauses : List Stmt)
  /-- A clause of a selection. -/
  | case (value : String) (body : List Stmt)
  /-- The last clause of a selection. -/
  | fallback (body : List Stmt)

end

/-- A function under a name of its own, which stands in a module by itself. -/
structure Declaration where
  name : String
  parameter : String
  result : FlowType
  body : List Stmt

end ValidatorGen.Code
