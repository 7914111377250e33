import ValidatorGen.Code.Basic

/-!
# Names and their scopes in emitted code

A constant is bound in the whole block that it stands in, a parameter in the body of its function.
`Expr.uses` lists where an expression uses names as values, each time with the names that are bound
there, the innermost first; `Expr.binders` lists the names that the expression binds anywhere.  What
is bound where a name is used has been bound outside or is a binder (`Expr.mem_bound`).

`Expr.rename` puts other names in the place of those that are used and leaves all binders alone.

The clauses of a selection are no blocks of their own: their constants belong to the selection.
-/

namespace ValidatorGen.Code

/-- A use of a name, with the names that are bound where it stands. -/
structure Use where
  name : String
  bound : List String
  deriving DecidableEq, Repr

mutual

/-- The constants that a statement adds to the block around it. -/
@[simp]
def Stmt.constants : Stmt → List String
  | .constant name _ _ => [name]
  | .record name _ _ => [name]
  | .case _ body => blockConstants body
  | .fallback body => blockConstants body
  | _ => []

/-- The constants of a block. -/
@[simp]
def blockConstants : List Stmt → List String
  | [] => []
  | statement :: statements => statement.constants ++ blockConstants statements

end

mutual

/-- The names that an expression uses. -/
@[simp]
def Expr.uses (bound : List String) : Expr → List Use
  | .read name => [⟨name, bound⟩]
  | .text _ => []
  | .json _ => []
  | .property object _ => object.uses bound
  | .call function arguments => function.uses bound ++ usesOfAll bound arguments
  | .construct type argument => ⟨type, bound⟩ :: argument.uses bound
  | .typeOf operand => operand.uses bound
  | .not operand => operand.uses bound
  | .binary _ left right => left.uses bound ++ right.uses bound
  | .conditional condition yes no =>
    condition.uses bound ++ (yes.uses bound ++ no.uses bound)
  | .group inner => inner.uses bound
  | .function parameter _ body =>
    bodyUses (blockConstants body ++ parameter :: bound) body

@[simp]
def usesOfAll (bound : List String) : List Expr → List Use
  | [] => []
  | expr :: exprs => expr.uses bound ++ usesOfAll bound exprs

/-- The names that a statement uses. -/
@[simp]
def Stmt.uses (bound : List String) : Stmt → List Use
  | .constant _ _ value => value.uses bound
  | .record _ _ properties => properties.map (⟨·, bound⟩)
  | .ret value => value.uses bound
  | .when condition body =>
    condition.uses bound ++ bodyUses (blockConstants body ++ bound) body
  | .orWhen condition body =>
    condition.uses bound ++ bodyUses (blockConstants body ++ bound) body
  | .otherwise body => bodyUses (blockConstants body ++ bound) body
  | .select subject clauses =>
    subject.uses bound ++ bodyUses (blockConstants clauses ++ bound) clauses
  | .case _ body => bodyUses bound body
  | .fallback body => bodyUses bound body

/-- The names that statements use, in the scope of the block that they stand in. -/
@[simp]
def bodyUses (bound : List String) : List Stmt → List Use
  | [] => []
  | statement :: statements => statement.uses bound ++ bodyUses bound statements

end

/-- The names that a block uses. -/
@[simp]
def blockUses (bound : List String) (body : List Stmt) : List Use :=
  bodyUses (blockConstants body ++ bound) body

/-- The names that a declaration uses. -/
@[simp]
def Declaration.uses (declaration : Declaration) : List Use :=
  blockUses [declaration.parameter] declaration.body

mutual

/-- The names that an expression binds. -/
@[simp]
def Expr.binders : Expr → List String
  | .property object _ => object.binders
  | .call function arguments => function.binders ++ bindersOfAll arguments
  | .construct _ argument => argument.binders
  | .typeOf operand => operand.binders
  | .not operand => operand.binders
  | .binary _ left right => left.binders ++ right.binders
  | .conditional condition yes no => condition.binders ++ (yes.binders ++ no.binders)
  | .group inner => inner.binders
  | .function parameter _ body => parameter :: bodyBinders body
  | _ => []

@[simp]
def bindersOfAll : List Expr → List String
  | [] => []
  | expr :: exprs => expr.binders ++ bindersOfAll exprs

/-- The names that a statement binds. -/
@[simp]
def Stmt.binders : Stmt → List String
  | .constant name _ value => name :: value.binders
  | .record name _ _ => [name]
  | .ret value => value.binders
  | .when condition body => condition.binders ++ bodyBinders body
  | .orWhen condition body => condition.binders ++ bodyBinders body
  | .otherwise body => bodyBinders body
  | .select subject clauses => subject.binders ++ bodyBinders clauses
  | .case _ body => bodyBinders body
  | .fallback body => bodyBinders body

@[simp]
def bodyBinders : List Stmt → List String
  | [] => []
  | statement :: statements => statement.binders ++ bodyBinders statements

end

/-- The names that a declaration binds. -/
@[simp]
def Declaration.binders (declaration : Declaration) : List String :=
  declaration.parameter :: bodyBinders declaration.body

theorem blockConstants_append (body others : List Stmt) :
    blockConstants (body ++ others) = blockConstants body ++ blockConstants others := by
  induction body with
  | nil => rfl
  | cons statement statements ih =>
      rw [List.cons_append, blockConstants, blockConstants, ih, List.append_assoc]

theorem bodyUses_append (bound : List String) (body others : List Stmt) :
    bodyUses bound (body ++ others) = bodyUses bound body ++ bodyUses bound others := by
  induction body with
  | nil => rfl
  | cons statement statements ih =>
      rw [List.cons_append, bodyUses, bodyUses, ih, List.append_assoc]

theorem bodyBinders_append (body others : List Stmt) :
    bodyBinders (body ++ others) = bodyBinders body ++ bodyBinders others := by
  induction body with
  | nil => rfl
  | cons statement statements ih =>
      rw [List.cons_append, bodyBinders, bodyBinders, ih, List.append_assoc]

/-! ## What is bound where a name is used -/

theorem Expr.uses_function (bound : List String) (parameter : String)
    (result : Option FlowType) (body : List Stmt) :
    (Expr.function parameter result body).uses bound = blockUses (parameter :: bound) body := rfl

theorem Stmt.uses_when (bound : List String) (condition : Expr) (body : List Stmt) :
    (Stmt.when condition body).uses bound = condition.uses bound ++ blockUses bound body := rfl

theorem Stmt.uses_orWhen (bound : List String) (condition : Expr) (body : List Stmt) :
    (Stmt.orWhen condition body).uses bound = condition.uses bound ++ blockUses bound body := rfl

theorem Stmt.uses_select (bound : List String) (subject : Expr) (clauses : List Stmt) :
    (Stmt.select subject clauses).uses bound = subject.uses bound ++ blockUses bound clauses := rfl

mutual

theorem Stmt.constants_subset (statement : Stmt) : statement.constants ⊆ statement.binders := by
  match statement with
  | .case _ body => exact blockConstants_subset body
  | .fallback body => exact blockConstants_subset body
  | .constant _ _ _ => simp [Stmt.constants, Stmt.binders]
  | .record _ _ _ => simp [Stmt.constants, Stmt.binders]
  | .ret _ => simp [Stmt.constants]
  | .when _ _ => simp [Stmt.constants]
  | .orWhen _ _ => simp [Stmt.constants]
  | .otherwise _ => simp [Stmt.constants]
  | .select _ _ => simp [Stmt.constants]

theorem blockConstants_subset (body : List Stmt) : blockConstants body ⊆ bodyBinders body := by
  match body with
  | [] => simp [blockConstants]
  | statement :: statements =>
      have hfirst := Stmt.constants_subset statement
      have hothers := blockConstants_subset statements
      exact List.append_subset.mpr ⟨List.subset_append_of_subset_left _ hfirst,
        List.subset_append_of_subset_right _ hothers⟩

end

mutual

theorem Expr.mem_bound (expr : Expr) (bound : List String) :
    ∀ use ∈ expr.uses bound, ∀ name ∈ use.bound, name ∈ bound ∨ name ∈ expr.binders := by
  match expr with
  | .read name => simp_all [Expr.uses]
  | .text _ => simp [Expr.uses]
  | .json _ => simp [Expr.uses]
  | .property object _ => exact Expr.mem_bound object bound
  | .call function arguments =>
      have h := Expr.mem_bound function bound
      have h' := mem_bound_of_all arguments bound
      grind [Expr.uses, Expr.binders]
  | .construct type argument =>
      have h := Expr.mem_bound argument bound
      grind [Expr.uses, Expr.binders]
  | .typeOf operand => exact Expr.mem_bound operand bound
  | .not operand => exact Expr.mem_bound operand bound
  | .binary _ left right =>
      have h := Expr.mem_bound left bound
      have h' := Expr.mem_bound right bound
      grind [Expr.uses, Expr.binders]
  | .conditional condition yes no =>
      have h := Expr.mem_bound condition bound
      have h' := Expr.mem_bound yes bound
      have h'' := Expr.mem_bound no bound
      grind [Expr.uses, Expr.binders]
  | .group inner => exact Expr.mem_bound inner bound
  | .function parameter _ body =>
      -- the parameter is a binder of the function, so nothing new is bound in the block
      have h := mem_bound_of_block body (parameter :: bound)
      grind [Expr.uses_function, Expr.binders]

theorem mem_bound_of_all (exprs : List Expr) (bound : List String) :
    ∀ use ∈ usesOfAll bound exprs, ∀ name ∈ use.bound,
      name ∈ bound ∨ name ∈ bindersOfAll exprs := by
  match exprs with
  | [] => simp [usesOfAll]
  | expr :: exprs =>
      have h := Expr.mem_bound expr bound
      have h' := mem_bound_of_all exprs bound
      grind [usesOfAll, bindersOfAll]

theorem Stmt.mem_bound (statement : Stmt) (bound : List String) :
    ∀ use ∈ statement.uses bound, ∀ name ∈ use.bound, name ∈ bound ∨ name ∈ statement.binders := by
  match statement with
  | .constant _ _ value =>
      have h := Expr.mem_bound value bound
      grind [Stmt.uses, Stmt.binders]
  | .record _ _ properties => grind [Stmt.uses, Stmt.binders]
  | .ret value => exact Expr.mem_bound value bound
  | .when condition body =>
      have h := Expr.mem_bound condition bound
      have h' := mem_bound_of_block body bound
      grind [Stmt.uses_when, Stmt.uses_orWhen, Stmt.uses_select, Stmt.binders]
  | .orWhen condition body =>
      have h := Expr.mem_bound condition bound
      have h' := mem_bound_of_block body bound
      grind [Stmt.uses_when, Stmt.uses_orWhen, Stmt.uses_select, Stmt.binders]
  | .otherwise body => exact mem_bound_of_block body bound
  | .select subject clauses =>
      have h := Expr.mem_bound subject bound
      have h' := mem_bound_of_block clauses bound
      grind [Stmt.uses_when, Stmt.uses_orWhen, Stmt.uses_select, Stmt.binders]
  | .case _ body => exact mem_bound_of_body body bound
  | .fallback body => exact mem_bound_of_body body bound

theorem mem_bound_of_body (body : List Stmt) (bound : List String) :
    ∀ use ∈ bodyUses bound body, ∀ name ∈ use.bound, name ∈ bound ∨ name ∈ bodyBinders body := by
  match body with
  | [] => simp [bodyUses]
  | statement :: statements =>
      have h := Stmt.mem_bound statement bound
      have h' := mem_bound_of_body statements bound
      grind [bodyUses, bodyBinders]

theorem mem_bound_of_block (body : List Stmt) (bound : List String) :
    ∀ use ∈ blockUses bound body, ∀ name ∈ use.bound, name ∈ bound ∨ name ∈ bodyBinders body := by
  have h := mem_bound_of_body body (blockConstants body ++ bound)
  have h' := blockConstants_subset body
  grind [blockUses]

end

theorem Declaration.mem_bound (declaration : Declaration) :
    ∀ use ∈ declaration.uses, ∀ name ∈ use.bound, name ∈ declaration.binders := by
  have h := mem_bound_of_block declaration.body [declaration.parameter]
  grind [Declaration.uses, Declaration.binders]

/-! ## Other names for what is used -/

section

variable (f : String → String)

mutual

/-- An expression in which other names are used. -/
@[simp]
def Expr.rename : Expr → Expr
  | .read name => .read (f name)
  | .text value => .text value
  | .json value => .json value
  | .property object name => .property object.rename name
  | .call function arguments => .call function.rename (renameAll arguments)
  | .construct type argument => .construct (f type) argument.rename
  | .typeOf operand => .typeOf operand.rename
  | .not operand => .not operand.rename
  | .binary operator left right => .binary operator left.rename right.rename
  | .conditional condition yes no => .conditional condition.rename yes.rename no.rename
  | .group inner => .group inner.rename
  | .function parameter result body => .function parameter result (renameBody body)

@[simp]
def renameAll : List Expr → List Expr
  | [] => []
  | expr :: exprs => expr.rename :: renameAll exprs

/-- A statement in which other names are used. -/
@[simp]
def Stmt.rename : Stmt → Stmt
  | .constant name type value => .constant name type value.rename
  | .record name type properties => .record name type (properties.map f)
  | .ret value => .ret value.rename
  | .when condition body => .when condition.rename (renameBody body)
  | .orWhen condition body => .orWhen condition.rename (renameBody body)
  | .otherwise body => .otherwise (renameBody body)
  | .select subject clauses => .select subject.rename (renameBody clauses)
  | .case value body => .case value (renameBody body)
  | .fallback body => .fallback (renameBody body)

@[simp]
def renameBody : List Stmt → List Stmt
  | [] => []
  | statement :: statements => statement.rename :: renameBody statements

end

/-- A use of another name in the same scope. -/
def Use.rename (use : Use) : Use := ⟨f use.name, use.bound⟩

/-- A declaration in which other names are used. -/
def Declaration.rename (declaration : Declaration) : Declaration :=
  { declaration with body := renameBody f declaration.body }

theorem renameBody_append (body others : List Stmt) :
    renameBody f (body ++ others) = renameBody f body ++ renameBody f others := by
  induction body with
  | nil => rfl
  | cons statement statements ih =>
      rw [List.cons_append, renameBody, renameBody, ih, List.cons_append]

mutual

theorem Stmt.constants_rename (statement : Stmt) :
    (statement.rename f).constants = statement.constants := by
  match statement with
  | .case _ body => exact blockConstants_renameBody body
  | .fallback body => exact blockConstants_renameBody body
  | .constant _ _ _ => rfl
  | .record _ _ _ => rfl
  | .ret _ => rfl
  | .when _ _ => rfl
  | .orWhen _ _ => rfl
  | .otherwise _ => rfl
  | .select _ _ => rfl

theorem blockConstants_renameBody (body : List Stmt) :
    blockConstants (renameBody f body) = blockConstants body := by
  match body with
  | [] => rfl
  | statement :: statements =>
      rw [renameBody, blockConstants, Stmt.constants_rename statement,
        blockConstants_renameBody statements, blockConstants]

end

mutual

theorem Expr.uses_rename (expr : Expr) (bound : List String) :
    (expr.rename f).uses bound = (expr.uses bound).map (Use.rename f) := by
  match expr with
  | .read _ => rfl
  | .text _ => rfl
  | .json _ => rfl
  | .property object _ => exact Expr.uses_rename object bound
  | .call function arguments =>
      simp [Expr.uses_rename function bound, usesOfAll_renameAll arguments bound]
  | .construct _ argument => simp [Expr.uses_rename argument bound, Use.rename]
  | .typeOf operand => exact Expr.uses_rename operand bound
  | .not operand => exact Expr.uses_rename operand bound
  | .binary _ left right =>
      simp [Expr.uses_rename left bound, Expr.uses_rename right bound]
  | .conditional condition yes no =>
      simp [Expr.uses_rename condition bound, Expr.uses_rename yes bound,
        Expr.uses_rename no bound]
  | .group inner => exact Expr.uses_rename inner bound
  | .function parameter _ body => exact blockUses_renameBody body (parameter :: bound)

theorem usesOfAll_renameAll (exprs : List Expr) (bound : List String) :
    usesOfAll bound (renameAll f exprs) = (usesOfAll bound exprs).map (Use.rename f) := by
  match exprs with
  | [] => rfl
  | expr :: exprs =>
      simp [Expr.uses_rename expr bound, usesOfAll_renameAll exprs bound]

theorem Stmt.uses_rename (statement : Stmt) (bound : List String) :
    (statement.rename f).uses bound = (statement.uses bound).map (Use.rename f) := by
  match statement with
  | .constant _ _ value => exact Expr.uses_rename value bound
  | .record _ _ properties => simp [Use.rename, Function.comp_def]
  | .ret value => exact Expr.uses_rename value bound
  | .when condition body =>
      rw [Stmt.rename, Stmt.uses_when, Stmt.uses_when, Expr.uses_rename condition bound,
        blockUses_renameBody body bound, List.map_append]
  | .orWhen condition body =>
      rw [Stmt.rename, Stmt.uses_orWhen, Stmt.uses_orWhen, Expr.uses_rename condition bound,
        blockUses_renameBody body bound, List.map_append]
  | .otherwise body => exact blockUses_renameBody body bound
  | .select subject clauses =>
      rw [Stmt.rename, Stmt.uses_select, Stmt.uses_select, Expr.uses_rename subject bound,
        blockUses_renameBody clauses bound, List.map_append]
  | .case _ body => exact bodyUses_renameBody body bound
  | .fallback body => exact bodyUses_renameBody body bound

theorem bodyUses_renameBody (body : List Stmt) (bound : List String) :
    bodyUses bound (renameBody f body) = (bodyUses bound body).map (Use.rename f) := by
  match body with
  | [] => rfl
  | statement :: statements =>
      simp [Stmt.uses_rename statement bound, bodyUses_renameBody statements bound]

theorem blockUses_renameBody (body : List Stmt) (bound : List String) :
    blockUses bound (renameBody f body) = (blockUses bound body).map (Use.rename f) := by
  rw [blockUses, blockConstants_renameBody, bodyUses_renameBody, blockUses]

end

theorem Declaration.uses_rename (declaration : Declaration) :
    (declaration.rename f).uses = declaration.uses.map (Use.rename f) :=
  blockUses_renameBody f declaration.body [declaration.parameter]

end

end ValidatorGen.Code
