/-!
# What emitted code needs

The code of a validator mentions types, calls functions that are declared elsewhere, and relies on
declarations that stand once in its module. A `Needs` lists all three in the order in which they
are met; repetitions stay until a module is put together.
-/

namespace ValidatorGen

/-- A type that is named in code: one of those built into the language, or a custom one. -/
inductive TypeName where
  | object
  | boolean
  | number
  | string
  | custom (name : String)
  deriving DecidableEq, Repr

namespace TypeName

def ofName (name : String) : TypeName :=
  if name = "Object" then .object
  else if name = "bool" ∨ name = "boolean" then .boolean
  else if name = "number" then .number
  else if name = "string" then .string
  else .custom name

def name : TypeName → String
  | .object => "Object"
  | .boolean => "boolean"
  | .number => "number"
  | .string => "string"
  | .custom name => name

/-- Custom names that are known without an import. -/
def known : List String := ["mixed", "empty", "void", "null", "Array", "Error"]

/-- Whether a type has to be imported: a custom one does, unless its name is known or begins with
a dollar sign, as the names of utility types do. -/
def needsLocation : TypeName → Bool
  | .custom name => name.toList.head? ≠ some '$' && !known.contains name
  | _ => false

end TypeName

/-- A function called by emitted code: one of the checkers, or a custom validator. -/
inductive Checker where
  | bool
  | field
  | list
  | mapping
  | number
  | string
  | custom (name : String)
  deriving DecidableEq, Repr

namespace Checker

def name : Checker → String
  | .bool => "deBool"
  | .field => "deField"
  | .list => "deList"
  | .mapping => "deMapping"
  | .number => "deNumber"
  | .string => "deString"
  | .custom name => name

/-- The checkers that every validator may call. -/
def standard : List Checker := [.bool, .field, .list, .mapping, .number, .string]

def ofName (name : String) : Checker :=
  (standard.find? (·.name == name)).getD (.custom name)

@[simp] theorem name_ofName (name : String) : (ofName name).name = name := by
  unfold ofName
  cases h : standard.find? (·.name == name) with
  | none => rfl
  | some checker => simpa using List.find?_some h

end Checker

/-- A declaration that stands once in a module: the name it binds and its text. -/
structure Hoist where
  key : String
  text : String
  deriving DecidableEq, Repr

/-- What emitted code needs, in the order in which it is met. -/
structure Needs where
  types : List TypeName
  imports : List Checker
  hoists : List Hoist
  deriving DecidableEq, Repr

namespace Needs

def empty : Needs := ⟨[], [], []⟩

def ofChecker (checker : Checker) : Needs := ⟨[], [checker], []⟩

def ofType (type : TypeName) : Needs := ⟨[type], [], []⟩

def ofHoist (hoist : Hoist) : Needs := ⟨[], [], [hoist]⟩

/-- What one piece of code needs, followed by what another needs. -/
def merge (a b : Needs) : Needs :=
  ⟨a.types ++ b.types, a.imports ++ b.imports, a.hoists ++ b.hoists⟩

/-- The needs with further types behind their own. -/
def withTypes (needs : Needs) (types : List TypeName) : Needs :=
  { needs with types := needs.types ++ types }

/-- What several pieces of code need, one after the other. -/
def collect (all : List Needs) : Needs := all.foldl merge empty

def isEmpty (needs : Needs) : Bool :=
  needs.types.isEmpty && needs.imports.isEmpty && needs.hoists.isEmpty

@[simp] theorem imports_empty : empty.imports = [] := rfl

@[simp] theorem hoists_empty : empty.hoists = [] := rfl

@[simp] theorem imports_ofChecker (checker : Checker) : (ofChecker checker).imports = [checker] :=
  rfl

@[simp] theorem hoists_ofChecker (checker : Checker) : (ofChecker checker).hoists = [] := rfl

@[simp] theorem imports_ofType (type : TypeName) : (ofType type).imports = [] := rfl

@[simp] theorem hoists_ofType (type : TypeName) : (ofType type).hoists = [] := rfl

@[simp] theorem imports_ofHoist (hoist : Hoist) : (ofHoist hoist).imports = [] := rfl

@[simp] theorem hoists_ofHoist (hoist : Hoist) : (ofHoist hoist).hoists = [hoist] := rfl

@[simp] theorem imports_merge (a b : Needs) : (a.merge b).imports = a.imports ++ b.imports := rfl

@[simp] theorem hoists_merge (a b : Needs) : (a.merge b).hoists = a.hoists ++ b.hoists := rfl

@[simp] theorem imports_withTypes (needs : Needs) (types : List TypeName) :
    (needs.withTypes types).imports = needs.imports := rfl

@[simp] theorem hoists_withTypes (needs : Needs) (types : List TypeName) :
    (needs.withTypes types).hoists = needs.hoists := rfl

@[simp] theorem empty_merge (needs : Needs) : empty.merge needs = needs := rfl

@[simp] theorem merge_empty (needs : Needs) : needs.merge empty = needs := by
  simp [merge, empty]

theorem merge_assoc (a b c : Needs) : (a.merge b).merge c = a.merge (b.merge c) := by
  simp [merge]

/-- Nothing stands between what several pieces of code need. -/
theorem collect_append (all others : List Needs) :
    collect (all ++ others) = (collect all).merge (collect others) := by
  have hfold : ∀ (rest : List Needs) (first : Needs),
      rest.foldl merge first = first.merge (rest.foldl merge empty) := by
    intro rest
    induction rest with
    | nil => simp
    | cons next rest ih =>
      intro first
      rw [List.foldl_cons, ih, List.foldl_cons, ih (empty.merge next), empty_merge, merge_assoc]
  simp only [collect, List.foldl_append]
  exact hfold others _

theorem collect_cons (needs : Needs) (others : List Needs) :
    collect (needs :: others) = needs.merge (collect others) := by
  rw [← List.singleton_append, collect_append]
  rfl

@[simp] theorem imports_collect (all : List Needs) :
    (collect all).imports = all.flatMap Needs.imports := by
  induction all with
  | nil => rfl
  | cons needs others ih => rw [collect_cons, imports_merge, ih, List.flatMap_cons]

@[simp] theorem hoists_collect (all : List Needs) :
    (collect all).hoists = all.flatMap Needs.hoists := by
  induction all with
  | nil => rfl
  | cons needs others ih => rw [collect_cons, hoists_merge, ih, List.flatMap_cons]

end Needs

end ValidatorGen
