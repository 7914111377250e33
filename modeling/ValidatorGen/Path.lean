import ValidatorGen.Text.Cut

/-!
# Paths

A path is kept as it was written, because messages show it that way. What it denotes is the list of
its components: blank parts and points between separators disappear, only a point at the very
beginning remains. Two paths with the same components are the same place.

`normalize` folds `..` into the component before it wherever there is one, and `relativeTo` leads
from one place to another. Both look at the text alone and never at a disk.
-/

namespace ValidatorGen

/-- A path as it is written. -/
structure Path where
  text : String
  deriving DecidableEq, Repr, Inhabited

namespace Path

/-- A part of a path. -/
inductive Component where
  | root
  | here
  | up
  | normal (name : String)
  deriving DecidableEq, Repr

def Component.text : Component → String
  | .root => "/"
  | .here => "."
  | .up => ".."
  | .normal name => name

/-- What a path begins with apart from its parts: the root, or a point. -/
def lead : List Char → Option Component
  | '/' :: _ => some .root
  | ['.'] => some .here
  | '.' :: '/' :: _ => some .here
  | _ => none

/-- The parts behind the lead, blank ones included. -/
def parts (text : List Char) : List (List Char) :=
  Text.cut '/' (if (lead text).isSome then text.drop 1 else text)

/-- The component that a part stands for; a blank part or a point stands for none. -/
def Component.ofPart? (part : List Char) : Option Component :=
  if part = [] ∨ part = ['.'] then none
  else if part = ['.', '.'] then some .up
  else some (.normal (String.ofList part))

def components (path : Path) : List Component :=
  let text := path.text.toList
  (lead text).toList ++ (parts text).filterMap Component.ofPart?

def ofComponents : List Component → Path
  | .root :: rest => ⟨"/" ++ "/".intercalate (rest.map Component.text)⟩
  | components => ⟨"/".intercalate (components.map Component.text)⟩

/-- Whether a path begins at the root. -/
def isAbsolute (path : Path) : Bool := lead path.text.toList = some .root

/-- Whether two paths have the same components. -/
def samePlace (a b : Path) : Bool := a.components = b.components

/-- A path looked at from a directory. -/
def join (directory path : Path) : Path :=
  if path.isAbsolute ∨ directory.text = "" then path
  else if directory.text.toList.getLast? = some '/' then ⟨directory.text ++ path.text⟩
  else ⟨directory.text ++ "/" ++ path.text⟩

/-- Parts, last first, without those at the end that stand for no component. -/
def dropBlank (reversed : List (List Char)) : List (List Char) :=
  reversed.dropWhile fun part => (Component.ofPart? part).isNone

/-- The path without its last component and the separators before it. The root and the empty path
have no parent. -/
def parent? (path : Path) : Option Path :=
  let text := path.text.toList
  let start := if (lead text).isSome then text.take 1 else []
  match dropBlank (parts text).reverse with
  | [] => if lead text = some .here then some ⟨""⟩ else none
  | _ :: before =>
    some ⟨String.ofList (start ++ List.intercalate ['/'] (dropBlank before).reverse)⟩

/-- The directory that holds a path: its parent, or the empty path. -/
def directory (path : Path) : Path := path.parent?.getD ⟨""⟩

/-! ## Normal paths -/

/-- Puts a component onto a stack of components, the last one on top. -/
def push : List Component → Component → List Component
  | stack, .here => stack
  | .normal _ :: stack, .up => stack
  | .root :: stack, .up => .root :: stack
  | stack, component => component :: stack

/-- Folds `..` into the component before it wherever there is one. -/
def fold (components : List Component) : List Component := (components.foldl push []).reverse

/-- The path with `.` dropped and `..` folded. -/
def normalize (path : Path) : Path := ofComponents (fold path.components)

/-- The components that two lists have in common at their beginning. -/
def commonLength : List Component → List Component → Nat
  | a :: as, b :: bs => if a = b then commonLength as bs + 1 else 0
  | _, _ => 0

/-- The way from a directory to a target. A target at the root that has nothing in common with the
directory is given as it is. -/
def relativeTo (target directory : Path) : Path :=
  let goal := target.components
  let start := directory.components
  let common := commonLength goal start
  match goal.drop common with
  -- a directory that does not begin at the root has nothing in common with such a goal
  | .root :: rest => ofComponents (.root :: rest)
  | rest => ofComponents (List.replicate (start.length - common) .up ++ rest)

end Path

end ValidatorGen
