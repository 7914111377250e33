import ValidatorGen.Json.Number
import ValidatorGen.Table

/-!
# JSON values

`Json` is the tree of a JSON text. The members of an object stand in the order of the text and, as
read, a name may be repeated; `distinct` keeps one member per name, which is the value that the
text denotes. `isDistinct` is the test for such values and `depth` counts how deep arrays and
objects nest.
-/

namespace ValidatorGen

/-- The tree of a JSON text. -/
inductive Json where
  | null
  | bool (value : Bool)
  | number (value : Json.Number)
  | string (value : String)
  | array (items : List Json)
  | object (members : List (String × Json))
  deriving Inhabited, Repr

namespace Json

mutual

/-- Keeps one member per name at every depth: the last value, in the place of the first. -/
def distinct : Json → Json
  | .array items => .array (distinctItems items)
  | .object members => .object (Table.ofPairs (distinctMembers members))
  | json => json

def distinctItems : List Json → List Json
  | [] => []
  | item :: items => item.distinct :: distinctItems items

def distinctMembers : List (String × Json) → List (String × Json)
  | [] => []
  | (name, value) :: members => (name, value.distinct) :: distinctMembers members

end

mutual

/-- How deep arrays and objects nest; a scalar has depth 0. -/
def depth : Json → Nat
  | .array items => depthOfItems items + 1
  | .object members => depthOfMembers members + 1
  | _ => 0

def depthOfItems : List Json → Nat
  | [] => 0
  | item :: items => max item.depth (depthOfItems items)

def depthOfMembers : List (String × Json) → Nat
  | [] => 0
  | (_, value) :: members => max value.depth (depthOfMembers members)

end

mutual

/-- Whether no object, at any depth, has two members of one name. -/
def isDistinct : Json → Bool
  | .array items => itemsDistinct items
  | .object members => membersDistinct members
  | _ => true

def itemsDistinct : List Json → Bool
  | [] => true
  | item :: items => item.isDistinct && itemsDistinct items

def membersDistinct : List (String × Json) → Bool
  | [] => true
  | (name, value) :: members =>
    !members.any (·.1 == name) && value.isDistinct && membersDistinct members

end

/-- The value of an object's member. -/
def member? (name : String) : Json → Option Json
  | .object members => Table.get? members name
  | _ => none

end Json

end ValidatorGen
