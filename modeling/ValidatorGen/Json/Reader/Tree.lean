import ValidatorGen.Json.Reader.Container
import ValidatorGen.Json.Reader.Numeral

/-!
# Reading JSON values

`tree` reads any value as it stands, `value` keeps one member per name, and `run` reads a typed
value from the beginning of a text.
-/

namespace ValidatorGen.Json.Reader

variable {α : Type}

/-- Reads a value that is neither an array nor an object and whose first character is given. -/
def scalar (first : Char) : Reader Json :=
  match first with
  | '"' => do advance; return .string (← stringTail)
  | 'n' => do advance; word ['u', 'l', 'l']; return .null
  | 't' => do advance; word ['r', 'u', 'e']; return .bool true
  | 'f' => do advance; word ['a', 'l', 's', 'e']; return .bool false
  | '-' => do advance; return .number (← numberTail true)
  | c => if isDigit c then do return .number (← numberTail false) else stopNext .expectedValue

/-- Stops because the value that comes next has not the wanted form. A scalar is read, an array or
object is not. -/
def mismatch (expected : String) (first : Char) : Reader α :=
  placed do
    match first with
    | '[' => stop (.mismatch (.array []) expected)
    | '\x7b' => stop (.mismatch (.object []) expected)
    | c => do
      let found ← scalar c
      stop (.mismatch found expected)

/-- Reads any value; what stands in an array or object is read by `inner`, unless no level is
left. -/
def treeWith (inner : Option (Reader Json)) : Reader Json := do
  match ← peekToken with
  | none => stopNext .endInValue
  | some '[' =>
    match inner with
    | none => stopNext .tooDeep
    | some inner =>
      advance
      return .array (← elements inner)
  | some '\x7b' =>
    match inner with
    | none => stopNext .tooDeep
    | some inner =>
      advance
      let reversed ← within closeObject do
        members (fun read name => do return (name, ← memberValue name inner) :: read) []
      return .object reversed.reverse
  | some c => scalar c

/-- Reads any value, as deep as the levels that are left. A repeated name of a member stays. -/
def tree : Nat → Reader Json
  | 0 => treeWith none
  | levels + 1 => treeWith (some (tree levels))

/-- Reads any value, keeping one member per name. -/
def value (levels : Nat) : Reader Json := do return (← tree levels).distinct

/-- Reads a typed value from the beginning of a text. -/
def run (reader : Nat → Reader α) (text : String) : Except Fault α :=
  match reader maxDepth (.ofText text) with
  | .ok (value, _) => .ok value
  | .error stopped => .error ⟨stopped.path, stopped.cause, stopped.position⟩

end ValidatorGen.Json.Reader
