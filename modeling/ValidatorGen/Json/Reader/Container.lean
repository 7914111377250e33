import ValidatorGen.Json.Reader.Quoted

/-!
# Reading JSON arrays and objects

Arrays and objects may nest as deep as `maxDepth`; the readers of nested values take the number of
levels that are left. A cause without a place gets one from the container around it: the place
where the container stands once it has been left, behind its closing bracket if that is what comes
next.
-/

namespace ValidatorGen.Json.Reader

variable {α β : Type}

/-- How deep arrays and objects may nest. -/
def maxDepth : Nat := 127

/-- Passes the opening bracket of an array or object if another level is left. -/
def opening (levels : Nat) (inner : Nat → Reader α) : Reader α :=
  match levels with
  | 0 => stopNext .tooDeep
  | levels + 1 => do advance; inner levels

def closeArray : Reader Unit := do
  match ← peekToken with
  | some ']' => advance
  | some ',' =>
    advance
    if (← peekToken) = some ']' then stopNext .trailingComma else stopNext .trailingCharacters
  | some _ => stopNext .trailingCharacters
  | none => stopNext .endInList

def closeObject : Reader Unit := do
  match ← peekToken with
  | some '\x7d' => advance
  | some ',' => stopNext .trailingComma
  | some _ => stopNext .trailingCharacters
  | none => stopNext .endInObject

/-- Reads the inside of a container and leaves it. A cause without a place gets the place where
the container stands after the attempt to leave it. -/
def within (close : Reader Unit) (inner : Reader α) : Reader α := fun cursor =>
  match inner cursor with
  | .ok (value, cursor) => (do close; return value : Reader α) cursor
  | .error ⟨path, cause, none, stopped⟩ =>
    -- the cause stays the same if the container cannot be left
    let left := match close stopped with
      | .ok (_, cursor) => cursor
      | .error s => s.cursor
    .error ⟨path, cause, left.position, left⟩
  | .error stopped => .error stopped

/-- Whether another element follows; if so, the cursor is put before it. -/
def hasElement (first : Bool) : Reader Bool := do
  match ← peekToken with
  | none => stopNext .endInList
  | some ']' => return false
  | some c =>
    if first then return true
    else if c = ',' then
      advance
      match ← peekToken with
      | some ']' => stopNext .trailingComma
      | some _ => return true
      | none => stopNext .endInValue
    else stopNext .expectedListEnd

/-- The name of the next member, if another follows. -/
def memberName? (first : Bool) : Reader (Option String) := located .unnamed do
  match ← peekToken with
  | none => stopNext .endInObject
  | some '\x7d' => return none
  | some c =>
    if first then
      if c = '"' then advance; return some (← stringTail) else stopNext .keyNotString
    else if c = ',' then
      advance
      match ← peekToken with
      | some '"' => advance; return some (← stringTail)
      | some '\x7d' => stopNext .trailingComma
      | some _ => stopNext .keyNotString
      | none => stopNext .endInValue
    else stopNext .expectedObjectEnd

def colon : Reader Unit := do
  match ← peekToken with
  | some ':' => advance
  | some _ => stopNext .expectedColon
  | none => stopNext .endInObject

/-- The elements of an array from an index on. Each step takes a character at least, so as many
steps as there are characters are enough. -/
def elementsFrom (element : Reader α) : Nat → Nat → Reader (List α)
  | 0, _ => stopNext .endInList
  | steps + 1, index => do
    if ← hasElement (index == 0) then
      let value ← located (.element index) element
      return value :: (← elementsFrom element steps (index + 1))
    else return []

/-- The elements of an array after its opening bracket. -/
def elements (element : Reader α) : Reader (List α) := within closeArray do
  elementsFrom element ((← get).rest.length + 1) 0

/-- Folds over the members of an object. Each step takes a character at least, so as many steps as
there are characters are enough. -/
def membersFrom (member : β → String → Reader β) : Nat → Bool → β → Reader β
  | 0, _, _ => stopNext .endInObject
  | steps + 1, first, state => do
    match ← memberName? first with
    | none => return state
    | some name => membersFrom member steps false (← member state name)

/-- Folds over the members of an object after its opening bracket; `member` reads from the colon
on. -/
def members (member : β → String → Reader β) (initial : β) : Reader β := do
  membersFrom member ((← get).rest.length + 1) true initial

/-- Reads the value of a member, from the colon on. -/
def memberValue (name : String) (value : Reader α) : Reader α := do
  colon
  located (.member name) value

end ValidatorGen.Json.Reader
