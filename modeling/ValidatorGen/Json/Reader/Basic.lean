import ValidatorGen.Json.Fault

/-!
# Reading JSON text

A `Reader` takes a value from the beginning of what follows a cursor. It reads no further than the
value, so anything may follow.

A reader that fails leaves a `Stop`: the path and the cause, the place in the text if it is known,
and the cursor it stood at. A flaw of the text has a place of its own. A value that lacks the
wanted form has none until the container around it is left (`ValidatorGen.Json.Reader.Container`).
-/

namespace ValidatorGen.Json

/-- Where and why a reader stopped. -/
structure Stop where
  path : List Segment
  cause : Cause
  position : Option Position
  cursor : Cursor
  deriving Repr

/-- Takes a value from the text after a cursor. -/
abbrev Reader := StateT Cursor (Except Stop)

namespace Reader

variable {α : Type}

/-! ## Stopping -/

/-- Stops with a cause that has no place yet. -/
def stop (cause : Cause) : Reader α := fun cursor => .error ⟨[], cause, none, cursor⟩

/-- Stops at a flaw in front of the cursor. -/
def stopHere (flaw : Flaw) : Reader α := fun cursor =>
  .error ⟨[], .malformed flaw, cursor.position, cursor⟩

/-- Stops at a flaw in the next byte. -/
def stopNext (flaw : Flaw) : Reader α := fun cursor =>
  .error ⟨[], .malformed flaw, cursor.behindByte, cursor⟩

/-- Gives a cause without a place the place of the cursor. -/
def placed (reader : Reader α) : Reader α := fun cursor =>
  match reader cursor with
  | .error ⟨path, cause, none, stopped⟩ => .error ⟨path, cause, stopped.position, stopped⟩
  | result => result

/-- Reads a part of a value: a fault in it lies behind the segment. -/
def located (segment : Segment) (reader : Reader α) : Reader α := fun cursor =>
  match reader cursor with
  | .error stopped => .error { stopped with path := segment :: stopped.path }
  | result => result

/-! ## Characters -/

/-- The next character, which stays in place. -/
def peek : Reader (Option Char) := fun cursor => .ok (cursor.rest.head?, cursor)

def advance : Reader Unit := fun cursor => .ok ((), cursor.next)

/-- The blanks of JSON. -/
def isBlank (c : Char) : Bool := c == ' ' || c == '\t' || c == '\n' || c == '\r'

/-- Passes blanks and shows the next character. -/
def peekToken : Reader (Option Char) := fun cursor =>
  let cursor := cursor.dropWhile isBlank
  .ok (cursor.rest.head?, cursor)

/-- Reads the rest of a word whose first character is known. -/
def word : List Char → Reader Unit
  | [] => pure ()
  | c :: rest => do
    match ← peek with
    | none => stopHere .endInValue
    | some d => if d = c then advance; word rest else stopNext .expectedWord

def isDigit (c : Char) : Bool := '0' ≤ c && c ≤ '9'

def digitValue (c : Char) : Nat := c.toNat - '0'.toNat

/-- Takes the digits that come next. -/
def digits : Reader (List Nat) := fun cursor =>
  .ok ((cursor.rest.takeWhile isDigit).map digitValue, cursor.dropWhile isDigit)

end Reader

end ValidatorGen.Json
