import ValidatorGen.Json.Position
import ValidatorGen.Json.Writer
import ValidatorGen.Text.Quoted

/-!
# Why a text cannot be read

A `Fault` says where reading a typed value failed and why: the path from the root of the value,
the cause, and the place in the text if there is one. A cause is either a `Flaw` of the text
itself or a value that does not have the wanted form.
-/

namespace ValidatorGen.Json

/-- One step of a path: into a member, into an element, or to where the name of a member should
be. -/
inductive Segment where
  | member (name : String)
  | element (index : Nat)
  | unnamed
  deriving DecidableEq, Repr

namespace Segment

/-- A step at the beginning of a path. -/
def text : Segment → String
  | .member name => name
  | .element index => "[" ++ toString index ++ "]"
  | .unnamed => "?"

/-- A step after others: a point sets it off unless it goes into an element. -/
def further : Segment → String
  | .element index => (Segment.element index).text
  | step => "." ++ step.text

def pathText : List Segment → String
  | [] => "."
  | first :: rest => first.text ++ String.join (rest.map further)

end Segment

/-- What makes a text no JSON text. -/
inductive Flaw where
  | endInValue
  | endInList
  | endInObject
  | endInString
  | expectedColon
  | expectedListEnd
  | expectedObjectEnd
  | expectedWord
  | expectedValue
  | badEscape
  | badNumber
  | outOfRange
  | controlCharacter
  | keyNotString
  | trailingComma
  | trailingCharacters
  | tooDeep
  | loneSurrogate
  | unpairedSurrogate
  deriving DecidableEq, Repr

def Flaw.message : Flaw → String
  | .endInValue => "EOF while parsing a value"
  | .endInList => "EOF while parsing a list"
  | .endInObject => "EOF while parsing an object"
  | .endInString => "EOF while parsing a string"
  | .expectedColon => "expected `:`"
  | .expectedListEnd => "expected `,` or `]`"
  | .expectedObjectEnd => "expected `,` or `\x7d`"
  | .expectedWord => "expected ident"
  | .expectedValue => "expected value"
  | .badEscape => "invalid escape"
  | .badNumber => "invalid number"
  | .outOfRange => "number out of range"
  | .controlCharacter => "control character (\\u0000-\\u001F) found while parsing a string"
  | .keyNotString => "key must be a string"
  | .trailingComma => "trailing comma"
  | .trailingCharacters => "trailing characters"
  | .tooDeep => "recursion limit exceeded"
  | .loneSurrogate => "lone leading surrogate in hex escape"
  | .unpairedSurrogate => "unexpected end of hex escape"

/-- Why a value cannot be read: the text is flawed, or the value has not the wanted form. -/
inductive Cause where
  | malformed (flaw : Flaw)
  | unknownKind (name : String) (known : List String)
  | kindIndex (index : Int) (count : Nat)
  | missing (member : String)
  | duplicate (member : String)
  | mismatch (found : Json) (expected : String)
  | length (count : Nat) (expected : String)
  | noType
  deriving Repr

/-- How a message names a value that has not the wanted form. -/
def describe : Json → String
  | .null => "null"
  | .bool value => "boolean `" ++ (if value then "true" else "false") ++ "`"
  | .number (.int value) => "integer `" ++ toString value ++ "`"
  | .number (.float bits) => "floating point `" ++ (Number.float bits).text ++ "`"
  | .string value => "string " ++ Text.quoted value
  | .array _ => "sequence"
  | .object _ => "map"

def Cause.message : Cause → String
  | .malformed flaw => flaw.message
  | .unknownKind name known =>
    "unknown variant `" ++ name ++ "`, expected one of " ++
      ", ".intercalate (known.map fun k => "`" ++ k ++ "`")
  | .kindIndex index count =>
    "invalid value: integer `" ++ toString index ++ "`, expected variant index 0 <= i < " ++
      toString count
  | .missing member => "missing field `" ++ member ++ "`"
  | .duplicate member => "duplicate field `" ++ member ++ "`"
  | .mismatch found expected => "invalid type: " ++ describe found ++ ", expected " ++ expected
  | .length count expected => "invalid length " ++ toString count ++ ", expected " ++ expected
  | .noType => "data did not match any variant of untagged enum TypeExpr"

/-- A count of elements in words. -/
def elementCount (count : Nat) : String :=
  toString count ++ (if count = 1 then " element" else " elements")

/-- Where reading a typed value failed, and why. -/
structure Fault where
  path : List Segment
  cause : Cause
  position : Option Position
  deriving Repr

namespace Fault

/-- A cause at the root of what is read. -/
def ofCause (cause : Cause) : Fault := ⟨[], cause, none⟩

/-- A result whose cause, if it fails, lies at the root. -/
def atRoot {α : Type} (result : Except Cause α) : Except Fault α := result.mapError ofCause

/-- A result without its path, if it fails. -/
def pathless {α : Type} (result : Except Fault α) : Except Cause α := result.mapError cause

/-- The fault as seen from a container that holds the faulty value. -/
def inside (segment : Segment) (fault : Fault) : Fault :=
  { fault with path := segment :: fault.path }

/-- A result for a part of a value: a fault in it lies behind the segment. -/
def behind {α : Type} (segment : Segment) (result : Except Fault α) : Except Fault α :=
  result.mapError (inside segment)

def message (fault : Fault) : String :=
  "at JSON path " ++ Segment.pathText fault.path ++ " → " ++ fault.cause.message ++
    match fault.position with
    | none => ""
    | some p => " at line " ++ toString p.line ++ " column " ++ toString p.column

end Fault

end ValidatorGen.Json
