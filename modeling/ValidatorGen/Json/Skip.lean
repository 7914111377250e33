import ValidatorGen.Json.Reader.Tree

/-!
# Passing over JSON text

A member that nobody asks for is passed over. Its text is checked more loosely than that of a
value which is kept: numbers may be of any size, escapes may name lone surrogates, arrays and
objects may nest as deep as they like, and a comma before a closing bracket is taken for the
beginning of another element.

## Strategy

`skip` keeps the brackets that are open, innermost first. A step reads one scalar or one opening
bracket and then leaves all arrays and objects that end there.
-/

namespace ValidatorGen.Json.Reader

inductive Bracket where
  | array
  | object
  deriving DecidableEq, Repr

/-- Passes the rest of a string after its opening quote. -/
def skipChars (p : Position) : List Char → Except StringFault Cursor
  | [] => .error (.endInString, p)
  | '"' :: rest => .ok ⟨rest, p.after '"'⟩
  | '\\' :: rest =>
    let p := p.after '\\'
    match rest with
    | [] => .error (.endInString, p)
    | 'u' :: rest =>
      let p := p.after 'u'
      match rest with
      | a :: b :: c :: d :: more =>
        match Text.hex4? a b c d with
        | none => .error (brokenHex p rest)
        | some _ => skipChars (p.skip 4 rest) more
      | rest => .error (brokenHex p rest)
    | e :: rest =>
      match escaped? e with
      | some _ => skipChars (p.after e) rest
      | none => .error (.badEscape, p.skip 1 (e :: rest))
  | c :: rest =>
    if c.toNat < 0x20 then .error (.controlCharacter, p) else skipChars (p.after c) rest

def skipString : Reader Unit := fun cursor =>
  match skipChars cursor.position cursor.rest with
  | .ok cursor => .ok ((), cursor)
  | .error (flaw, p) => .error ⟨[], .malformed flaw, p, cursor⟩

def skipFraction : Reader Unit := do
  if (← digits).isEmpty then stopNext .badNumber

def skipExponent : Reader Unit := do
  let sign ← peek
  if sign = some '+' || sign = some '-' then advance
  if (← digits).isEmpty then stopNext .badNumber

def skipNumber : Reader Unit := do
  match ← peek with
  | some '0' =>
    advance
    if (← peek).any isDigit then stopNext .badNumber
  | _ => if (← digits).isEmpty then stopNext .badNumber
  if (← peek) = some '.' then
    advance
    skipFraction
  if isExponentMark (← peek) then
    advance
    skipExponent

/-- Passes one scalar, or one opening bracket, which is shown. -/
def skipPiece : Reader (Option Bracket) := do
  match ← peekToken with
  | none => stopNext .endInValue
  | some '"' => advance; skipString; return none
  | some '[' => advance; return some .array
  | some '\x7b' => advance; return some .object
  | some 'n' => advance; word ['u', 'l', 'l']; return none
  | some 't' => advance; word ['r', 'u', 'e']; return none
  | some 'f' => advance; word ['a', 'l', 's', 'e']; return none
  | some '-' => advance; skipNumber; return none
  | some c => if isDigit c then do skipNumber; return none else stopNext .expectedValue

/-- Leaves the arrays and objects that end here, the innermost first. `fresh` says that the
innermost has just been opened. What remains open expects another element. -/
def leave (fresh : Bool) : List Bracket → Reader (List Bracket)
  | [] => return []
  | bracket :: outer => do
    match ← peekToken, bracket with
    | some ']', .array => advance; leave false outer
    | some '\x7d', .object => advance; leave false outer
    | some ',', _ =>
      if !fresh then advance
      return bracket :: outer
    | some _, .array => if fresh then return bracket :: outer else stopNext .expectedListEnd
    | some _, .object => if fresh then return bracket :: outer else stopNext .expectedObjectEnd
    | none, .array => stopNext .endInList
    | none, .object => stopNext .endInObject

/-- Passes the name of a member and its colon. -/
def skipName : Reader Unit := do
  match ← peekToken with
  | some '"' => advance
  | some _ => stopNext .keyNotString
  | none => stopNext .endInObject
  skipString
  colon

/-- Passes over a value within the open brackets. Each step takes a character at least, so as many
steps as there are characters are enough. -/
def skipWithin : Nat → List Bracket → Reader Unit
  | 0, _ => stopNext .endInValue
  | steps + 1, outer => do
    let opened ← skipPiece
    let left ← leave opened.isSome (opened.toList ++ outer)
    match left with
    | [] => return ()
    | .array :: _ => skipWithin steps left
    | .object :: _ =>
      skipName
      skipWithin steps left

def skip : Reader Unit := do skipWithin ((← get).rest.length + 1) []

end ValidatorGen.Json.Reader
