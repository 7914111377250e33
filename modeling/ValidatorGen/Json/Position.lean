/-!
# Places in a text

A place is a line, counted from 1, with the number of bytes of that line that lie before it. A
`Cursor` is a place together with the characters that follow it.
-/

namespace ValidatorGen.Json

/-- A line and the bytes of it that lie before the place. -/
structure Position where
  line : Nat
  column : Nat
  deriving DecidableEq, Repr, Inhabited

namespace Position

def start : Position := ⟨1, 0⟩

def after (p : Position) (c : Char) : Position :=
  if c = '\n' then ⟨p.line + 1, 0⟩ else ⟨p.line, p.column + c.utf8Size⟩

/-- The place a number of bytes further on, or the end of the text if it comes first. The place
may lie within a character. -/
def skip (p : Position) (bytes : Nat) : List Char → Position
  | [] => p
  | c :: rest =>
    if bytes < c.utf8Size then ⟨p.line, p.column + bytes⟩
    else (p.after c).skip (bytes - c.utf8Size) rest

end Position

/-- A place in a text and what follows it. -/
structure Cursor where
  rest : List Char
  position : Position
  deriving DecidableEq, Repr, Inhabited

namespace Cursor

def ofText (text : String) : Cursor := ⟨text.toList, .start⟩

def next (cursor : Cursor) : Cursor :=
  match cursor.rest with
  | [] => cursor
  | c :: rest => ⟨rest, cursor.position.after c⟩

/-- Past the characters that satisfy a test. -/
def dropWhile (test : Char → Bool) (cursor : Cursor) : Cursor :=
  go cursor.position cursor.rest
where
  go (p : Position) : List Char → Cursor
    | [] => ⟨[], p⟩
    | c :: rest => if test c then go (p.after c) rest else ⟨c :: rest, p⟩

/-- The place of the next byte once it is taken. -/
def behindByte (cursor : Cursor) : Position := cursor.position.skip 1 cursor.rest

end Cursor

end ValidatorGen.Json
