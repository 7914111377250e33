import ValidatorGen.Json.Reader.Basic
import ValidatorGen.Text.Hex

/-!
# Reading JSON strings

A string ends at the first quote that is not escaped. An escape of four hexadecimal digits gives a
unit of UTF-16, so a character beyond U+FFFF takes two of them; half of such a pair is refused.
-/

namespace ValidatorGen.Json.Reader

/-- Whether a unit of UTF-16 begins a pair. -/
def isHighSurrogate (n : Nat) : Bool := 0xD800 ≤ n && n ≤ 0xDBFF

/-- Whether a unit of UTF-16 ends a pair. -/
def isLowSurrogate (n : Nat) : Bool := 0xDC00 ≤ n && n ≤ 0xDFFF

def pairedChar (high low : Nat) : Char :=
  Char.ofNat ((high - 0xD800) * 0x400 + (low - 0xDC00) + 0x10000)

/-- The character that an escape of two characters stands for. -/
def escaped? : Char → Option Char
  | '"' => some '"'
  | '\\' => some '\\'
  | '/' => some '/'
  | 'b' => some '\x08'
  | 'f' => some '\x0c'
  | 'n' => some '\n'
  | 'r' => some '\r'
  | 't' => some '\t'
  | _ => none

/-- A flaw of a string and where it lies. -/
abbrev StringFault := Flaw × Position

/-- The flaw where four hexadecimal digits should follow: they are looked for in four bytes. -/
def brokenHex (p : Position) (rest : List Char) : StringFault :=
  let bytes := rest.foldl (fun bytes c => bytes + c.utf8Size) 0
  if 4 ≤ bytes then (.badEscape, p.skip 4 rest) else (.endInString, p.skip bytes rest)

/-- The flaw where the second half of a pair should follow. -/
def brokenPair (p : Position) : List Char → StringFault
  | [] => (.endInString, p)
  | ['\\'] => (.endInString, p.after '\\')
  | '\\' :: rest => (.unpairedSurrogate, (p.after '\\').skip 1 rest)
  | rest => (.unpairedSurrogate, p.skip 1 rest)

def consChar (c : Char) (result : Except StringFault (List Char × Cursor)) :
    Except StringFault (List Char × Cursor) :=
  match result with
  | .ok (chars, cursor) => .ok (c :: chars, cursor)
  | .error fault => .error fault

/-- The characters of a string after its opening quote. -/
def chars (p : Position) : List Char → Except StringFault (List Char × Cursor)
  | [] => .error (.endInString, p)
  | '"' :: rest => .ok ([], ⟨rest, p.after '"'⟩)
  | '\\' :: rest =>
    let p := p.after '\\'
    match rest with
    | [] => .error (.endInString, p)
    | 'u' :: rest =>
      let p := p.after 'u'
      match rest with
      | a :: b :: c :: d :: more =>
        match Text.hex4? a b c d with
        | none => .error (brokenHex p rest)
        | some unit =>
          let p := p.skip 4 rest
          if isLowSurrogate unit then .error (.loneSurrogate, p)
          else if isHighSurrogate unit then
            match more with
            | '\\' :: 'u' :: rest =>
              let p := (p.after '\\').after 'u'
              match rest with
              | a :: b :: c :: d :: more =>
                match Text.hex4? a b c d with
                | none => .error (brokenHex p rest)
                | some low =>
                  let p := p.skip 4 rest
                  if isLowSurrogate low then consChar (pairedChar unit low) (chars p more)
                  else .error (.loneSurrogate, p)
              | rest => .error (brokenHex p rest)
            | more => .error (brokenPair p more)
          else consChar (Char.ofNat unit) (chars p more)
      | rest => .error (brokenHex p rest)
    | e :: rest =>
      match escaped? e with
      | some c => consChar c (chars (p.after e) rest)
      | none => .error (.badEscape, p.skip 1 (e :: rest))
  | c :: rest =>
    if c.toNat < 0x20 then .error (.controlCharacter, p.after c)
    else consChar c (chars (p.after c) rest)

/-- Reads a string after its opening quote. -/
def stringTail : Reader String := fun cursor =>
  match chars cursor.position cursor.rest with
  | .ok (chars, cursor) => .ok (String.ofList chars, cursor)
  | .error (flaw, p) => .error ⟨[], .malformed flaw, p, cursor⟩

end ValidatorGen.Json.Reader
