/-!
# Identifiers

The identifiers that emitted code uses: a letter, `_` or `$`, followed by letters, digits, `_` and
`$`, all of them ASCII. Some identifiers may not name a field.
-/

namespace ValidatorGen.Code

/-- Whether an identifier may begin with a character. -/
def beginsIdentifier (c : Char) : Bool :=
  ('A' ≤ c && c ≤ 'Z') || ('a' ≤ c && c ≤ 'z') || c == '_' || c == '$'

/-- Whether an identifier may go on with a character. -/
def continuesIdentifier (c : Char) : Bool := beginsIdentifier c || ('0' ≤ c && c ≤ '9')

def isIdentifier (name : String) : Bool :=
  match name.toList with
  | [] => false
  | first :: rest => beginsIdentifier first && rest.all continuesIdentifier

def keywords : List String := [
  "await", "break", "case", "catch", "class", "const", "continue", "debugger", "default",
  "delete", "do", "else", "enum", "export", "extends", "false", "finally", "for", "function",
  "if", "implements", "import", "in", "instanceof", "interface", "let", "new", "null", "package",
  "private", "protected", "public", "return", "static", "super", "switch", "this", "throw",
  "true", "try", "typeof", "undefined", "var", "void", "while", "with", "yield"]

/-- Names that the code around a field relies on: constants of its function, and functions and
objects that it calls. -/
def reliedOn : List String := [
  "json", "result", "fieldError", "Error", "JSON", "Object", "String",
  "deBool", "deField", "deList", "deMapping", "deNumber", "deString"]

/-- Whether a name may be given to the constant of a field. -/
def isBindable (name : String) : Bool :=
  isIdentifier name && !keywords.contains name && !reliedOn.contains name

end ValidatorGen.Code
