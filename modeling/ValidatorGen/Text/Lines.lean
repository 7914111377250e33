import ValidatorGen.Text.Cut

/-!
# Text laid out in lines

A `Lines` is a text cut at its line feeds: the list of its lines, none of which holds a line feed.
Emitted code is built from such lists, so that a function nested in an expression keeps its shape
when the expression is placed in a line of its own: `glue` joins the last line of one text to the
first line of the next, `settle` turns a glued text into finished lines, and `indent` moves
finished lines one level to the right.
-/

namespace ValidatorGen

/-- A text as the list of its lines. -/
abbrev Lines := List String

namespace Lines

/-- The text cut at every line feed; a text without one is a single line. -/
def ofText (text : String) : Lines := (Text.cut '\n' text.toList).map String.ofList

/-- One text directly followed by another. -/
def glue : Lines → Lines → Lines
  | [], after => after
  | [line], [] => [line]
  | [line], next :: after => (line ++ next) :: after
  | line :: lines, after => line :: glue lines after

/-- Several texts one directly after the other. -/
def concat (texts : List Lines) : Lines := texts.foldr glue []

/-- The line without a carriage return at its end. -/
def dropReturn (line : String) : String :=
  if line.toList.getLast? = some '\r' then String.ofList line.toList.dropLast else line

/-- The lines as they stand in a file: a carriage return before a line feed belongs to the line
feed, and no line follows a line feed that ends the text. -/
def settle : Lines → Lines
  | [] => []
  | [line] => if line = "" then [] else [line]
  | line :: lines => dropReturn line :: settle lines

/-- The lines one level deeper; an empty line stays empty. -/
def indent (lines : Lines) : Lines :=
  lines.map fun line => if line = "" then "" else "  " ++ line

/-- The lines as one text. -/
def toText (lines : Lines) : String := "\n".intercalate lines

theorem ofText_of_notMem {text : String} (h : '\n' ∉ text.toList) : ofText text = [text] := by
  rw [ofText, Text.cut_of_notMem h, List.map_singleton, String.ofList_toList]

@[simp] theorem toText_nil : toText [] = "" := rfl

@[simp] theorem toText_ofText (text : String) : (ofText text).toText = text := by
  rw [← String.toList_inj, toText, String.toList_intercalate, ofText, List.map_map]
  simpa [Function.comp_def] using Text.intercalate_cut '\n' text.toList

/-- Gluing lines is appending texts. -/
@[simp] theorem toText_glue (before after : Lines) :
    (glue before after).toText = before.toText ++ after.toText := by
  unfold toText
  induction before with
  | nil => simp [glue]
  | cons line lines ih =>
    cases lines with
    | nil => cases after <;> simp [glue]
    | cons next others =>
      obtain ⟨first, rest, hglue⟩ : ∃ first rest, glue (next :: others) after = first :: rest := by
        cases others <;> cases after <;> simp [glue]
      have hstep : glue (line :: next :: others) after = line :: glue (next :: others) after := by
        cases after <;> rfl
      rw [hstep, hglue, String.intercalate_cons_cons, ← hglue, ih,
        String.intercalate_cons_cons]
      simp [String.append_assoc]

@[simp] theorem toText_concat (texts : List Lines) :
    (concat texts).toText = String.join (texts.map toText) := by
  induction texts with
  | nil => simp [concat, toText]
  | cons text rest ih =>
    have hstep : concat (text :: rest) = glue text (concat rest) := rfl
    rw [hstep, toText_glue, ih, List.map_cons, String.join_cons]

end Lines

end ValidatorGen
