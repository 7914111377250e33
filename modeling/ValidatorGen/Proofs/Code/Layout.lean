import ValidatorGen.Code.Printer
import ValidatorGen.Proofs.Code.Token

/-!
# Layout does not touch the tokens

Emitted text is laid out in lines that are settled and indented while statements are nested.  No
token runs over the end of a line, so the tokens of lines are those of every line by itself, and
neither settling nor indenting changes them.  `Reads` is what the printer's lemmas are about: a text
with its tokens, all of them whole.
-/

namespace ValidatorGen.Code

open Lines

/-! ## Lines -/

/-- Every line is read by itself. -/
theorem lex_toText (lines : Lines) :
    lex lines.toText.toList = lines.flatMap fun line => lex line.toList := by
  unfold toText
  induction lines with
  | nil => rfl
  | cons line rest ih =>
      cases rest with
      | nil => simp
      | cons next others =>
          rw [String.intercalate_cons_cons, String.toList_append, String.toList_append,
            List.flatMap_cons, ← ih, List.append_assoc]
          exact scan_append_endsLine (by decide)

theorem lex_toText_append (lines others : Lines) :
    lex (Lines.toText (lines ++ others)).toList =
      lex lines.toText.toList ++ lex others.toText.toList := by
  simp only [lex_toText, List.flatMap_append]

/-- A blank in front of a text is no token. -/
theorem lex_blank_append (text : List Char) : lex (' ' :: text) = lex text := rfl

theorem lex_toText_indent (lines : Lines) :
    lex (indent lines).toText.toList = lex lines.toText.toList := by
  have hline (line : String) :
      lex (if line = "" then "" else "  " ++ line).toList = lex line.toList := by
    split
    · next hempty => rw [hempty]
    · rw [String.toList_append]
      exact (lex_blank_append _).trans (lex_blank_append _)
  simp only [lex_toText, indent, List.flatMap_map, hline]

theorem lex_dropReturn (line : String) : lex (dropReturn line).toList = lex line.toList := by
  unfold dropReturn
  split
  · next hlast =>
      obtain ⟨start, hchars⟩ := List.getLast?_eq_some_iff.mp hlast
      rw [hchars, List.dropLast_concat, String.toList_ofList]
      calc lex start
          = lex start ++ lex [] := (List.append_nil _).symm
        _ = lex (start ++ ['\r']) := (scan_append_endsLine (by decide)).symm
  · rfl

theorem lex_toText_settle (lines : Lines) :
    lex (settle lines).toText.toList = lex lines.toText.toList := by
  simp only [lex_toText]
  fun_induction settle lines with
  | case1 => rfl
  | case2 => rfl
  | case3 => rfl
  | case4 line rest _ ih => rw [List.flatMap_cons, List.flatMap_cons, lex_dropReturn, ih]

/-! ## Joined texts -/

/-- A separator ends whatever is read before it. -/
def Separates (separator : String) : Prop :=
  ∀ before after, lex (before ++ (separator.toList ++ after)) = lex before ++ lex after

theorem separates_newline : Separates "\n" := fun _ _ => scan_append_endsLine (by decide)

theorem separates_emptyLine : Separates "\n\n" := by
  intro before after
  calc lex (before ++ '\n' :: '\n' :: after)
      = lex before ++ lex ('\n' :: after) := separates_newline before _
    _ = lex before ++ lex after := congrArg _ (separates_newline [] after)

theorem mem_lex_intercalate {separator part : String} {parts : List String} {token : Token}
    (hseparates : Separates separator) (hpart : part ∈ parts) (h : token ∈ lex part.toList) :
    token ∈ lex (separator.intercalate parts).toList := by
  induction parts with
  | nil => cases hpart
  | cons first others ih =>
      cases others with
      | nil =>
          obtain rfl := List.mem_singleton.mp hpart
          rwa [String.intercalate_singleton]
      | cons second others =>
          rw [String.intercalate_cons_cons, String.toList_append, String.toList_append,
            List.append_assoc, hseparates, List.mem_append]
          rcases List.mem_cons.mp hpart with rfl | hpart
          · exact Or.inl h
          · exact Or.inr (ih hpart)

/-! ## Texts and their tokens -/

/-- A text consists of the given tokens, none of which is broken. -/
def Reads (text : String) (tokens : List Token) : Prop :=
  lex text.toList = tokens ∧ .broken ∉ tokens

instance (text : String) (tokens : List Token) : Decidable (Reads text tokens) :=
  inferInstanceAs (Decidable (_ ∧ _))

-- named, since there may be another instance at hand that goes through all characters there are
instance (text : List Char) : Decidable (OpensApart text) :=
  Option.decidableForallMem text.head?

instance (text : List Char) : Decidable (ClosesApart text) :=
  Option.decidableForallMem text.getLast?

theorem Reads.congr {a b : String} {s t : List Token} (h : Reads a s) (htext : a = b)
    (htokens : s = t) : Reads b t := htext ▸ htokens ▸ h

theorem Reads.append {a b : String} {s t : List Token} (ha : Reads a s) (hb : Reads b t)
    (h : Apart a.toList b.toList) : Reads (a ++ b) (s ++ t) := by
  obtain ⟨rfl, hwhole⟩ := ha
  obtain ⟨rfl, hwhole'⟩ := hb
  refine ⟨?_, fun hmem => (List.mem_append.mp hmem).elim hwhole hwhole'⟩
  rw [String.toList_append]
  exact lex_append hwhole h

/-- A fixed text that may stand before any other. -/
def Leads (text : String) (tokens : List Token) : Prop :=
  Reads text tokens ∧ ClosesApart text.toList

instance (text : String) (tokens : List Token) : Decidable (Leads text tokens) :=
  inferInstanceAs (Decidable (_ ∧ _))

/-- A fixed text that may stand between any two others. -/
def Delimits (text : String) (tokens : List Token) : Prop :=
  Leads text tokens ∧ text.toList ≠ [] ∧ OpensApart text.toList

instance (text : String) (tokens : List Token) : Decidable (Delimits text tokens) :=
  inferInstanceAs (Decidable (_ ∧ _))

section

variable {a b d : String} {s t u : List Token}

theorem Reads.before (ha : Reads a s) (hd : Delimits d u) : Reads (a ++ d) (s ++ u) :=
  ha.append hd.1.1 (Or.inr hd.2.2)

theorem Reads.behind (ha : Reads a s) (hd : Leads d u) : Reads (d ++ a) (u ++ s) :=
  hd.1.append ha (Or.inl hd.2)

theorem Reads.between (ha : Reads a s) (hd : Delimits d u) (hb : Reads b t) :
    Reads (a ++ d ++ b) (s ++ u ++ t) := by
  obtain ⟨first, rest, hchars⟩ := List.exists_cons_of_ne_nil hd.2.1
  have hopens := hd.2.2
  rw [String.append_assoc, List.append_assoc]
  refine ha.append (hb.behind hd.1) (Or.inr ?_)
  rw [String.toList_append, hchars]
  rw [hchars] at hopens
  exact hopens

end

/-! ### Fixed texts that stand in several places -/

theorem delimits_open : Delimits "(" [.mark '('] := by decide

theorem delimits_close : Delimits ")" [.mark ')'] := by decide

theorem delimits_comma : Delimits ", " [.mark ','] := by decide

theorem delimits_colon : Delimits ": " [.mark ':'] := by decide

theorem delimits_equals : Delimits " = " [.mark '='] := by decide

end ValidatorGen.Code
