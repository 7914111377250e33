import ValidatorGen.Code.Identifier
import ValidatorGen.Code.Quoted
import ValidatorGen.Json.Writer

/-!
# The tokens of emitted text

`lex` reads a text as its tokens: words, which are longest runs of the characters of identifiers,
string literals in single or double quotes, and all other characters one by one.  Blanks separate
tokens and are none.  Emitted text has neither comments nor templates, so that is all there is to
read.  A literal that its line does not close is a token of its own, `broken`.

## Strategy

A reader of tokens that meets a text piece by piece has to know two things of every seam: that it
does not lie within a literal, and that it does not lie within a word.  `lex_append` says that they
are enough.  The first is `broken ∉ lex a`, which all texts that matter satisfy; the second,
`Apart`, holds because the printer sets marks or blanks between what it takes over.
-/

namespace ValidatorGen.Code

inductive Token where
  | word (text : List Char)
  | mark (c : Char)
  /-- A string literal with what stands between its quotes, escapes as they are written. -/
  | literal (quote : Char) (content : List Char)
  /-- A string literal that is not closed on its line. -/
  | broken
  deriving DecidableEq, Repr

/-- Where the reader of a text is: outside literals, behind the beginning of a word, or within a
literal, perhaps behind a backslash. -/
inductive Mode where
  | outside (word : List Char)
  | within (quote : Char) (content : List Char)
  | escaped (quote : Char) (content : List Char)

/-- Whether a character begins and ends string literals. -/
def isQuote (c : Char) : Bool := c == '\'' || c == '"'

/-- Whether a character ends a line. -/
def endsLine (c : Char) : Bool := c == '\n' || c == '\r'

/-- Whether a character only separates tokens. -/
def isSpace (c : Char) : Bool := c == ' ' || c == '\t' || endsLine c

/-- The token of a word, unless it is empty. -/
def wordToken (word : List Char) : List Token := if word.isEmpty then [] else [.word word]

/-- The tokens of a text from a mode on. -/
def scan : Mode → List Char → List Token
  | .outside word, [] => wordToken word
  | .within _ _, [] => [.broken]
  | .escaped _ _, [] => [.broken]
  | .outside word, c :: rest =>
    if continuesIdentifier c then scan (.outside (word ++ [c])) rest
    else if isQuote c then wordToken word ++ scan (.within c []) rest
    else if isSpace c then wordToken word ++ scan (.outside []) rest
    else wordToken word ++ .mark c :: scan (.outside []) rest
  | .within quote content, c :: rest =>
    if endsLine c then .broken :: scan (.outside []) rest
    else if c = quote then .literal quote content :: scan (.outside []) rest
    else if c = '\\' then scan (.escaped quote (content ++ [c])) rest
    else scan (.within quote (content ++ [c])) rest
  | .escaped quote content, c :: rest =>
    if endsLine c then .broken :: scan (.outside []) rest
    else scan (.within quote (content ++ [c])) rest

/-- The tokens of a text. -/
def lex (text : List Char) : List Token := scan (.outside []) text

/-! ## Seams -/

/-- Whether a text does not begin in the middle of a word. -/
def OpensApart (text : List Char) : Prop := ∀ c ∈ text.head?, continuesIdentifier c = false

/-- Whether a text does not end in the middle of a word. -/
def ClosesApart (text : List Char) : Prop := ∀ c ∈ text.getLast?, continuesIdentifier c = false

/-- Whether no word runs from one text into the next. -/
def Apart (before after : List Char) : Prop := ClosesApart before ∨ OpensApart after

theorem scan_outside_of_opensApart {word text : List Char} (h : OpensApart text) :
    scan (.outside word) text = wordToken word ++ lex text := by
  cases text with
  | nil => simp [lex, scan, wordToken]
  | cons c rest =>
      have hc : continuesIdentifier c = false := h c rfl
      simp only [lex, scan, hc, Bool.false_eq_true, if_false]
      split
      · simp [wordToken]
      · split <;> simp [wordToken]

theorem scan_append_of_opensApart {mode : Mode} {before after : List Char}
    (hwhole : .broken ∉ scan mode before) (h : OpensApart after) :
    scan mode (before ++ after) = scan mode before ++ lex after := by
  fun_induction scan mode before with
  | case1 word => exact scan_outside_of_opensApart h
  | case2 => simp at hwhole
  | case3 => simp at hwhole
  | _ => simp_all [scan]

theorem ClosesApart.tail {c : Char} {rest : List Char} (h : ClosesApart (c :: rest)) :
    ClosesApart rest := by
  cases rest with
  | nil => simp [ClosesApart]
  | cons next others => exact fun last hlast => h last (by simpa using hlast)

/-- The word that is being read. -/
def Mode.pending : Mode → List Char
  | .outside word => word
  | _ => []

theorem scan_append_of_closesApart {mode : Mode} {before after : List Char}
    (hwhole : .broken ∉ scan mode before) (h : ClosesApart before)
    (hpending : before = [] → mode.pending = []) :
    scan mode (before ++ after) = scan mode before ++ lex after := by
  fun_induction scan mode before with
  | case1 word =>
      obtain rfl : word = [] := hpending rfl
      simp [wordToken, lex]
  | case2 => simp at hwhole
  | case3 => simp at hwhole
  | case4 word c rest hc ih =>
      rw [List.cons_append, scan, if_pos hc]
      refine ih hwhole h.tail fun hrest => ?_
      -- the text would end within a word
      have hlast := h c (by simp [hrest])
      rw [hc] at hlast
      cases hlast
  | _ => simp_all [scan, h.tail, Mode.pending]

theorem lex_append {before after : List Char} (hwhole : .broken ∉ lex before)
    (h : Apart before after) : lex (before ++ after) = lex before ++ lex after := by
  rcases h with hcloses | hopens
  · exact scan_append_of_closesApart hwhole hcloses fun _ => rfl
  · exact scan_append_of_opensApart hwhole hopens

theorem opensApart_cons {c : Char} {rest : List Char} (h : continuesIdentifier c = false) :
    OpensApart (c :: rest) := by
  rintro _ ⟨⟩
  exact h

theorem closesApart_concat {before : List Char} {c : Char} (h : continuesIdentifier c = false) :
    ClosesApart (before ++ [c]) := by
  intro last hlast
  rw [List.getLast?_concat] at hlast
  cases hlast
  exact h

/-- Nothing that is read crosses the end of a line. -/
theorem scan_append_endsLine {mode : Mode} {before after : List Char} {c : Char}
    (h : endsLine c = true) : scan mode (before ++ c :: after) = scan mode before ++ lex after := by
  have hword : continuesIdentifier c = false ∧ isQuote c = false := by
    simp only [endsLine, Bool.or_eq_true, beq_iff_eq] at h
    rcases h with rfl | rfl <;> decide
  fun_induction scan mode before with
  | case1 word => simp [scan, hword, isSpace, h, lex]
  | case2 => simp [scan, h, lex]
  | case3 => simp [scan, h, lex]
  | _ => simp_all [scan]

/-! ## Words -/

theorem scan_of_forall_continues {word text : List Char}
    (h : ∀ c ∈ text, continuesIdentifier c = true) :
    scan (.outside word) text = wordToken (word ++ text) := by
  induction text generalizing word with
  | nil => simp [scan]
  | cons c rest ih =>
      rw [scan, if_pos (h c List.mem_cons_self),
        ih fun next hnext => h next (List.mem_cons_of_mem _ hnext), List.append_assoc,
        List.singleton_append]

theorem lex_of_forall_continues {text : List Char}
    (h : ∀ c ∈ text, continuesIdentifier c = true) : lex text = wordToken text :=
  scan_of_forall_continues h

theorem forall_continues_of_isIdentifier {name : String} (h : isIdentifier name = true) :
    ∀ c ∈ name.toList, continuesIdentifier c = true := by
  unfold isIdentifier at h
  split at h
  · cases h
  · next first rest hchars =>
      rw [Bool.and_eq_true, List.all_eq_true] at h
      rw [hchars]
      refine List.forall_mem_cons.mpr ⟨?_, h.2⟩
      rw [continuesIdentifier, h.1, Bool.true_or]

/-- An identifier is a single word. -/
theorem lex_of_isIdentifier {name : String} (h : isIdentifier name = true) :
    lex name.toList = [.word name.toList] := by
  rw [lex_of_forall_continues (forall_continues_of_isIdentifier h)]
  cases hchars : name.toList with
  | nil => simp [isIdentifier, hchars] at h
  | cons => rfl

theorem isIdentifier_append {name suffix : String} (h : isIdentifier name = true)
    (hsuffix : suffix.toList.all continuesIdentifier = true) :
    isIdentifier (name ++ suffix) = true := by
  unfold isIdentifier at h ⊢
  rw [String.toList_append]
  cases hchars : name.toList with
  | nil => simp [hchars] at h
  | cons first rest =>
      rw [hchars, Bool.and_eq_true] at h
      rw [List.cons_append, Bool.and_eq_true, List.all_append, Bool.and_eq_true]
      exact ⟨h.1, h.2, hsuffix⟩

/-- The identifier that a token is, if it is one. -/
def Token.identifier? : Token → Option String
  | .word chars => if isIdentifier (String.ofList chars) then some (String.ofList chars) else none
  | _ => none

/-- The identifiers of a text.  What stands within literals is not among them. -/
def identifiers (text : String) : List String := (lex text.toList).filterMap Token.identifier?

theorem mem_identifiers_iff {text name : String} :
    name ∈ identifiers text ↔ isIdentifier name = true ∧ .word name.toList ∈ lex text.toList := by
  rw [identifiers, List.mem_filterMap]
  constructor
  · rintro ⟨token, htoken, hname⟩
    cases token with
    | word word =>
        simp only [Token.identifier?] at hname
        split at hname
        · next hword =>
            obtain rfl := Option.some.inj hname
            rw [String.toList_ofList]
            exact ⟨hword, htoken⟩
        · cases hname
    | _ => cases hname
  · rintro ⟨hname, hword⟩
    refine ⟨_, hword, ?_⟩
    rw [Token.identifier?, String.ofList_toList, if_pos hname]

/-- The characters of a word stand in the text. -/
theorem mem_of_word_mem_scan {mode : Mode} {text word : List Char}
    (h : .word word ∈ scan mode text) : ∀ c ∈ word, c ∈ mode.pending ∨ c ∈ text := by
  have hword {pending : List Char} (hmem : .word word ∈ wordToken pending) : word = pending := by
    unfold wordToken at hmem
    split at hmem <;> simp_all
  fun_induction scan mode text with
  | case1 pending =>
      obtain rfl := hword h
      exact fun c hc => Or.inl hc
  | _ => grind [Mode.pending]

theorem mem_of_word_mem_lex {text word : List Char} (h : .word word ∈ lex text) :
    ∀ c ∈ word, c ∈ text := by
  intro c hc
  exact (mem_of_word_mem_scan h c hc).resolve_left List.not_mem_nil

/-- Without quotes there is no literal. -/
theorem broken_notMem_lex {text : List Char} (h : ∀ c ∈ text, isQuote c = false) :
    .broken ∉ lex text := by
  have hscan (word : List Char) : .broken ∉ scan (.outside word) text := by
    induction text generalizing word with
    | nil =>
        unfold scan wordToken
        split <;> simp
    | cons c rest ih =>
        have hc := h c List.mem_cons_self
        have hrest := ih fun next hnext => h next (List.mem_cons_of_mem _ hnext)
        have hword : .broken ∉ wordToken word := by
          unfold wordToken
          split <;> simp
        rw [scan, hc, if_neg Bool.false_ne_true]
        split
        · exact hrest _
        · split <;> simp [hword, hrest]
  exact hscan []

/-! ## Literals -/

/-- A character that stands for itself in a literal. -/
def StandsForItself (delimiter c : Char) : Prop := c ≠ delimiter ∧ c ≠ '\\' ∧ endsLine c = false

/-- Characters of words do. -/
theorem standsForItself_of_continues {delimiter c : Char} (hquote : isQuote delimiter = true)
    (hc : continuesIdentifier c = true) : StandsForItself delimiter c := by
  have hne {other : Char} (hother : continuesIdentifier other = false) : c ≠ other := by
    rintro rfl
    rw [hother] at hc
    cases hc
  refine ⟨hne ?_, hne (by decide), ?_⟩
  · simp only [isQuote, Bool.or_eq_true, beq_iff_eq] at hquote
    rcases hquote with rfl | rfl <;> decide
  · rw [endsLine, Bool.or_eq_false_iff, beq_eq_false_iff_ne, beq_eq_false_iff_ne]
    exact ⟨hne (by decide), hne (by decide)⟩

theorem continues_of_mem_hex4 {n : Nat} {c : Char} (h : c ∈ Text.hex4 n) :
    continuesIdentifier c = true :=
  @Text.forall_mem_hex4 (continuesIdentifier · = true) (by decide) n c h

/-- Whether a piece of text leaves a literal open and is read as it stands. -/
def StaysWithin (delimiter : Char) (piece : List Char) : Prop :=
  ∀ content rest, scan (.within delimiter content) (piece ++ rest) =
    scan (.within delimiter (content ++ piece)) rest

variable {delimiter : Char}

theorem staysWithin_of_forall {piece : List Char} (h : ∀ c ∈ piece, StandsForItself delimiter c) :
    StaysWithin delimiter piece := by
  intro content rest
  induction piece generalizing content with
  | nil => simp
  | cons c others ih =>
      obtain ⟨hquote, hback, hline⟩ := h c List.mem_cons_self
      rw [List.cons_append, scan, hline, if_neg Bool.false_ne_true, if_neg hquote, if_neg hback,
        ih fun next hnext => h next (List.mem_cons_of_mem _ hnext), List.append_assoc,
        List.singleton_append]

theorem staysWithin_singleton {c : Char} (hquote : c ≠ delimiter) (hback : c ≠ '\\')
    (hfeed : c ≠ '\n') (hreturn : c ≠ '\r') : StaysWithin delimiter [c] := by
  have hline : endsLine c = false := by
    rw [endsLine, Bool.or_eq_false_iff, beq_eq_false_iff_ne, beq_eq_false_iff_ne]
    exact ⟨hfeed, hreturn⟩
  refine staysWithin_of_forall fun d hd => ?_
  obtain rfl := List.mem_singleton.mp hd
  exact ⟨hquote, hback, hline⟩

theorem StaysWithin.append {piece others : List Char} (hpiece : StaysWithin delimiter piece)
    (hothers : StaysWithin delimiter others) : StaysWithin delimiter (piece ++ others) := by
  intro content rest
  rw [List.append_assoc, hpiece, hothers, List.append_assoc]

theorem StaysWithin.flatMap {α : Type} {pieceOf : α → List Char} {list : List α}
    (h : ∀ x ∈ list, StaysWithin delimiter (pieceOf x)) :
    StaysWithin delimiter (list.flatMap pieceOf) := by
  induction list with
  | nil => exact fun content rest => by simp
  | cons x others ih =>
      rw [List.flatMap_cons]
      exact (h x List.mem_cons_self).append (ih fun y hy => h y (List.mem_cons_of_mem _ hy))

/-- A backslash takes the next character into the literal. -/
theorem staysWithin_backslash {c : Char} (hquote : isQuote delimiter = true)
    (hc : endsLine c = false) : StaysWithin delimiter ['\\', c] := by
  intro content rest
  have hne : '\\' ≠ delimiter := by
    rintro rfl
    cases hquote
  rw [List.cons_append, List.singleton_append, scan, if_neg (by decide), if_neg hne, if_pos rfl,
    scan, hc, if_neg Bool.false_ne_true, List.append_assoc, List.singleton_append]

theorem staysWithin_unit (hquote : isQuote delimiter = true) (n : Nat) :
    StaysWithin delimiter ('\\' :: 'u' :: Text.hex4 n) := by
  have hdigits : StaysWithin delimiter (Text.hex4 n) := staysWithin_of_forall fun c hc =>
    standsForItself_of_continues hquote (continues_of_mem_hex4 hc)
  exact (staysWithin_backslash hquote (by decide)).append hdigits

/-- A literal is one token if nothing in it ends it. -/
theorem lex_literal {content : List Char} (hquote : isQuote delimiter = true)
    (h : StaysWithin delimiter content) :
    lex (delimiter :: (content ++ [delimiter])) = [.literal delimiter content] := by
  have hword : continuesIdentifier delimiter = false ∧ endsLine delimiter = false := by
    simp only [isQuote, Bool.or_eq_true, beq_iff_eq] at hquote
    rcases hquote with rfl | rfl <;> decide
  rw [lex, scan, hword.1, if_neg Bool.false_ne_true, if_pos hquote, h, scan, hword.2,
    if_neg Bool.false_ne_true, if_pos rfl]
  simp [scan, wordToken]

theorem staysWithin_escape (c : Char) : StaysWithin '\'' (escape c) := by
  unfold escape
  split
  · exact staysWithin_backslash (by decide) (by decide)
  · exact staysWithin_backslash (by decide) (by decide)
  · exact staysWithin_backslash (by decide) (by decide)
  · exact staysWithin_backslash (by decide) (by decide)
  · exact staysWithin_backslash (by decide) (by decide)
  · next hback hquote hfeed hreturn _ =>
      split
      · exact staysWithin_unit (by decide) _
      · exact staysWithin_singleton hquote hback hfeed hreturn

/-- A text in single quotes is one token. -/
theorem lex_quote (text : String) :
    lex (quote text).toList = [.literal '\'' (text.toList.flatMap escape)] := by
  rw [Code.quote, String.toList_ofList]
  exact lex_literal (by decide) (StaysWithin.flatMap fun c _ => staysWithin_escape c)

theorem staysWithin_json_escape (c : Char) : StaysWithin '"' (Json.escape c) := by
  unfold Json.escape
  split
  · exact staysWithin_backslash (by decide) (by decide)
  · exact staysWithin_backslash (by decide) (by decide)
  · exact staysWithin_backslash (by decide) (by decide)
  · exact staysWithin_backslash (by decide) (by decide)
  · exact staysWithin_backslash (by decide) (by decide)
  · exact staysWithin_backslash (by decide) (by decide)
  · exact staysWithin_backslash (by decide) (by decide)
  · next hquote hback _ _ hfeed hreturn _ =>
      split
      · exact staysWithin_unit (by decide) _
      · exact staysWithin_singleton hquote hback hfeed hreturn

/-- A JSON string is one token. -/
theorem lex_json_quote (text : String) :
    lex (Json.quote text) = [.literal '"' (text.toList.flatMap Json.escape)] :=
  lex_literal (by decide) (StaysWithin.flatMap fun c _ => staysWithin_json_escape c)

end ValidatorGen.Code
