import ValidatorGen.Json.Reader.Container

/-!
# What a reader takes from a text

`Takes reader before value after` says that a reader succeeds with a value and leaves the rest of
the text, wherever in a text it starts.  Places matter to faults only, so they are left open.  The
lemmas below say it of the readers that others are made of; `takes_stringTail` is the first that is
about something written, a string in quotes.
-/

namespace ValidatorGen.Json

variable {α β : Type}

/-- A reader takes a value from the beginning of a text and leaves what comes after. -/
def Takes (reader : Reader α) (before : List Char) (value : α) (after : List Char) : Prop :=
  ∀ p, ∃ q, reader ⟨before, p⟩ = .ok (value, ⟨after, q⟩)

namespace Reader

theorem takes_pure (value : α) (text : List Char) : Takes (pure value) text value text :=
  fun p => ⟨p, rfl⟩

theorem takes_bind {first : Reader α} {next : α → Reader β} {before middle after : List Char}
    {value : α} {result : β} (hfirst : Takes first before value middle)
    (hnext : Takes (next value) middle result after) :
    Takes (first >>= next) before result after := by
  intro p
  obtain ⟨q, hq⟩ := hfirst p
  obtain ⟨r, hr⟩ := hnext q
  refine ⟨r, ?_⟩
  rw [← hr]
  show (first ⟨before, p⟩ >>= fun s => next s.1 s.2) = _
  rw [hq]
  rfl

theorem takes_map {reader : Reader α} {before after : List Char} {value : α} (f : α → β)
    (h : Takes reader before value after) : Takes (f <$> reader) before (f value) after := by
  rw [← bind_pure_comp]
  exact takes_bind h (takes_pure _ _)

/-- What a reader does may depend on how much text there is left. -/
theorem takes_get_bind {next : Cursor → Reader α} {before after : List Char} {value : α}
    (h : ∀ p, Takes (next ⟨before, p⟩) before value after) :
    Takes (get >>= next) before value after :=
  fun p => h p p

theorem takes_located {segment : Segment} {reader : Reader α} {before after : List Char} {value : α}
    (h : Takes reader before value after) : Takes (located segment reader) before value after := by
  intro p
  obtain ⟨q, hq⟩ := h p
  exact ⟨q, by rw [located, hq]⟩

theorem takes_placed {reader : Reader α} {before after : List Char} {value : α}
    (h : Takes reader before value after) : Takes (placed reader) before value after := by
  intro p
  obtain ⟨q, hq⟩ := h p
  exact ⟨q, by rw [placed, hq]⟩

theorem takes_within {close : Reader Unit} {inner : Reader α} {before middle after : List Char}
    {value : α} (hinner : Takes inner before value middle) (hclose : Takes close middle () after) :
    Takes (within close inner) before value after := by
  have hleave : Takes (do close; return value) middle value after :=
    takes_bind hclose (takes_pure value after)
  intro p
  obtain ⟨q, hq⟩ := hinner p
  obtain ⟨r, hr⟩ := hleave q
  exact ⟨r, by rw [within, hq]; exact hr⟩

/-! ## Characters -/

theorem takes_peek (text : List Char) : Takes peek text text.head? text := fun p => ⟨p, rfl⟩

theorem takes_advance (c : Char) (rest : List Char) : Takes advance (c :: rest) () rest :=
  fun p => ⟨p.after c, rfl⟩

theorem takes_peekToken {c : Char} (hc : isBlank c = false) (rest : List Char) :
    Takes peekToken (c :: rest) (some c) (c :: rest) := by
  intro p
  refine ⟨p, ?_⟩
  simp [peekToken, Cursor.dropWhile, Cursor.dropWhile.go, hc]

theorem takes_word (word rest : List Char) : Takes (Reader.word word) (word ++ rest) () rest := by
  induction word with
  | nil => exact takes_pure () rest
  | cons c word ih =>
      refine takes_bind (takes_peek _) ?_
      simp only [List.cons_append, List.head?_cons, if_true]
      exact takes_bind (takes_advance c _) ih

theorem takes_opening {inner : Nat → Reader α} {levels : Nat} {c : Char} {rest after : List Char}
    {value : α} (h : Takes (inner levels) rest value after) :
    Takes (opening (levels + 1) inner) (c :: rest) value after :=
  takes_bind (takes_advance c rest) h

/-! ## Strings -/

theorem exists_chars_hex4 {c : Char} (h : c.toNat < 0x20) (rest : List Char) (p : Position) :
    ∃ q, chars p ('\\' :: 'u' :: (Text.hex4 c.toNat ++ rest)) = consChar c (chars q rest) := by
  obtain ⟨w, x, y, z, hdigits⟩ : ∃ w x y z, Text.hex4 c.toNat = [w, x, y, z] := ⟨_, _, _, _, rfl⟩
  have hread : Text.hex4? w x y z = some c.toNat := Text.hex4?_of_hex4 (by omega) hdigits
  -- a control character is no half of a pair
  have hlow : isLowSurrogate c.toNat = false := by
    simp only [isLowSurrogate, Bool.and_eq_false_iff, decide_eq_false_iff_not]
    omega
  have hhigh : isHighSurrogate c.toNat = false := by
    simp only [isHighSurrogate, Bool.and_eq_false_iff, decide_eq_false_iff_not]
    omega
  refine ⟨((p.after '\\').after 'u').skip 4 (w :: x :: y :: z :: rest), ?_⟩
  rw [hdigits]
  simp [chars, hread, hlow, hhigh, Char.ofNat_toNat]

theorem chars_of_ne {c : Char} (hquote : c ≠ '"') (hslash : c ≠ '\\') (hcontrol : ¬c.toNat < 0x20)
    (rest : List Char) (p : Position) :
    chars p (c :: rest) = consChar c (chars (p.after c) rest) := by
  rw [chars]
  · rw [if_neg hcontrol]
  · exact hquote
  · exact hslash

/-- An escaped character is read as itself. -/
theorem exists_chars_escape (c : Char) (rest : List Char) (p : Position) :
    ∃ q, chars p (escape c ++ rest) = consChar c (chars q rest) := by
  unfold escape
  split
  any_goals exact ⟨_, rfl⟩
  next hquote hslash _ _ _ _ _ =>
    split
    · next hcontrol => exact exists_chars_hex4 hcontrol rest p
    · next hcontrol => exact ⟨p.after c, chars_of_ne hquote hslash hcontrol rest p⟩

theorem exists_chars_flatMap (text rest : List Char) (p : Position) :
    ∃ q, chars p (text.flatMap escape ++ '"' :: rest) = .ok (text, ⟨rest, q⟩) := by
  induction text generalizing p with
  | nil => exact ⟨p.after '"', rfl⟩
  | cons c text ih =>
      obtain ⟨q, hq⟩ := exists_chars_escape c (text.flatMap escape ++ '"' :: rest) p
      obtain ⟨r, hr⟩ := ih q
      exact ⟨r, by rw [List.flatMap_cons, List.append_assoc, hq, hr, consChar]⟩

/-- A text in quotes is read as itself. -/
theorem takes_stringTail (text : String) (rest : List Char) :
    Takes stringTail (text.toList.flatMap escape ++ '"' :: rest) text rest := by
  intro p
  obtain ⟨q, hq⟩ := exists_chars_flatMap text.toList rest p
  refine ⟨q, ?_⟩
  rw [stringTail, hq]
  dsimp only
  rw [String.ofList_toList]

end Reader

end ValidatorGen.Json
