import ValidatorGen.Json.Writer
import ValidatorGen.Proofs.Json.Numeral

/-!
# Arrays and objects are read as they are written

The elements of an array and the members of an object are written with commas between them
(`listed`), and a reader that takes each of them takes them all: `takes_elements` and
`takes_members`.  What a reader of members keeps from one member to the next is left open:
`Gathers` follows it from the state before the first member to the one after the last.

Both readers count steps, as many as there are characters.  That is enough because every piece has
a character at least (`length_le_length_further`).
-/

namespace ValidatorGen.Json

variable {α β : Type}

/-! ## Pieces with commas between them -/

/-- The pieces that follow the first one, each behind a comma. -/
def further (piece : α → List Char) (list : List α) : List Char :=
  list.flatMap fun x => ',' :: piece x

/-- Pieces with commas between them. -/
def listed (piece : α → List Char) : List α → List Char
  | [] => []
  | x :: rest => piece x ++ further piece rest

theorem further_cons (piece : α → List Char) (x : α) (rest : List α) :
    further piece (x :: rest) = ',' :: listed piece (x :: rest) :=
  List.flatMap_cons

theorem listed_cons_cons (piece : α → List Char) (x next : α) (rest : List α) :
    listed piece (x :: next :: rest) = piece x ++ ',' :: listed piece (next :: rest) := by
  rw [listed, further_cons]

/-- The characters of a member. -/
def memberPiece (member : String × Json) : List Char := quote member.1 ++ ':' :: member.2.chars

theorem itemChars_eq_listed (items : List Json) : itemChars items = listed chars items := by
  induction items with
  | nil => rfl
  | cons item items ih =>
      cases items with
      | nil => exact (List.append_nil _).symm
      | cons next items => rw [itemChars, ih, listed_cons_cons]; exact List.cons_ne_nil _ _

theorem memberChars_eq_listed (members : List (String × Json)) :
    memberChars members = listed memberPiece members := by
  induction members with
  | nil => rfl
  | cons member members ih =>
      cases members with
      | nil => exact (List.append_nil _).symm
      | cons next members =>
          rw [memberChars, ih, listed_cons_cons, memberPiece, List.append_assoc, List.cons_append]
          exact List.cons_ne_nil _ _

theorem length_le_length_further (piece : α → List Char) (list : List α) :
    list.length ≤ (further piece list).length := by
  induction list with
  | nil => exact Nat.le_refl 0
  | cons x rest ih =>
      rw [further_cons, listed, List.length_cons, List.length_cons, List.length_append]
      omega

namespace Reader

/-- A value within an array or object is followed by a comma or by the bracket. -/
theorem endsNumber_further {c : Char} (hc : c = ']' ∨ c = '\x7d') (piece : α → List Char)
    (list : List α) (rest : List Char) : EndsNumber (further piece list ++ c :: rest) := by
  cases list with
  | nil =>
      intro d hd
      obtain rfl := Option.some.inj hd
      rcases hc with rfl | rfl <;> decide
  | cons x list =>
      intro d hd
      obtain rfl := Option.some.inj hd
      decide

/-! ## Arrays -/

/-- The first character of an element. -/
def OpensElement (text : List Char) : Prop :=
  ∃ c more, text = c :: more ∧ isBlank c = false ∧ c ≠ ']'

theorem takes_closeArray (rest : List Char) : Takes closeArray (']' :: rest) () rest :=
  takes_bind (takes_peekToken rfl rest) (takes_advance ']' rest)

theorem takes_hasElement_none (first : Bool) (rest : List Char) :
    Takes (hasElement first) (']' :: rest) false (']' :: rest) :=
  takes_bind (takes_peekToken rfl rest) (takes_pure false _)

theorem takes_hasElement_first {text : List Char} (h : OpensElement text) :
    Takes (hasElement true) text true text := by
  obtain ⟨c, more, rfl, hblank, hclose⟩ := h
  refine takes_bind (takes_peekToken hblank more) ?_
  split
  · next h => cases h
  · next h => exact absurd (Option.some.inj h) hclose
  · exact takes_pure true _

theorem takes_hasElement_next {text : List Char} (h : OpensElement text) :
    Takes (hasElement false) (',' :: text) true text := by
  obtain ⟨c, more, rfl, hblank, hclose⟩ := h
  refine takes_bind (takes_peekToken rfl _) (takes_bind (takes_advance ',' _) ?_)
  refine takes_bind (takes_peekToken hblank more) ?_
  split
  · next h => exact absurd (Option.some.inj h) hclose
  · exact takes_pure true _
  · next h => cases h

variable {element : Reader α} {piece : β → List Char} {value : β → α} {list : List β}

/-- The elements behind the first one, each behind a comma. -/
theorem takes_elementsFrom_further {steps index : Nat} (hindex : index ≠ 0)
    (hsteps : list.length < steps) (hopens : ∀ x ∈ list, ∀ rest, OpensElement (piece x ++ rest))
    (htakes : ∀ x ∈ list, ∀ rest, EndsNumber rest → Takes element (piece x ++ rest) (value x) rest)
    (rest : List Char) :
    Takes (elementsFrom element steps index) (further piece list ++ ']' :: rest) (list.map value)
      (']' :: rest) := by
  induction list generalizing steps index with
  | nil =>
      cases steps with
      | zero => exact absurd hsteps (Nat.lt_irrefl 0)
      | succ steps => exact takes_bind (takes_hasElement_none _ rest) (takes_pure [] _)
  | cons x list ih =>
      cases steps with
      | zero => exact absurd hsteps (Nat.not_lt_zero _)
      | succ steps =>
          rw [List.forall_mem_cons] at hopens htakes
          have hfirst : (index == 0) = false := beq_eq_false_iff_ne.mpr hindex
          have hends := endsNumber_further (Or.inl rfl) piece list rest
          rw [elementsFrom, hfirst, further_cons, listed, List.cons_append, List.append_assoc]
          refine takes_bind (takes_hasElement_next (hopens.1 _)) ?_
          refine takes_bind (takes_located (htakes.1 _ hends)) ?_
          refine takes_bind ?_ (takes_pure _ _)
          exact ih (Nat.succ_ne_zero index) (Nat.succ_lt_succ_iff.mp hsteps) hopens.2 htakes.2

/-- A reader that takes each element takes the array, from behind its opening bracket. -/
theorem takes_elements (hopens : ∀ x ∈ list, ∀ rest, OpensElement (piece x ++ rest))
    (htakes : ∀ x ∈ list, ∀ rest, EndsNumber rest → Takes element (piece x ++ rest) (value x) rest)
    (rest : List Char) :
    Takes (elements element) (listed piece list ++ ']' :: rest) (list.map value) rest := by
  refine takes_within (takes_get_bind fun p => ?_) (takes_closeArray rest)
  cases list with
  | nil => exact takes_bind (takes_hasElement_none true rest) (takes_pure [] _)
  | cons x list =>
      rw [List.forall_mem_cons] at hopens htakes
      have hends := endsNumber_further (Or.inl rfl) piece list rest
      rw [elementsFrom, listed, List.append_assoc]
      refine takes_bind (takes_hasElement_first (hopens.1 _)) ?_
      refine takes_bind (takes_located (htakes.1 _ hends)) ?_
      refine takes_bind ?_ (takes_pure _ _)
      -- the steps are as many as characters, which are more than elements
      refine takes_elementsFrom_further (Nat.succ_ne_zero 0) ?_ hopens.2 htakes.2 rest
      have hlength := length_le_length_further piece list
      simp only [List.length_append, List.length_cons]
      omega

/-! ## Objects -/

theorem takes_closeObject (rest : List Char) : Takes closeObject ('\x7d' :: rest) () rest :=
  takes_bind (takes_peekToken rfl rest) (takes_advance '\x7d' rest)

theorem takes_memberName?_none (first : Bool) (rest : List Char) :
    Takes (memberName? first) ('\x7d' :: rest) none ('\x7d' :: rest) :=
  takes_located (takes_bind (takes_peekToken rfl rest) (takes_pure none _))

/-- A name in quotes is read behind its opening quote. -/
theorem takes_name (name : String) (rest : List Char) :
    Takes (do advance; return some (← stringTail)) (quote name ++ rest) (some name) rest := by
  rw [quote, List.cons_append, List.append_assoc]
  exact takes_bind (takes_advance '"' _)
    (takes_bind (takes_stringTail name rest) (takes_pure (some name) rest))

theorem takes_memberName?_first (name : String) (rest : List Char) :
    Takes (memberName? true) (quote name ++ rest) (some name) rest :=
  takes_located (takes_bind (takes_peekToken rfl _) (takes_name name rest))

theorem takes_memberName?_next (name : String) (rest : List Char) :
    Takes (memberName? false) (',' :: (quote name ++ rest)) (some name) rest :=
  takes_located <| takes_bind (takes_peekToken rfl _) <| takes_bind (takes_advance ',' _) <|
    takes_bind (takes_peekToken rfl _) (takes_name name rest)

theorem takes_memberValue {name : String} {reader : Reader α} {before after : List Char} {value : α}
    (h : Takes reader before value after) :
    Takes (memberValue name reader) (':' :: before) value after :=
  takes_bind (takes_bind (takes_peekToken rfl before) (takes_advance ':' before)) (takes_located h)

/-- Members take a state to another one, each by the reader of its name. -/
inductive Gathers (member : β → String → Reader β) : β → List (String × Json) → β → Prop where
  | nil (state : β) : Gathers member state [] state
  | cons {state next final : β} {name : String} {value : Json} {rest : List (String × Json)} :
      (∀ text, EndsNumber text →
        Takes (member state name) (':' :: (value.chars ++ text)) next text) →
      Gathers member next rest final → Gathers member state ((name, value) :: rest) final

variable {member : β → String → Reader β} {state final : β} {list : List (String × Json)}

/-- The members behind the first one, each behind a comma. -/
theorem takes_membersFrom_further (h : Gathers member state list final) {steps : Nat}
    (hsteps : list.length < steps) (rest : List Char) :
    Takes (membersFrom member steps false state) (further memberPiece list ++ '\x7d' :: rest) final
      ('\x7d' :: rest) := by
  induction h generalizing steps with
  | nil state =>
      cases steps with
      | zero => exact absurd hsteps (Nat.lt_irrefl 0)
      | succ steps => exact takes_bind (takes_memberName?_none false rest) (takes_pure state _)
  | @cons state next final name value list hmember _ ih =>
      cases steps with
      | zero => exact absurd hsteps (Nat.not_lt_zero _)
      | succ steps =>
          have hends := endsNumber_further (Or.inr rfl) memberPiece list rest
          rw [membersFrom, further_cons, listed, memberPiece, List.cons_append, List.append_assoc,
            List.append_assoc, List.cons_append]
          refine takes_bind (takes_memberName?_next name _) (takes_bind (hmember _ hends) ?_)
          exact ih (Nat.succ_lt_succ_iff.mp hsteps)

/-- Members are gathered from behind the opening bracket of their object. -/
theorem takes_members (h : Gathers member state list final) (rest : List Char) :
    Takes (members member state) (listed memberPiece list ++ '\x7d' :: rest) final
      ('\x7d' :: rest) := by
  refine takes_get_bind fun p => ?_
  cases h with
  | nil => exact takes_bind (takes_memberName?_none true rest) (takes_pure state _)
  | @cons _ next _ name value list hmember h =>
      have hends := endsNumber_further (Or.inr rfl) memberPiece list rest
      have hlength := length_le_length_further memberPiece list
      rw [membersFrom, listed, memberPiece, List.append_assoc, List.append_assoc, List.cons_append]
      refine takes_bind (takes_memberName?_first name _) (takes_bind (hmember _ hends) ?_)
      -- the steps are as many as characters, which are more than members
      refine takes_membersFrom_further h ?_ rest
      simp only [List.length_append, List.length_cons]
      omega

end Reader

end ValidatorGen.Json
