import ValidatorGen.Json.Skip

/-!
# Typed values in JSON

A `Decoder` reads a typed value either from a text, as it is being read, or from a JSON value.
Both report the path of a fault; a text adds the place. Decoders are built from those of texts,
lists, tables and records.

A record is an object with one member per slot, or an array of the slots' values in their order.
Slots are filled in the order in which members stand; a repeated member is refused, an unknown one
is passed over, and the first absent one, in the order of the slots, is reported at the end.
-/

namespace ValidatorGen.Json

/-- Reads a typed value from a text, given the levels of nesting that are left, or from a JSON
value. -/
structure Decoder (α : Type) where
  ofText : Nat → Reader α
  ofJson : Json → Except Fault α

namespace Decoder

variable {α β σ : Type}

open Reader

def map (f : α → β) (decoder : Decoder α) : Decoder β where
  ofText levels := f <$> decoder.ofText levels
  ofJson json := f <$> decoder.ofJson json

def json : Decoder Json := ⟨Reader.value, .ok⟩

def text : Decoder String where
  ofText _ := do
    match ← peekToken with
    | none => stopNext .endInValue
    | some '"' => advance; stringTail
    | some c => mismatch "a string" c
  ofJson
    | .string text => .ok text
    | json => .error (.ofCause (.mismatch json "a string"))

/-- The elements of a JSON array from an index on. -/
def itemsOfJson (item : Json → Except Fault α) : Nat → List Json → Except Fault (List α)
  | _, [] => .ok []
  | index, json :: rest => do
    let value ← Fault.behind (.element index) (item json)
    let values ← itemsOfJson item (index + 1) rest
    return value :: values

def list (item : Decoder α) : Decoder (List α) where
  ofText levels := do
    match ← peekToken with
    | none => stopNext .endInValue
    | some '[' => opening levels fun levels => elements (item.ofText levels)
    | some c => mismatch "a sequence" c
  ofJson
    | .array items => itemsOfJson item.ofJson 0 items
    | json => .error (.ofCause (.mismatch json "a sequence"))

/-- The members of a JSON object. -/
def membersOfJson (value : Json → Except Fault α) :
    List (String × Json) → Except Fault (List (String × α))
  | [] => .ok []
  | (name, json) :: rest => do
    let head ← Fault.behind (.member name) (value json)
    let tail ← membersOfJson value rest
    return (name, head) :: tail

/-- A table; of a repeated name the last value stands in the place of the first. -/
def table (value : Decoder α) : Decoder (Table α) where
  ofText levels := do
    match ← peekToken with
    | none => stopNext .endInValue
    | some '\x7b' => opening levels fun levels => within closeObject do
      members (fun (table : Table α) name => do
        return table.set name (← memberValue name (value.ofText levels))) []
    | some c => mismatch "a map" c
  ofJson
    | .object members => Table.ofPairs <$> membersOfJson value.ofJson members
    | json => .error (.ofCause (.mismatch json "a map"))

/-! ## Records -/

/-- A member of a record whose parts are gathered in `σ`. -/
structure Slot (σ : Type) where
  name : String
  isFilled : σ → Bool
  value : Decoder (σ → σ)

/-- A record: its slots, and what is made of their content. -/
structure Record (σ α : Type) where
  title : String
  slots : List (Slot σ)
  empty : σ
  build : σ → Except Cause α

namespace Record

/-- The wording for an array that is too short. -/
def wanted (record : Record σ α) : String :=
  record.title ++ " with " ++ elementCount record.slots.length

def slot? (record : Record σ α) (name : String) : Option (Slot σ) :=
  record.slots.find? (·.name == name)

/-- Reads the value of a member, from the colon on. -/
def readMember (record : Record σ α) (levels : Nat) (parts : σ) (name : String) : Reader σ :=
  match record.slot? name with
  | none => do
    memberValue name skip
    return parts
  | some slot =>
    if slot.isFilled parts then stop (.duplicate name)
    else do
      let put ← memberValue name (slot.value.ofText levels)
      return put parts

/-- Reads the elements of an array into the slots. -/
def readElements (record : Record σ α) (levels : Nat) :
    Nat → List (Slot σ) → σ → Reader σ
  | _, [], parts => return parts
  | index, slot :: slots, parts => do
    if ← hasElement (index == 0) then
      let put ← located (.element index) (slot.value.ofText levels)
      record.readElements levels (index + 1) slots (put parts)
    else stop (.length index record.wanted)

/-- What is made of the parts, in a text. -/
def finish (record : Record σ α) (parts : σ) : Reader α :=
  match record.build parts with
  | .ok value => pure value
  | .error cause => stop cause

/-- Fills slots from the members of a JSON object. -/
def membersOfJson (record : Record σ α) : List (String × Json) → σ → Except Fault σ
  | [], parts => .ok parts
  | (name, json) :: rest, parts =>
    match record.slot? name with
    | none => record.membersOfJson rest parts
    | some slot =>
      if slot.isFilled parts then .error (.ofCause (.duplicate name))
      else do
        let put ← Fault.behind (.member name) (slot.value.ofJson json)
        record.membersOfJson rest (put parts)

/-- Fills slots from the elements of a JSON array of `count` elements. -/
def itemsOfJson (record : Record σ α) (count : Nat) :
    Nat → List (Slot σ) → List Json → σ → Except Fault σ
  | _, [], [], parts => .ok parts
  | _, [], _ :: _, _ => .error (.ofCause (.length count "fewer elements in array"))
  | index, _ :: _, [], _ => .error (.ofCause (.length index record.wanted))
  | index, slot :: slots, json :: rest, parts => do
    let put ← Fault.behind (.element index) (slot.value.ofJson json)
    record.itemsOfJson count (index + 1) slots rest (put parts)

end Record

def record (record : Record σ α) : Decoder α where
  ofText levels := do
    match ← peekToken with
    | none => stopNext .endInValue
    | some '[' => opening levels fun levels => within closeArray do
      record.finish (← record.readElements levels 0 record.slots record.empty)
    | some '\x7b' => opening levels fun levels => within closeObject do
      record.finish (← members (record.readMember levels) record.empty)
    | some c => mismatch record.title c
  ofJson
    | .object members => do
      let parts ← record.membersOfJson members record.empty
      Fault.atRoot (record.build parts)
    | .array items => do
      let parts ← record.itemsOfJson items.length 0 record.slots items record.empty
      Fault.atRoot (record.build parts)
    | json => .error (.ofCause (.mismatch json record.title))

/-- The content of a slot that has to be filled. -/
def require (name : String) : Option α → Except Cause α
  | some content => .ok content
  | none => .error (.missing name)

/-- Reads a typed value from the beginning of a text. -/
def read (decoder : Decoder α) (text : String) : Except Fault α := Reader.run decoder.ofText text

end Decoder

end ValidatorGen.Json
