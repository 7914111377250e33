import ValidatorGen.Json.Decoder
import ValidatorGen.Schema.Decode

/-!
# Reading schemas from text

The text of a schema is first read as plain JSON, save for the kind of the outermost schema, which
is read as a name at once. The parts are read from that JSON, so a fault in them has neither a path
nor a place of its own. Fields, variants and modules around a schema are records and tables.
-/

namespace ValidatorGen.Schema

open Json Reader

/-- A name that stands where the kind is expected. -/
def readKind : Reader Kind := do
  match ← peekToken with
  | none => stopNext .endInValue
  | some '"' =>
    advance
    let name ← stringTail
    placed (match Kind.ofName name with
      | .ok kind => pure kind
      | .error cause => stop cause)
  | some c => mismatch "variant identifier" c

/-- Reads a member of the outermost schema: the kind, or some part as plain JSON. The parts are
gathered last first. -/
def readMember (levels : Nat) (found : Option Kind × List (String × Json)) (name : String) :
    Reader (Option Kind × List (String × Json)) :=
  if name = kindMember then
    if found.1.isSome then stop (.duplicate kindMember)
    else do return (some (← memberValue name readKind), found.2)
  else do return (found.1, (name, ← memberValue name (tree levels)) :: found.2)

/-- The outcome of reading parts, which has no place. -/
def lift {α : Type} : Except Cause α → Reader α
  | .ok value => pure value
  | .error cause => stop cause

def read (levels : Nat) : Reader Schema := do
  match ← peekToken with
  | none => stopNext .endInValue
  | some '\x7b' =>
    let (kind, parts) ← opening levels fun levels => within closeObject do
      let (kind, parts) ← members (readMember levels) (none, [])
      match kind with
      | none => stop (.missing kindMember)
      | some kind => return (kind, parts.reverse)
    lift (ofMembers kind parts)
  | some '[' =>
    let (kind, items) ← opening levels fun levels => within closeArray do
      if ← hasElement true then
        let kind ← located (.element 0) readKind
        let items ← elementsFrom (tree levels) ((← get).rest.length + 1) 1
        return (kind, items)
      else stop (.missing kindMember)
    lift (ofItems kind items)
  | some c => mismatch expected c

def decoder : Decoder Schema := ⟨read, ofJson⟩

/-- A type, whose faults have neither a path nor a place. -/
def flowTypeDecoder : Decoder FlowType where
  ofText levels := do lift (FlowType.decode (← tree levels))
  ofJson json := Fault.atRoot (FlowType.decode json)

/-- The parts of a field or a variant. -/
abbrev NamedParts := Option String × Option Schema

/-- A record of a name, under `label`, and a schema. -/
def namedRecord (title label : String) : Decoder.Record NamedParts (String × Schema) where
  title := title
  slots := [
    ⟨label, (·.1.isSome), Decoder.text.map fun name parts => (some name, parts.2)⟩,
    ⟨"de", (·.2.isSome), decoder.map fun schema parts => (parts.1, some schema)⟩]
  empty := (none, none)
  build parts := do
    let name ← Decoder.require label parts.1
    let schema ← Decoder.require "de" parts.2
    return (name, schema)

def fieldDecoder : Decoder (String × Schema) := .record (namedRecord Pattern.field.title "name")

def variantDecoder : Decoder (String × Schema) := .record (namedRecord Pattern.variant.title "key")

/-- A module: schemas under their names. -/
def moduleDecoder : Decoder (Table Schema) := .table decoder

end ValidatorGen.Schema
