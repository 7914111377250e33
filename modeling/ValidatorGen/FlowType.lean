import ValidatorGen.Code.Quoted
import ValidatorGen.Json.Fault

/-!
# Types in emitted code

A type as it is written in emitted code: a name, a string literal type, or a name applied to
parameters. In JSON a name is a string, a literal is an object with a member `literal`,
and an application is an object with a member `name` and an optional member `params`.
-/

namespace ValidatorGen

/-- A type as it is written in emitted code. -/
inductive FlowType where
  | named (name : String)
  | literal (value : String)
  | applied (name : String) (parameters : List FlowType)
  deriving Inhabited, Repr

namespace FlowType

/-- The name at the head, which a literal does not have. -/
def baseName? : FlowType → Option String
  | .named name => some name
  | .literal _ => none
  | .applied name _ => some name

mutual

def text : FlowType → String
  | .named name => name
  | .literal value => Code.quote value
  | .applied name parameters =>
    if parameters.isEmpty then name
    else name ++ "<" ++ ", ".intercalate (texts parameters) ++ ">"

def texts : List FlowType → List String
  | [] => []
  | parameter :: parameters => parameter.text :: texts parameters

end

mutual

/-- Every name in the type, outermost first. -/
def mentions : FlowType → List String
  | .named name => [name]
  | .literal _ => []
  | .applied name parameters => name :: mentionsOfAll parameters

def mentionsOfAll : List FlowType → List String
  | [] => []
  | parameter :: parameters => parameter.mentions ++ mentionsOfAll parameters

end

/-! ## Induction -/

/-- What holds of a type whenever it holds of its parameters holds of all types. -/
@[elab_as_elim]
theorem induct {motive : FlowType → Prop} (named : ∀ name, motive (.named name))
    (literal : ∀ value, motive (.literal value))
    (applied : ∀ name parameters, (∀ parameter ∈ parameters, motive parameter) →
      motive (.applied name parameters)) (type : FlowType) : motive type :=
  @FlowType.rec motive (fun parameters => ∀ parameter ∈ parameters, motive parameter) named literal
    applied (fun _ hmem => absurd hmem List.not_mem_nil)
    (fun _ _ hhead htail => List.forall_mem_cons.mpr ⟨hhead, htail⟩) type

/-! ## JSON form -/

mutual

def toJson : FlowType → Json
  | .named name => .string name
  | .literal value => .object [("literal", .string value)]
  | .applied name parameters =>
    .object [("name", .string name), ("params", .array (toJsons parameters))]

def toJsons : List FlowType → List Json
  | [] => []
  | parameter :: parameters => parameter.toJson :: toJsons parameters

end

/-- The text of a member that stands once in an object. -/
def soleText? (name : String) (members : List (String × Json)) : Option String :=
  match members.filter (·.1 == name) with
  | [(_, .string text)] => some text
  | _ => none

mutual

/-- Reads a type. An object is a literal if it can be read as one, and else an application;
a repeated member rules a reading out. -/
def ofJson? : Json → Option FlowType
  | .string name => some (.named name)
  | .object members =>
    match soleText? "literal" members with
    | some value => some (.literal value)
    | none => do
      let name ← soleText? "name" members
      let parameters ← parametersOf? members
      return .applied name parameters
  | _ => none

/-- The parameters of an application: none unless its object has a member for them. -/
def parametersOf? : List (String × Json) → Option (List FlowType)
  | [] => some []
  | (name, value) :: rest =>
    if name = "params" then
      if rest.any (·.1 == "params") then none
      else
        match value with
        | .array items => ofJsons? items
        | _ => none
    else parametersOf? rest

def ofJsons? : List Json → Option (List FlowType)
  | [] => some []
  | item :: items => do
    let parameter ← ofJson? item
    let parameters ← ofJsons? items
    return parameter :: parameters

end

/-- Reads a type or tells why not. -/
def decode (json : Json) : Except Json.Cause FlowType :=
  match ofJson? json with
  | some type => .ok type
  | none => .error .noType

end FlowType

end ValidatorGen
