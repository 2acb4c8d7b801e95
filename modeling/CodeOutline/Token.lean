import CodeOutline.Document
import CodeOutline.Json.Basic

/-!
# Tokens

The entries of an outline: what is shown of a variable, method, property, class,
interface or import. As records they are JSON objects with a field for each
part, null where the part is not set.
-/

namespace CodeOutline

/-! ## Configuration

The marker that stands before the names of read-only properties and constant
variables. -/

/-- What a request can be told. -/
structure Config where
  marker : String := "@"
deriving Repr, DecidableEq

/-- The configuration that an environment asks for. No marker, or an empty one,
asks for the default. -/
def Config.ofEnv (marker : Option String) : Config :=
  match marker with
  | some text => if text.isEmpty then {} else ⟨text⟩
  | none => {}

/-- A configuration of one's own, or else the one that the environment asks for. -/
def Config.orEnv (own : Option Config) (marker : Option String) : Config :=
  own.getD (.ofEnv marker)

/-! ## What is shown -/

/-- A variable of the top level, or an argument, which has no position. -/
structure VariableToken where
  name : String
  type : String := "any"
  /-- The default value, empty if there is none. -/
  value : String := ""
  visibility : String := "public"
  position : Option Range := none
deriving Repr, DecidableEq

/-- A method, constructor or function. A constructor has no type. -/
structure MethodToken where
  name : String
  type : Option String := some "any"
  visibility : String := "public"
  isStatic : Bool := false
  arguments : List VariableToken := []
  position : Option Range := none
deriving Repr, DecidableEq

/-- A property, whose name starts with the marker if it is read-only. -/
structure PropertyToken where
  name : String
  type : String := "any"
  value : String := ""
  visibility : String := "public"
  isStatic : Bool := false
  isReadonly : Bool := false
  position : Option Range := none
deriving Repr, DecidableEq

/-- A class or an interface. -/
structure EntityToken where
  name : String
  visibility : String := "protected"
  methods : Option (List MethodToken) := some []
  properties : Option (List PropertyToken) := some []
  constants : Option (List PropertyToken) := none
deriving Repr, DecidableEq

/-- An import. -/
structure ImportToken where
  name : String
  position : Option Range
  localName : Option String := none
deriving Repr, DecidableEq

/-- An entry of an outline. -/
inductive Token where
  | ofEntity (token : EntityToken)
  | ofMethod (token : MethodToken)
  | ofVariable (token : VariableToken)
  | ofImport (token : ImportToken)
deriving Repr, DecidableEq

/-- A position as a record. -/
def Position.record (p : Position) : Json :=
  .obj [("line", .int p.line), ("character", .int p.character)]

/-- A range as a record. -/
def Range.record (r : Range) : Json :=
  .obj [("start", r.start.record), ("end", r.stop.record)]

/-- The record of a part that may not be set. -/
def recordOr {α : Type} (record : α → Json) : Option α → Json
  | some part => record part
  | none => .null

/-- A variable or argument as a record. -/
def VariableToken.record (t : VariableToken) : Json :=
  .obj
    [("name", .str t.name), ("type", .str t.type), ("value", .str t.value),
     ("visibility", .str t.visibility), ("position", recordOr Range.record t.position)]

/-- A method as a record. -/
def MethodToken.record (t : MethodToken) : Json :=
  .obj
    [("name", .str t.name), ("type", .ofString? t.type), ("visibility", .str t.visibility),
     ("static", .bool t.isStatic), ("arguments", .arr (t.arguments.map VariableToken.record)),
     ("position", recordOr Range.record t.position)]

/-- A property as a record. -/
def PropertyToken.record (t : PropertyToken) : Json :=
  .obj
    [("name", .str t.name), ("type", .str t.type), ("value", .str t.value),
     ("visibility", .str t.visibility), ("static", .bool t.isStatic),
     ("readonly", .bool t.isReadonly), ("position", recordOr Range.record t.position)]

/-- A class or interface as a record. -/
def EntityToken.record (t : EntityToken) : Json :=
  let properties := recordOr fun (ps : List PropertyToken) => .arr (ps.map PropertyToken.record)
  .obj
    [("name", .str t.name), ("visibility", .str t.visibility),
     ("methods", recordOr (fun ms => .arr (ms.map MethodToken.record)) t.methods),
     ("properties", properties t.properties), ("constants", properties t.constants)]

/-- An import as a record. -/
def ImportToken.record (t : ImportToken) : Json :=
  .obj
    [("name", .str t.name), ("position", recordOr Range.record t.position),
     ("alias", .ofString? t.localName)]

namespace Token

/-- The name of an entry. -/
def name : Token → String
  | .ofEntity t => t.name
  | .ofMethod t => t.name
  | .ofVariable t => t.name
  | .ofImport t => t.name

/-- An entry as a record. -/
def record : Token → Json
  | .ofEntity t => t.record
  | .ofMethod t => t.record
  | .ofVariable t => t.record
  | .ofImport t => t.record

end Token

end CodeOutline
