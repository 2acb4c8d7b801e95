import CodeOutline.Text.Basic
import CodeOutline.Token
import CodeOutline.Traced

/-!
# Skeletons

The stub of a class or interface with the public constants and methods of an
outlined one. It is a list of edits, each of which writes whole lines after those
of the edit before. A class has methods that throw; an interface has signatures.
-/

namespace CodeOutline

/-- Text for a range of a document, with its line break. -/
structure TextEdit where
  range : Range
  text : String
deriving Repr, DecidableEq

namespace Skeleton

/-- One level of indentation. -/
def indent : String := "    "

/-- The edit that writes a block of lines from a line on. -/
def editAt (line : Nat) (block : String) : TextEdit :=
  let lines := block.toList.splitOn '\n'
  ⟨⟨⟨line, 0⟩, ⟨(line + lines.length : Int) - 1, (lines.getLastD []).length⟩⟩, block ++ "\n"⟩

/-- The edits that write blocks one after another from a line on. -/
def layout : Nat → List String → List TextEdit
  | _, [] => []
  | line, block :: rest =>
      editAt line block :: layout (line + (block.toList.splitOn '\n').length) rest

/-- The public ones among the constants of an entity: those it names, else its
static read-only properties. -/
def constants (t : EntityToken) : List PropertyToken :=
  let candidates :=
    match t.constants with
    | some cs => cs
    | none => (t.properties.getD []).filter fun p => p.isStatic && p.isReadonly
  candidates.filter (·.visibility = "public")

/-- The public methods of an entity. -/
def methods (t : EntityToken) : List MethodToken :=
  (t.methods.getD []).filter (·.visibility = "public")

/-- A name without the marker before it. -/
def unmarked (marker name : String) : String :=
  if marker.toList.isPrefixOf name.toList then
    String.ofList (name.toList.drop marker.toList.length)
  else name

/-- A value after an equals sign, if there is one. -/
def assigned (value : String) : String :=
  if value = "" then "" else " = " ++ value

/-- The line of a constant. -/
def constantLine (marker : String) (c : PropertyToken) : String :=
  "public static readonly " ++ unmarked marker c.name ++ assigned c.value ++ ";"

/-- An argument with its type and default value. -/
def argument (a : VariableToken) : String :=
  a.name ++ ": " ++ a.type ++ assigned a.value

/-- The type that a method returns, after a colon. One that says nothing is left
off. -/
def returned (type : Option String) : String :=
  match type with
  | none => ""
  | some text => if text = "" ∨ text = "mixed" then "" else ": " ++ text

/-- The signature of a method. -/
def signature (m : MethodToken) : String :=
  "public " ++ m.name ++ "(" ++ ", ".intercalate (m.arguments.map argument) ++ ")"
    ++ returned m.type

/-- The lines of a method that throws. -/
def throwingBody : String :=
  "\n" ++ indent ++ "\x7b\n" ++ indent ++ indent ++ "throw new Error(\"Not implemented\");\n"
    ++ indent ++ "\x7d"

/-- The blocks of methods. Those with bodies have a blank line between them. -/
def methodBlocks (withBodies : Bool) (ms : List MethodToken) : List String :=
  if withBodies then
    (ms.map fun m => indent ++ signature m ++ throwingBody).intersperse ""
  else ms.map fun m => indent ++ signature m ++ ";"

/-- The blocks of lines of a stub called `name`. -/
def blocks (name : String) (t : EntityToken) (withBodies : Bool) (marker : String) : List String :=
  let cs := (constants t).map fun c => indent ++ constantLine marker c
  let ms := methodBlocks withBodies (methods t)
  let gap := if cs.isEmpty || ms.isEmpty then [] else [""]
  ["export " ++ (if withBodies then "class" else "interface") ++ " " ++ name ++ " \x7b"]
    ++ cs ++ gap ++ ms ++ ["\x7d"]

/-- The edits that write a stub called `name`. -/
def generate (name : String) (t : EntityToken) (withBodies : Bool) (config : Config) :
    List TextEdit :=
  layout 0 (blocks name t withBodies config.marker)

/-- The text that edits write. -/
def render (edits : List TextEdit) : String :=
  String.ofList (edits.flatMap (·.text.toList))

/-- The extensions that generated documents may have. -/
def extensions : List String := ["js", "ts"]

/-- The name of the document for a stub: classes have the extension asked for,
interfaces a letter before their name. -/
def documentName (name : String) (withBodies : Bool) (extension : String) :
    Except Fault String :=
  if !extensions.contains extension then .error (.unsupportedExtension extension)
  else if withBodies then .ok (name ++ "." ++ extension)
  else .ok ("I" ++ name ++ ".ts")

end Skeleton

end CodeOutline
