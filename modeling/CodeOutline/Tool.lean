import CodeOutline.Skeleton
import CodeOutline.Workspace

/-!
# Tools

Three tools can be called by name: one outlines a document, one makes a stub of a class or
interface found in a document, and one lists the languages. A call always answers, with
JSON text; whatever goes wrong is the text of an error record.
-/

namespace CodeOutline

/-! ## Descriptions of the tools

What a caller is told of each tool: its name, its purpose and the schema of its
arguments. -/

namespace Tool

/-- What a caller is told of a tool. -/
structure Description where
  name : String
  description : String
  inputSchema : Json

/-- The schema of one argument, with further facts about it. -/
def argumentSchema (name type description : String) (facts : List (String × Json)) :
    String × Json :=
  (name, .obj ([("type", .str type), ("description", .str description)] ++ facts))

/-- The schema of an object of arguments. -/
def objectSchema (arguments : List (String × Json)) (required : List String) : Json :=
  .obj ([("type", .str "object"), ("properties", .obj arguments)]
    ++ if required.isEmpty then [] else [("required", .arr (required.map .str))])

/-- The values that an argument may have. -/
def enumFact (values : List String) : String × Json :=
  ("enum", .arr (values.map .str))

/-- The tool that outlines. -/
def outlineDescription : Description where
  name := "get_outline"
  description :=
    "Get the outline of a TypeScript or JavaScript file: classes, interfaces, functions, "
      ++ "variables and imports with positions."
  inputSchema := objectSchema
    [argumentSchema "path" "string" "Path to the source file (supports ~ for home directory)" [],
     argumentSchema "source" "string" "Inline source text, used instead of path" [],
     argumentSchema "language" "string"
       "Editor language id; inferred from the file extension when omitted"
       [enumFact (Language.all.map (·.id))]]
    []

/-- The tool that makes stubs. -/
def stubDescription : Description where
  name := "generate_skeleton"
  description :=
    "Generate an interface (or a class with stub bodies) exposing the public constants and "
      ++ "methods of a class or interface found in a file."
  inputSchema := objectSchema
    [argumentSchema "entity" "string" "Name of the class or interface to copy members from" [],
     argumentSchema "name" "string" "Name of the generated class or interface" [],
     argumentSchema "path" "string" "Path to the source file holding the entity" [],
     argumentSchema "source" "string" "Inline source text, used instead of path" [],
     argumentSchema "include_bodies" "boolean"
       "Generate a class whose methods throw 'Not implemented' instead of an interface"
       [("default", .bool false)],
     argumentSchema "extension" "string" "File extension for a generated class"
       [enumFact ["ts", "js"], ("default", .str "ts")]]
    ["entity", "name"]

/-- The tool that lists languages. -/
def languagesDescription : Description where
  name := "list_languages"
  description := "List supported languages and file extensions."
  inputSchema := objectSchema [] []

/-- The tools. -/
def descriptions : List Description :=
  [outlineDescription, stubDescription, languagesDescription]

/-! ## Answers of the tools

Each tool answers with a record; what stands in the way of an answer is the one
field of an error record. -/

/-- The answer that says what is wrong. -/
def errorRecord (message : String) : Json :=
  .obj [("error", .str message)]

/-! ### Outlines -/

/-- An answer, and the grammars that were asked for to give it. -/
structure Answer where
  record : Json
  grammars : List String := []

/-- The outline of the source text given, or else of the file at a path. -/
def outline (w : Workspace) (path source language : Json) : Traced Answer := do
  match ← Traced.lift (Draft.load w.lookup path source language) with
  | .error e => pure { record := errorRecord e.message }
  | .ok draft =>
      let id ← Traced.lift (draft.language.textFor "lower")
      if !Language.isSupported id then
        pure { record := errorRecord ("Unsupported language: " ++ id) }
      else do
        let text ← Traced.lift (draft.text.textFor "encode")
        let d : Document := { text, language := id, path := draft.path }
        let o ← w.outline d
        pure { record := .obj [("file", if path.isTruthy then path else .str ""),
                               ("language", .str id), ("outline", o.record)],
               grammars := [Workspace.grammarOf d] }

/-! ### Stubs -/

/-- The class or interface of a name, classes before interfaces. Only text is a
name. -/
def findEntity? (o : Outline) (name : Json) : Option EntityToken :=
  (o.classes.getD [] ++ o.interfaces.getD []).findSome? fun
    | .ofEntity t => if name.isText t.name then some t else none
    | _ => none

/-- What a stub is to be made of, and how. -/
structure StubRequest where
  /-- The name of the class or interface found. -/
  entity : Json
  /-- The name of the stub. -/
  name : Json
  path : Json := .null
  source : Json := .null
  withBodies : Bool := false
  extension : Json := .str "ts"

/-- The name of the document for a stub. -/
def documentName (name : Json) (withBodies : Bool) (extension : Json) : Except Fault String :=
  match extension with
  | .arr _ | .obj _ => .error (.notName extension.typeName)
  | _ => do
      let extension ← extension.display
      let name ← name.display
      Skeleton.documentName name withBodies extension

/-- A position as a pair. -/
def positionPair (p : Position) : Json :=
  .arr [.int p.line, .int p.character]

/-- An edit as a record. -/
def editRecord (e : TextEdit) : Json :=
  .obj [("start", positionPair e.range.start), ("end", positionPair e.range.stop),
        ("text", .str e.text)]

/-- The stub of a name that a class or interface makes, in a document of a name. -/
def stubRecord (w : Workspace) (fileName name : String) (t : EntityToken) (withBodies : Bool) :
    Json :=
  let edits := Skeleton.generate name t withBodies w.config
  .obj [("file_name", .str fileName), ("edits", .arr (edits.map editRecord)),
        ("text", .str (Skeleton.render edits))]

/-- The stub made of a class or interface of an outline. -/
def stubOf (w : Workspace) (r : StubRequest) (o : Outline) : Except Fault Json :=
  match findEntity? o r.entity with
  | none => do
      let entity ← r.entity.display
      pure (errorRecord ("Class or interface not found: " ++ entity))
  | some t =>
      match documentName r.name r.withBodies r.extension with
      | .error (.unsupportedExtension extension) =>
          .ok (errorRecord (Fault.unsupportedExtension extension).message)
      | .error fault => .error fault
      | .ok fileName => do
          let name ← r.name.display
          pure (stubRecord w fileName name t r.withBodies)

/-- The stub made of a class or interface of a document. -/
def stub (w : Workspace) (r : StubRequest) : Traced Json := do
  match ← Traced.lift (Draft.load w.lookup r.path r.source .null) with
  | .error e => pure (errorRecord e.message)
  | .ok draft =>
      let language ← Traced.lift (draft.language.textFor "lower")
      let text ← Traced.lift (draft.text.textFor "encode")
      let o ← w.outline { text, language, path := draft.path }
      Traced.lift (stubOf w r o)

/-! ### Languages -/

/-- A language as a record. -/
def languageRecord (l : Language) : Json :=
  .obj [("language", .str l.id), ("grammar", .str l.grammar),
        ("extensions", .arr (l.suffixes.map .str))]

/-- The languages that can be outlined, and how many they are. -/
def languages : Json :=
  .obj [("count", .int Language.all.length), ("languages", .arr (Language.all.map languageRecord))]

/-! ## Calling tools by name

A tool is called by name with an object of arguments, and its record is written as
JSON. -/

/-- The argument of a name, or null if it is not given. -/
def argumentOrNull (name : String) (arguments : Json) : Except Fault Json :=
  match arguments with
  | .obj _ => .ok ((arguments.field? name).getD .null)
  | value => .error (.noMember value.typeName "get")

/-- The argument of a name, which has to be given. -/
def requiredArgument (name : String) (arguments : Json) : Except Fault Json :=
  match arguments with
  | .obj _ =>
      match arguments.field? name with
      | some value => .ok value
      | none => .error (.missingArgument name)
  | value => .error (.notArguments value.typeName)

/-- What the tool that makes stubs is asked for by an object of arguments. -/
def stubRequest (arguments : Json) : Except Fault StubRequest := do
  let entity ← requiredArgument "entity" arguments
  let name ← requiredArgument "name" arguments
  pure
    { entity, name
      path := (arguments.field? "path").getD .null
      source := (arguments.field? "source").getD .null
      withBodies := ((arguments.field? "include_bodies").getD .null).isTruthy
      extension := (arguments.field? "extension").getD (.str "ts") }

/-- The answer of the tool that outlines to an object of arguments. -/
def callOutline (w : Workspace) (arguments : Json) : Traced Json := do
  let path ← Traced.lift (argumentOrNull "path" arguments)
  let source ← Traced.lift (argumentOrNull "source" arguments)
  let language ← Traced.lift (argumentOrNull "language" arguments)
  let answer ← outline w path source language
  pure answer.record

/-- The answer of the tool that makes stubs to an object of arguments. -/
def callStub (w : Workspace) (arguments : Json) : Traced Json := do
  let request ← Traced.lift (stubRequest arguments)
  stub w request

/-- The answer of the tool of a name to an object of arguments. -/
def dispatch (w : Workspace) (name : String) (arguments : Json) : Traced Json :=
  if name = outlineDescription.name then callOutline w arguments
  else if name = stubDescription.name then callStub w arguments
  else if name = languagesDescription.name then pure languages
  else pure (errorRecord ("Unknown tool: " ++ name))

/-- The record of an answer, or of the fault in its place. -/
def recordOf (answer : Except Fault Json) : Json :=
  match answer with
  | .ok record => record
  | .error fault => errorRecord fault.message

/-- The JSON text with which a call is answered. -/
def call (w : Workspace) (name : String) (arguments : Json) : String :=
  (recordOf (dispatch w name arguments).result).indented

/-- The notes that a call leaves. -/
def callNotes (w : Workspace) (name : String) (arguments : Json) : List Note :=
  (dispatch w name arguments).notes

end Tool

end CodeOutline
