import CodeOutline.Provider

/-!
# Workspaces

What outlines are made in: what is found at the paths of files, the marker that the
environment asks for, and a parser for each grammar. A document is drafted there from a
source text or from a file, in one of the languages there are.
-/

namespace CodeOutline

/-! ## Languages

The languages that can be outlined, the grammar that parses each, and the file
extensions that belong to it. Ids and extensions are matched in any case; they
are ASCII, and no other letter is an upper-case form of one of theirs. -/

/-- A language. -/
structure Language where
  id : String
  grammar : String
  /-- The extension of files that are generated in it. -/
  extension : String
  /-- The endings of its files, ascending. -/
  suffixes : List String
deriving Repr, DecidableEq

namespace Language

/-- TypeScript without markup. -/
def typescript : Language :=
  ⟨"typescript", "typescript", "ts", [".cts", ".mts", ".ts"]⟩

/-- TypeScript with markup. -/
def typescriptreact : Language :=
  ⟨"typescriptreact", "tsx", "tsx", [".tsx"]⟩

/-- JavaScript, which is parsed by the grammar that also takes markup. -/
def javascript : Language :=
  ⟨"javascript", "tsx", "js", [".cjs", ".js", ".mjs"]⟩

/-- JavaScript with markup. -/
def javascriptreact : Language :=
  ⟨"javascriptreact", "tsx", "js", [".jsx"]⟩

/-- The languages that can be outlined. -/
def all : List Language := [typescript, typescriptreact, javascript, javascriptreact]

/-- The language of an id. -/
def find? (id : String) : Option Language :=
  all.find? (·.id = id.toLower)

/-- Whether the language of an id can be outlined. -/
def isSupported (id : String) : Bool :=
  (find? id).isSome

/-- The language of an id, or TypeScript. -/
def ofId (id : String) : Language :=
  (find? id).getD typescript

/-- The language of a file ending. -/
def ofSuffix? (suffix : String) : Option Language :=
  all.find? fun language => language.suffixes.contains suffix.toLower

end Language

/-! ## Files

What there is at a path is for the system to say: it may follow links, know a home
directory or refuse to look. All that counts here is what it tells of a path. -/

/-- What is found at a path. -/
inductive Lookup where
  /-- The path cannot be followed, or nobody may look where it leads. -/
  | stuck (fault : Fault)
  /-- There is no file. -/
  | missing
  /-- A file of a name, with its bytes or the reason why they cannot be read. -/
  | file (name : String) (content : Except String (List UInt8))

/-- The ending of a file name: from its last dot on, unless the dot is the first or
the last character. -/
def suffixOf (name : String) : String :=
  let cs := name.toList
  let tail := cs.reverse.takeWhile (· ≠ '.')
  if tail.isEmpty || cs.length ≤ tail.length + 1 then ""
  else String.ofList ('.' :: tail.reverse)

/-- Files below a current directory, each with the parts of its path from there and its
bytes. Where there are no others, paths are resolved by their parts alone. -/
structure FileStore where
  files : List (List String × List UInt8) := []

namespace FileStore

/-- The parts of a path after those of `base`, which come in reverse. There is
none for a path that leaves the directory in which it starts. -/
def resolveFrom : List String → List String → Option (List String)
  | base, [] => some base.reverse
  | base, part :: rest =>
      if part = "" ∨ part = "." then resolveFrom base rest
      else if part = ".." then
        match base with
        | [] => none
        | _ :: parent => resolveFrom parent rest
      else resolveFrom (part :: base) rest

/-- The parts of a path from the current directory. An absolute path names no file
below it. -/
def resolve (path : String) : Option (List String) :=
  if path.toList.head? = some '/' then none
  else resolveFrom [] ((path.toList.splitOn '/').map String.ofList)

/-- The store of files with these paths. -/
def ofFiles (files : List (String × List UInt8)) : FileStore :=
  ⟨files.filterMap fun file => (resolve file.1).map fun parts => (parts, file.2)⟩

/-- What is found at a path where a store has all the files there are. -/
def lookup (store : FileStore) (path : String) : Lookup :=
  if path.toList.contains '\x00' then .stuck .nulInPath
  else
    match resolve path with
    | none => .missing
    | some parts =>
        match store.files.find? (·.1 = parts) with
        | none => .missing
        | some file => .file (parts.getLastD "") (.ok file.2)

end FileStore

/-! ## Drafts of documents

A document is asked for by a source text or by the path of a file, and with a
language or without one. What is asked with are JSON values, and they are not
checked beforehand: a value of a wrong type is a fault where it is first used. -/

/-- Why no document could be loaded. -/
inductive LoadError where
  | noInput
  | notFound (path : String)
  | unsupportedType (suffix : String)
  /-- The file cannot be read, for this reason. -/
  | unreadable (path reason : String)
  /-- The file can be read, and its bytes are no text. -/
  | undecodable (path : String) (cause : Utf8.Invalid)
deriving Repr, DecidableEq

/-- What is said of a document that could not be loaded. -/
def LoadError.message : LoadError → String
  | .noInput => "Either path or source is required"
  | .notFound path => "File not found: " ++ path
  | .unsupportedType suffix => "Unsupported file type: " ++ suffix
  | .unreadable path reason => "Failed to read " ++ path ++ ": " ++ reason
  | .undecodable path cause => "Failed to read " ++ path ++ ": " ++ cause.message

/-- A value that has to be text for what is to be done with it, which `member`
names. -/
def Json.textFor (member : String) : Json → Except Fault String
  | .str text => .ok text
  | value => .error (.noMember value.typeName member)

/-- What a document is to be made of. -/
structure Draft where
  /-- What is given as its text. -/
  text : Json
  /-- What is given as its language, or the language found for it. -/
  language : Json
  /-- The path it was read from, if it was read from a file. -/
  path : Option String := none

namespace Draft

/-- The draft of a source text. A container passes for one here, as it has items
to go through. -/
def ofSource (source language : Json) : Except Fault Draft :=
  match source with
  | .str _ | .arr _ | .obj _ =>
      .ok { text := source
            language := if language.isTruthy then language else .str Language.typescript.id }
  | value => .error (.notIterable value.typeName)

/-- The draft of a file: its text with line breaks made one, in the language
given or else in that of its ending. The ending is looked at first. -/
def ofFile (path name : String) (content : Except String (List UInt8)) (language : Json) :
    Except LoadError Draft :=
  let suffix := suffixOf name
  let known := (Language.ofSuffix? suffix).map (·.id)
  if language.isNull && known.isNone then .error (.unsupportedType suffix)
  else
    match content with
    | .error reason => .error (.unreadable path reason)
    | .ok bytes =>
        match Utf8.decode bytes with
        | .error cause => .error (.undecodable path cause)
        | .ok cs =>
            .ok { text := .str (String.ofList (Text.unifyNewlines cs))
                  language := if language.isNull then .ofString? known else language
                  path := some path }

/-- The draft of what is found at a path. -/
def ofPath (lookup : String → Lookup) (path : String) (language : Json) :
    Except Fault (Except LoadError Draft) :=
  match lookup path with
  | .stuck fault => .error fault
  | .missing => .ok (.error (.notFound path))
  | .file name content => .ok (ofFile path name content language)

/-- The draft of a source text, or else of the file at a path. -/
def load (lookup : String → Lookup) (path source language : Json) :
    Except Fault (Except LoadError Draft) :=
  if source.isNull then
    if !path.isTruthy then .ok (.error .noInput)
    else
      match path with
      | .str text => ofPath lookup text language
      | value => .error (.notPath value.typeName)
  else (ofSource source language).map .ok

end Draft

/-! ## Workspaces -/

/-- The surroundings of a request. -/
structure Workspace where
  /-- What is found at a path. -/
  lookup : (path : String) → Lookup := fun _ => .missing
  /-- The marker that the environment asks for. -/
  env : Option String := none
  /-- The syntax tree that the grammar of a name gives for a text. -/
  parse : (grammar text : String) → Node

namespace Workspace

/-- The configuration that the environment asks for. -/
def config (w : Workspace) : Config := Config.ofEnv w.env

/-- The grammar that parses a document. -/
def grammarOf (d : Document) : String :=
  (Language.ofId d.language).grammar

/-- What is delivered for a document. -/
def delivery (w : Workspace) (d : Document) : Delivery :=
  .ofTree (w.parse (grammarOf d) d.text)

/-- The outline of a document, as a provider answers a request for it. -/
def outline (w : Workspace) (d : Document) : Traced Outline :=
  Request.outline { document := d, config := w.config, delivery := w.delivery d }

end Workspace

end CodeOutline
