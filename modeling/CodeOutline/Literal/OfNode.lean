import CodeOutline.Json.Basic
import CodeOutline.Literal.Basic
import CodeOutline.SourceText

/-!
# Literals of a syntax tree

An initializer is kept as a literal if it is built of strings, numbers, truth
values, null, arrays and objects with plain keys alone, and as its text
otherwise.
-/

namespace CodeOutline

/-- A default value and the kind of literal it is. -/
structure Initializer where
  value : Literal := .null
  kind : Option String := none

namespace Node

/-- The kinds of node that stand for a value without parts. -/
def plainKinds : List String := ["string", "number", "true", "false", "null"]

mutual

/-- Whether a node is built of literals alone. The first object member without
key or value, in the order of reading, is a fault. -/
def isLiteral : Node → Except Fault Bool
  | ⟨kind, _, _, _, _, children⟩ =>
      if plainKinds.contains kind then .ok true
      else if kind = "unary_expression" then
        .ok (match withField? "argument" children with
          | some argument => argument.kind = "number"
          | none => false)
      else if kind = "array" then allLiteral children
      else if kind = "object" then allPlainPairs children
      else .ok false

/-- Whether each named node that is no comment is built of literals alone. -/
def allLiteral : List Node → Except Fault Bool
  | [] => .ok true
  | n :: rest =>
      if !n.named || n.isComment then allLiteral rest
      else do
        let literal ← isLiteral n
        if literal then allLiteral rest else pure false

/-- Whether each named node that is no comment is a pair of a plain key and a
value that is built of literals alone. -/
def allPlainPairs : List Node → Except Fault Bool
  | [] => .ok true
  | ⟨kind, named, _, _, _, children⟩ :: rest =>
      if !named || kind = "comment" then allPlainPairs rest
      else if kind ≠ "pair" then .ok false
      else
        match withField? "key" children with
        | none => .error .missingPairPart
        | some key =>
            if key.kind = "computed_property_name" then .ok false
            else do
              let literal ← valueIsLiteral children
              if literal then allPlainPairs rest else pure false

/-- Whether the value among the parts of a pair is built of literals alone. -/
def valueIsLiteral : List Node → Except Fault Bool
  | [] => .error .missingPairPart
  | n :: rest => if n.field = some "value" then isLiteral n else valueIsLiteral rest

end

/-- The key of a pair: the inner text of a string, else the text. -/
def keyText (s : SourceText) (parts : List Node) : Except Fault String :=
  match withField? "key" parts with
  | none => .error .missingText
  | some key => if key.kind = "string" then s.innerTextOf key else s.textOf key

mutual

/-- The literal that a node stands for. -/
def scalar (s : SourceText) : Node → Except Fault Literal
  | ⟨kind, named, start, stop, field, children⟩ => do
      let cs ← s.charsOf ⟨kind, named, start, stop, field, children⟩
      if kind = "string" then pure (.str (String.ofList (cs.drop 1).dropLast))
      else if kind = "number" ∨ kind = "unary_expression" then
        pure (.ofNumeral (String.ofList cs))
      else if kind = "true" then pure (.bool true)
      else if kind = "false" then pure (.bool false)
      else if kind = "null" then pure .null
      else if kind = "array" then do
        let items ← elements s children
        pure (.list items)
      else if kind = "object" then do
        let fields ← pairs s children
        pure (.table (Fields.ofList fields))
      else pure (.str (String.ofList cs))

/-- The literals of an array's elements. -/
def elements (s : SourceText) : List Node → Except Fault (List Literal)
  | [] => .ok []
  | n :: rest =>
      if !n.named || n.isComment then elements s rest
      else do
        let item ← scalar s n
        let items ← elements s rest
        pure (item :: items)

/-- The keys and values of an object's pairs. -/
def pairs (s : SourceText) : List Node → Except Fault (List (String × Literal))
  | [] => .ok []
  | ⟨kind, named, _, _, _, children⟩ :: rest =>
      if !named || kind ≠ "pair" then pairs s rest
      else do
        let key ← keyText s children
        let value ← pairValue s children
        let fields ← pairs s rest
        pure ((key, value) :: fields)

/-- The value among the parts of a pair. -/
def pairValue (s : SourceText) : List Node → Except Fault Literal
  | [] => .error .missingText
  | n :: rest => if n.field = some "value" then scalar s n else pairValue s rest

end

/-- The kind of a value without parts, by the kind of its node. -/
def scalarKind? (kind : String) : Option String :=
  match kind with
  | "number" => some "number"
  | "true" => some "boolean"
  | "false" => some "boolean"
  | "null" => some "null"
  | "undefined" => some "undefined"
  | _ => none

/-- An initializer that is kept as its text. -/
def textInitializer (s : SourceText) (n : Node) (kind : String) : Except Fault Initializer := do
  let text ← s.textOf n
  pure ⟨.str text, some kind⟩

/-- The initializer that an array or object of literals alone stands for. One
without any part is kept as its text. -/
def containerInitializer (s : SourceText) (n : Node) : Except Fault Initializer :=
  if n.namedChildren.isEmpty then textInitializer s n "expression"
  else if n.kind = "array" then do
    let items ← elements s n.children
    pure ⟨.entries (items.map fun item => (none, item)), some "array"⟩
  else do
    let fields ← pairs s n.children
    pure ⟨.entries (fields.map fun field => (some field.1, field.2)), some "array"⟩

/-- The default value that a node stands for. -/
def initializer (s : SourceText) : Option Node → Except Fault Initializer
  | none => .ok {}
  | some n =>
      if n.kind = "string" then do
        let text ← s.innerTextOf n
        pure ⟨.str text, some "string"⟩
      else
        match scalarKind? n.kind with
        | some kind => textInitializer s n kind
        | none =>
            if n.kind = "array" ∨ n.kind = "object" then do
              let literal ← isLiteral n
              if literal then containerInitializer s n else textInitializer s n "expression"
            else textInitializer s n "expression"

end Node

end CodeOutline
