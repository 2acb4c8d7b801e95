import CodeOutline.Number.Double
import CodeOutline.Text.Quoted

/-!
# JSON values and their text

JSON values, with objects as fields in the order of their names, and the two ways in which
they are written: compact, and indented.
-/

namespace CodeOutline

/-! ## Named fields

Values under names, in the order in which the names first came. A later value
takes the place of an earlier one of its name. -/

namespace Fields

variable {α : Type}

/-- The fields with a value put under a name: in place of the value that the name
had, or at the end. -/
def put (fields : List (String × α)) (name : String) (value : α) : List (String × α) :=
  match fields with
  | [] => [(name, value)]
  | (n, v) :: rest =>
      if n = name then (name, value) :: rest else (n, v) :: put rest name value

/-- The fields given one after another. -/
def ofList (fields : List (String × α)) : List (String × α) :=
  fields.foldl (fun done field => put done field.1 field.2) []

end Fields

/-! ## JSON values

Objects keep the order of their fields. Numbers are whole or double, as they
are written differently. -/

/-- A JSON value. -/
inductive Json where
  | null
  | bool (value : Bool)
  | int (value : Int)
  | real (value : Double)
  | str (value : String)
  | arr (items : List Json)
  | obj (fields : List (String × Json))

namespace Json

instance : Inhabited Json := ⟨.null⟩

/-- Whether a value is null. -/
def isNull : Json → Bool
  | .null => true
  | _ => false

/-- Whether a value is a text. -/
def isText (text : String) : Json → Bool
  | .str value => value = text
  | _ => false

/-- The name of a value's type. -/
def typeName : Json → String
  | .null => "NoneType"
  | .bool _ => "bool"
  | .int _ => "int"
  | .real _ => "float"
  | .str _ => "str"
  | .arr _ => "list"
  | .obj _ => "dict"

/-- Whether a value counts as something: null, false, zero and what is empty do
not. -/
def isTruthy : Json → Bool
  | .null => false
  | .bool value => value
  | .int value => value ≠ 0
  | .real value => !value.isZero
  | .str value => value ≠ ""
  | .arr items => !items.isEmpty
  | .obj fields => !fields.isEmpty

/-- A string, or null. -/
def ofString? : Option String → Json
  | some s => .str s
  | none => .null

/-- The field of an object with a given name. -/
def field? (name : String) : Json → Option Json
  | .obj fields => (fields.find? (·.1 = name)).map Prod.snd
  | _ => none

mutual

/-- The value without the fields that are null, at any depth. A null in an array
stays. -/
def withoutNulls : Json → Json
  | .arr items => .arr (withoutNullsAll items)
  | .obj fields => .obj (withoutNullFields fields)
  | value => value

/-- Each value without the fields that are null. -/
def withoutNullsAll : List Json → List Json
  | [] => []
  | value :: rest => value.withoutNulls :: withoutNullsAll rest

/-- The fields that are not null, each without the fields that are null. -/
def withoutNullFields : List (String × Json) → List (String × Json)
  | [] => []
  | (name, value) :: rest =>
      if value.isNull then withoutNullFields rest
      else (name, value.withoutNulls) :: withoutNullFields rest

end

/-! ## JSON text

Values are written in ASCII alone: a character beyond it is written as one
escaped UTF-16 unit or two. The compact layout has no blanks between tokens; the
indented one has an item a line. -/

/-- A UTF-16 unit as an escape. -/
def unitEscape (unit : Nat) : List Char :=
  '\\' :: 'u' :: Text.hexDigits 4 unit

/-- A character as it stands in a JSON string. -/
def escapeChar (c : Char) : List Char :=
  if c = '"' ∨ c = '\\' then ['\\', c]
  else if c = '\n' then ['\\', 'n']
  else if c = '\r' then ['\\', 'r']
  else if c = '\t' then ['\\', 't']
  else if c = '\x0c' then ['\\', 'f']
  else if c = '\x08' then ['\\', 'b']
  else if 0x20 ≤ c.toNat ∧ c.toNat < 0x7f then [c]
  else if c.toNat < 0x10000 then unitEscape c.toNat
  else
    unitEscape (0xd800 + (c.toNat - 0x10000) / 0x400)
      ++ unitEscape (0xdc00 + (c.toNat - 0x10000) % 0x400)

/-- A JSON string. -/
def quote (s : String) : List Char :=
  '"' :: (s.toList.flatMap escapeChar ++ ['"'])

/-- The names of the doubles that have no digits. -/
def specialNames : Double.SpecialNames := ⟨"NaN", "Infinity"⟩

mutual

/-- A value without blanks between its tokens. -/
def compactChars : Json → List Char
  | .null => "null".toList
  | .bool value => (if value then "true" else "false").toList
  | .int value => (toString value).toList
  | .real value => (value.text specialNames).toList
  | .str value => quote value
  | .arr items => '[' :: (compactItems true items ++ [']'])
  | .obj fields => '\x7b' :: (compactFields true fields ++ ['\x7d'])

/-- The items of an array, a comma before each that is not the first. -/
def compactItems : Bool → List Json → List Char
  | _, [] => []
  | first, value :: rest =>
      (if first then [] else [',']) ++ compactChars value ++ compactItems false rest

/-- The fields of an object, a comma before each that is not the first. -/
def compactFields : Bool → List (String × Json) → List Char
  | _, [] => []
  | first, (name, value) :: rest =>
      (if first then [] else [',']) ++ quote name ++ [':'] ++ compactChars value
        ++ compactFields false rest

end

/-- A value without blanks between its tokens. -/
def compact (value : Json) : String :=
  String.ofList value.compactChars

/-- The start of a line at a depth: two spaces a level. -/
def newLine (depth : Nat) : List Char :=
  '\n' :: List.replicate (2 * depth) ' '

mutual

/-- A value with an item a line, the line it starts on being at `depth`. -/
def indentedChars (depth : Nat) : Json → List Char
  | .arr [] => ['[', ']']
  | .arr (value :: rest) =>
      '[' :: (indentedItems (depth + 1) true (value :: rest) ++ newLine depth ++ [']'])
  | .obj [] => ['\x7b', '\x7d']
  | .obj (field :: rest) =>
      '\x7b' :: (indentedFields (depth + 1) true (field :: rest) ++ newLine depth ++ ['\x7d'])
  | value => compactChars value

/-- The items of an array, each on a line of its own. -/
def indentedItems (depth : Nat) : Bool → List Json → List Char
  | _, [] => []
  | first, value :: rest =>
      (if first then [] else [',']) ++ newLine depth ++ indentedChars depth value
        ++ indentedItems depth false rest

/-- The fields of an object, each on a line of its own. -/
def indentedFields (depth : Nat) : Bool → List (String × Json) → List Char
  | _, [] => []
  | first, (name, value) :: rest =>
      (if first then [] else [',']) ++ newLine depth ++ quote name ++ [':', ' ']
        ++ indentedChars depth value ++ indentedFields depth false rest

end

/-- A value with an item a line. -/
def indented (value : Json) : String :=
  String.ofList (value.indentedChars 0)

end Json

end CodeOutline
