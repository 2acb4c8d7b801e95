import CodeOutline.Json.Basic
import CodeOutline.Number.Numeral
import CodeOutline.Traced

/-!
# Literals

The values that a declaration may be given by default. Besides lists and tables
there are entries: the elements of an array or object literal, each with a key
or without one. A literal comes from a numeral or from entries, is shown as text or
written as JSON, and is kept by its canonical text.
-/

namespace CodeOutline

/-- A default value. -/
inductive Literal where
  | null
  | bool (value : Bool)
  | int (value : Int)
  | real (value : Double)
  | str (value : String)
  | list (items : List Literal)
  | table (fields : List (String × Literal))
  | entries (items : List (Option String × Literal))

namespace Literal

instance : Inhabited Literal := ⟨.null⟩

/-- The entries of a container. -/
def entries? : Literal → Option (List (Option String × Literal))
  | .list items => some (items.map fun item => (none, item))
  | .table fields => some (fields.map fun field => (some field.1, field.2))
  | .entries items => some items
  | _ => none

/-- The name of a literal's type. -/
def typeName : Literal → String
  | .null => "null"
  | .bool _ => "bool"
  | .int _ => "int"
  | .real _ => "float"
  | .str _ => "string"
  | .list _ => "list"
  | .table _ => "table"
  | .entries _ => "entries"

/-! ## Literals from numerals

A numeral is a whole number if it reads as one, else a double, and else its text
is kept. -/

/-- The literal that a numeral stands for. -/
def ofNumeral (text : String) : Literal :=
  match Numeral.markedInteger? text.toList with
  | some n => .int n
  | none =>
      match Numeral.double? text.toList with
      | some x => .real x
      | none => .str text

/-! ## Containers from entries

Entries that all have keys make a table. If one has none they make a list: an
entry without key takes a new slot at the end, and an entry whose key names a
slot that exists takes that slot. -/

variable {α : Type}

/-- The slot that a key names. -/
def slotOf? (key : String) : Option Nat :=
  match Numeral.integer? key.toList with
  | some index => if 0 ≤ index then some index.toNat else none
  | none => none

/-- The slots with a value in the slot named, or in a new one at the end. -/
def fill (slots : List α) (slot? : Option Nat) (value : α) : List α :=
  match slot? with
  | some slot => if slot < slots.length then slots.set slot value else slots ++ [value]
  | none => slots ++ [value]

/-- The slots after entries are taken one after another. -/
def slotsOf (items : List (Option String × α)) : List α :=
  items.foldl (fun slots entry => fill slots (entry.1.bind slotOf?) entry.2) []

/-- The container of entries. -/
def ofEntries (items : List (Option String × Literal)) : Literal :=
  if items.isEmpty then .list []
  else if items.any (·.1.isNone) then .list (slotsOf items)
  else .table (Fields.ofList (items.map fun entry => (entry.1.getD "", entry.2)))

/-! ## Literals as text

How a literal is shown where it is not written as JSON. A string is shown as it
is, and inside a container between quotes. -/

/-- The names of the doubles that have no digits. -/
def specialNames : Double.SpecialNames := ⟨"nan", "inf"⟩

/-- The decimal text of a whole number, if it has not too many digits. -/
def integerText (n : Int) : Except Fault String :=
  if Numeral.isWritable n then .ok (toString n) else .error .integerTooLong

mutual

/-- A literal as it is shown inside a container. -/
def shown : Literal → Except Fault String
  | .null => .ok "None"
  | .bool value => .ok (if value then "True" else "False")
  | .int value => integerText value
  | .real value => .ok (value.text specialNames)
  | .str value => .ok (Text.quotedString value)
  | .list items => do
      let texts ← shownItems items
      pure ("[" ++ ", ".intercalate texts ++ "]")
  | .table fields => do
      let texts ← shownFields fields
      pure ("\x7b" ++ ", ".intercalate texts ++ "\x7d")
  | .entries items => do
      let texts ← shownEntries items
      pure ("ArrayLiteral(items=[" ++ ", ".intercalate texts ++ "])")

/-- The items of a list. -/
def shownItems : List Literal → Except Fault (List String)
  | [] => .ok []
  | item :: rest => do
      let text ← shown item
      let texts ← shownItems rest
      pure (text :: texts)

/-- The fields of a table. -/
def shownFields : List (String × Literal) → Except Fault (List String)
  | [] => .ok []
  | (key, value) :: rest => do
      let text ← shown value
      let texts ← shownFields rest
      pure ((Text.quotedString key ++ ": " ++ text) :: texts)

/-- Entries with their keys. -/
def shownEntries : List (Option String × Literal) → Except Fault (List String)
  | [] => .ok []
  | (key, value) :: rest => do
      let text ← shown value
      let texts ← shownEntries rest
      let keyText := (key.map Text.quotedString).getD "None"
      pure (("ArrayEntry(value=" ++ text ++ ", key=" ++ keyText ++ ")") :: texts)

end

/-- A literal as it is shown by itself. -/
def display : Literal → Except Fault String
  | .str value => .ok value
  | value => shown value

/-! ## Literals as JSON

Lists and tables are JSON arrays and objects. Entries have no place in JSON, and
a whole number may have too many digits to be written; the first of either, in
the order of writing, is the fault. -/

mutual

/-- The JSON value of a literal. -/
def toJson : Literal → Except Fault Json
  | .null => .ok .null
  | .bool value => .ok (.bool value)
  | .int value =>
      if Numeral.isWritable value then .ok (.int value) else .error .integerTooLong
  | .real value => .ok (.real value)
  | .str value => .ok (.str value)
  | .list items => do
      let values ← toJsonItems items
      pure (.arr values)
  | .table fields => do
      let values ← toJsonFields fields
      pure (.obj values)
  | .entries _ => .error .nestedEntries

/-- The JSON values of a list's items. -/
def toJsonItems : List Literal → Except Fault (List Json)
  | [] => .ok []
  | item :: rest => do
      let value ← toJson item
      let values ← toJsonItems rest
      pure (value :: values)

/-- The JSON values of a table's fields. -/
def toJsonFields : List (String × Literal) → Except Fault (List (String × Json))
  | [] => .ok []
  | (key, item) :: rest => do
      let value ← toJson item
      let values ← toJsonFields rest
      pure ((key, value) :: values)

end

/-! ## JSON values as literals

Each JSON value is a literal, and is shown as that literal is. -/

mutual

/-- The literal of a JSON value. -/
def ofJson : Json → Literal
  | .null => .null
  | .bool value => .bool value
  | .int value => .int value
  | .real value => .real value
  | .str value => .str value
  | .arr items => .list (ofJsonItems items)
  | .obj fields => .table (ofJsonFields fields)

/-- The literals of an array's items. -/
def ofJsonItems : List Json → List Literal
  | [] => []
  | value :: rest => ofJson value :: ofJsonItems rest

/-- The literals of an object's fields. -/
def ofJsonFields : List (String × Json) → List (String × Literal)
  | [] => []
  | (name, value) :: rest => (name, ofJson value) :: ofJsonFields rest

end

end Literal

/-- A JSON value as it is shown by itself. -/
def Json.display (value : Json) : Except Fault String :=
  (Literal.ofJson value).display

@[simp] theorem Json.display_str (text : String) : (Json.str text).display = .ok text := rfl

/-! ## Canonical text of default values

A default value is kept as text: a container of declared type `array` as compact
JSON, a value of declared type `string` between double quotes, all else as it is
shown. No value is the empty text. -/

namespace Literal

/-- The compact JSON of the container that a literal makes. -/
def containerText (value : Literal) : Except Fault String :=
  match value.entries? with
  | some items => (ofEntries items).toJson.map Json.compact
  | none => .error (.notIterable value.typeName)

/-- The canonical text of a default value of a declared type. -/
def normalize (value : Literal) (type : Option String) : Except Fault String :=
  match value with
  | .null => .ok ""
  | .str text => .ok (if type = some "string" then "\"" ++ text ++ "\"" else text)
  | value =>
      if type = some "array" then containerText value
      else if type = some "string" then (display value).map fun text => "\"" ++ text ++ "\""
      else display value

end Literal

end CodeOutline
