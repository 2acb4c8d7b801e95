import CodeOutline.Traced

/-!
# Syntax trees and their texts

A grammar's parser gives a tree whose nodes stand for bytes of the source text. What a
node says is found by counting those bytes as characters.
-/

namespace CodeOutline

/-! ## Syntax trees

A tree as a grammar's parser gives it: each node has a kind, the bytes of the
source text it stands for, and its children. A node may have a field name, by
which its parent finds it; nodes that are not named stand for punctuation and
keywords. -/

/-- A node of a syntax tree. -/
structure Node where
  kind : String
  named : Bool
  start : Nat
  stop : Nat
  field : Option String
  children : List Node

namespace Node

instance : Inhabited Node := ⟨⟨"", false, 0, 0, none, []⟩⟩

/-- The children that are named. -/
def namedChildren (n : Node) : List Node :=
  n.children.filter (·.named)

/-- The first of several nodes with a field name. -/
def withField? (field : String) (nodes : List Node) : Option Node :=
  nodes.find? (·.field = some field)

/-- The first child with a field name. -/
def child? (n : Node) (field : String) : Option Node :=
  withField? field n.children

/-- Whether a node is a comment. -/
def isComment (n : Node) : Bool := n.kind = "comment"

end Node

/-! ## Source text by bytes

A syntax tree counts the bytes of a text and declarations count its characters.
The text is held both ways. -/

/-- A text and its bytes. -/
structure SourceText where
  chars : List Char
  bytes : List UInt8
  bytes_eq : bytes = Utf8.encode chars

namespace SourceText

/-- The source text of a string. -/
def ofString (text : String) : SourceText :=
  ⟨text.toList, Utf8.encode text.toList, rfl⟩

/-- Whether each character is one byte. -/
def isAscii (s : SourceText) : Bool :=
  s.chars.all (·.toNat < 128)

/-- For each byte of a text, the number of the character it belongs to, the first
character having number `n`; then the number after the last. -/
def offsetsFrom : Nat → List Char → List Nat
  | n, [] => [n]
  | n, c :: cs => List.replicate c.utf8Size n ++ offsetsFrom (n + 1) cs

/-- For each byte, the number of the character it belongs to; then how many
characters there are. -/
def charOffsets (cs : List Char) : List Nat :=
  offsetsFrom 0 cs

/-- The number of the character to which a byte belongs. -/
def offset (s : SourceText) (byte : Nat) : Except Fault Nat :=
  if s.isAscii then .ok byte
  else
    match (charOffsets s.chars)[byte]? with
    | some n => .ok n
    | none => .error (.ofIndex byte)

/-- The characters that a stretch of bytes spells. -/
def charsBetween (s : SourceText) (start stop : Nat) : Except Fault (List Char) :=
  let bytes := (s.bytes.take stop).drop start
  match Utf8.decode bytes with
  | .ok cs => .ok cs
  | .error cause => .error (.invalidText bytes cause)

/-- The characters of a node. -/
def charsOf (s : SourceText) (n : Node) : Except Fault (List Char) :=
  s.charsBetween n.start n.stop

/-- The text of a node. -/
def textOf (s : SourceText) (n : Node) : Except Fault String :=
  (s.charsOf n).map String.ofList

/-- The text of a node without its first and its last character, such as the
quotes of a string. -/
def innerTextOf (s : SourceText) (n : Node) : Except Fault String :=
  (s.charsOf n).map fun cs => String.ofList (cs.drop 1).dropLast

end SourceText

end CodeOutline
