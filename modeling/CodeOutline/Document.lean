import CodeOutline.Text.Basic
import CodeOutline.Traced

/-!
# Documents

A source text with its places: offsets count characters from the start of the
text, positions count lines and characters on the line. Lines end at LF; CRs
before it are not part of the line. Offsets and positions outside the text are
taken to its nearest place.
-/

namespace CodeOutline

/-! ## Positions and ranges

A position is a line and a character on it, both counted from zero. A range runs
from a position up to, and without, another. -/

/-- A place in a document. -/
structure Position where
  line : Int
  character : Int
deriving Repr, DecidableEq

/-- A stretch of a document. -/
structure Range where
  start : Position
  stop : Position
deriving Repr, DecidableEq

/-- The range of no width at a position. -/
def Range.empty (p : Position) : Range := ⟨p, p⟩

/-- Whether a range has no width. -/
def Range.isEmpty (r : Range) : Bool := r.start = r.stop

/-! ## The text and its places -/

/-- A source text and the language it is written in. -/
structure Document where
  text : String
  language : String := "typescript"
  /-- The path it was read from, if it was read from a file. -/
  path : Option String := none
deriving Repr, DecidableEq

namespace Document

/-- The characters of a document. -/
def chars (d : Document) : List Char := d.text.toList

/-- The offset after each LF, the text starting at `offset`. -/
def startsAfter : Nat → List Char → List Nat
  | _, [] => []
  | offset, c :: cs =>
      if c = '\n' then (offset + 1) :: startsAfter (offset + 1) cs
      else startsAfter (offset + 1) cs

/-- The offsets at which lines start, ascending. -/
def lineStarts (d : Document) : List Nat :=
  0 :: startsAfter 0 d.chars

/-- How many lines there are. -/
def lineCount (d : Document) : Nat := d.lineStarts.length

/-- An offset taken to the nearest one in the text. -/
def clampOffset (d : Document) (offset : Int) : Nat :=
  min offset.toNat d.chars.length

/-- The position of an offset: on the last line that starts at or before it. -/
def positionAt (d : Document) (offset : Int) : Position :=
  let place := d.clampOffset offset
  let starts := d.lineStarts.takeWhile (· ≤ place)
  ⟨(starts.length : Int) - 1, (place : Int) - (starts.getLastD 0 : Nat)⟩

/-- The offsets between which a line stands, by its signed index. A line before
the last ends where the next one starts, less its LF; with the last line counted
from the end, the next is the first. -/
def lineSpan? (d : Document) (line : Int) : Option (Int × Int) :=
  match Slice.get? d.lineStarts line with
  | none => none
  | some start =>
      if line + 1 < d.lineCount then
        match Slice.get? d.lineStarts (line + 1) with
        | none => none
        | some next => some (start, (next : Int) - 1)
      else some (start, d.chars.length)

/-- The characters of a line, by its signed index. -/
def lineChars? (d : Document) (line : Int) : Option (List Char) :=
  (d.lineSpan? line).map fun span =>
    Text.trimEnd (· = '\r') (Slice.between d.chars span.1 span.2)

/-- The text of a line, by its signed index. -/
def lineAt (d : Document) (line : Int) : Except Fault String :=
  match d.lineChars? line with
  | some cs => .ok (String.ofList cs)
  | none => .error (.ofIndex line)

/-- The characters of a line that exists, and none of another. -/
def line (d : Document) (index : Int) : List Char :=
  (d.lineChars? index).getD []

/-- The offset of a position, taken to the nearest line and, on it, to the
nearest character. -/
def offsetAt (d : Document) (p : Position) : Nat :=
  let index := min p.line.toNat (d.lineCount - 1)
  d.lineStarts.getD index 0 + min p.character.toNat (d.line index).length

/-- The text of a range, or the whole text. -/
def getText (d : Document) : Option Range → String
  | none => d.text
  | some r => String.ofList (Slice.between d.chars (d.offsetAt r.start) (d.offsetAt r.stop))

/-- The text between two signed offsets. An open end is the end of the line on
which the text starts. -/
def textBetween (d : Document) (start : Int) (stop : Option Int) : String :=
  match stop with
  | some stop => String.ofList (Slice.between d.chars start stop)
  | none =>
      let p := d.positionAt start
      String.ofList ((d.line p.line).drop p.character.toNat)

/-- How a name occurs on the line of an offset. -/
def sight (d : Document) (name : String) (offset : Int) : Search.Sighting :=
  Search.sight name.toList (d.line (d.positionAt offset).line)

/-- Where a name stands on the line of an offset. The range has no width if the
name is not there, and at its first occurrence if there are several, as a look
at the line cannot tell which one is meant. -/
def identifierRange (d : Document) (name : String) (offset : Int) : Range :=
  let p := d.positionAt offset
  match d.sight name offset with
  | .absent => Range.empty p
  | .unique place => ⟨⟨p.line, place⟩, ⟨p.line, place + name.toList.length⟩⟩
  | .repeated first => Range.empty ⟨p.line, first⟩

/-- The note left by the search for a name on the line of an offset. -/
def identifierNotes (d : Document) (name : String) (offset : Int) : List Note :=
  match d.sight name offset with
  | .repeated _ => [.ambiguousIdentifier name (d.positionAt offset).line]
  | _ => []

/-- What may stand before a directive. -/
def isPreamble (c : Char) : Bool :=
  ['\ufeff', ' ', '\t', '\r', '\n'].contains c

/-- Whether the text opens with the directive that makes it strict. -/
def isStrict (d : Document) : Bool :=
  let head := d.chars.dropWhile isPreamble
  ["\"use strict\"", "'use strict'"].any fun directive => directive.toList.isPrefixOf head

end Document

end CodeOutline
