import CodeOutline.Json.Basic
import CodeOutline.Number.Numeral

/-!
# Reading JSON text

A text is read as one value with blanks around its tokens. A number with neither
a point nor a power of ten is whole, and any other is a double. The names of the
doubles that have no digits are read too. Of fields with the same name the last
one counts, in the place of the first.
-/

namespace CodeOutline.Json

/-- What may stand between tokens. -/
def isGap (c : Char) : Bool :=
  c = ' ' || c = '\n' || c = '\r' || c = '\t'

/-- The text from its next token on. -/
def skipGap (cs : List Char) : List Char :=
  cs.dropWhile isGap

/-! ## Strings -/

/-- The UTF-16 unit that four hexadecimal digits name. -/
def unitOf? (a b c d : Char) : Option Nat :=
  [a, b, c, d].foldlM (fun value digit => (Numeral.digitIn? 16 digit).map (value * 16 + ·)) 0

/-- The character that a letter after a backslash stands for. -/
def shortEscape? : Char → Option Char
  | '"' => some '"'
  | '\\' => some '\\'
  | '/' => some '/'
  | 'b' => some '\x08'
  | 'f' => some '\x0c'
  | 'n' => some '\n'
  | 'r' => some '\r'
  | 't' => some '\t'
  | _ => none

/-- The numbers of the characters up to the closing quote, and the text after it.
An escape may be half of a character. -/
def units? : List Char → Option (List Nat × List Char)
  | [] => none
  | '"' :: rest => some ([], rest)
  | '\\' :: 'u' :: a :: b :: c :: d :: rest => do
      let unit ← unitOf? a b c d
      let (units, after) ← units? rest
      pure (unit :: units, after)
  | '\\' :: c :: rest => do
      let escaped ← shortEscape? c
      let (units, after) ← units? rest
      pure (escaped.toNat :: units, after)
  | c :: rest =>
      if c = '\\' ∨ c.toNat < 0x20 then none
      else do
        let (units, after) ← units? rest
        pure (c.toNat :: units, after)

/-- Whether a unit is the first half of a character. -/
def isFirstHalf (unit : Nat) : Bool :=
  0xd800 ≤ unit && unit < 0xdc00

/-- Whether a unit is the second half of a character. -/
def isSecondHalf (unit : Nat) : Bool :=
  0xdc00 ≤ unit && unit < 0xe000

/-- The character of a number, and the replacement character for half of one. -/
def charOf (unit : Nat) : Char :=
  if isFirstHalf unit || isSecondHalf unit then '\ufffd' else Char.ofNat unit

/-- The characters of numbers, halves that follow each other joined. -/
def joinHalves : List Nat → List Char
  | [] => []
  | [unit] => [charOf unit]
  | unit :: next :: rest =>
      if isFirstHalf unit && isSecondHalf next then
        Char.ofNat (0x10000 + (unit - 0xd800) * 0x400 + (next - 0xdc00)) :: joinHalves rest
      else charOf unit :: joinHalves (next :: rest)

/-- The string whose opening quote has been read, and the text after it. -/
def string? (cs : List Char) : Option (String × List Char) :=
  (units? cs).map fun (units, after) => (String.ofList (joinHalves units), after)

/-! ## Numbers and names -/

/-- What a number is written with. -/
def isNumeric (c : Char) : Bool :=
  c.isDigit || c = '-' || c = '+' || c = '.' || c = 'e' || c = 'E'

/-- Whether digits are those of a whole number: there is one, and a zero leads no
other. -/
def isWhole : List Char → Bool
  | [] => false
  | '0' :: rest => rest.isEmpty
  | cs => cs.all Char.isDigit

/-- Whether what follows the whole digits is a fraction: a point and digits, a
power of ten, or both. -/
def isFraction : List Char → Bool
  | '.' :: cs =>
      (cs.head?.map Char.isDigit).getD false
        && (Numeral.exponent? (cs.dropWhile Char.isDigit)).isSome
  | cs => (Numeral.exponent? cs).isSome

/-- The number that a text without sign writes. -/
def unsigned? (negative : Bool) (cs : List Char) : Option Json :=
  let whole := cs.takeWhile Char.isDigit
  let rest := cs.dropWhile Char.isDigit
  if !isWhole whole then none
  else if rest.isEmpty then some (.int (Numeral.signed negative (Numeral.digitsValue whole)))
  else if isFraction rest then (Numeral.fraction? negative cs).map .real
  else none

/-- The number that a text writes. -/
def number? : List Char → Option Json
  | '-' :: cs => unsigned? true cs
  | cs => unsigned? false cs

/-- The values that have names. -/
def names : List (String × Json) :=
  [("null", .null), ("true", .bool true), ("false", .bool false), ("NaN", .real .nan),
   ("Infinity", .real (.infinite false)), ("-Infinity", .real (.infinite true))]

/-- The value of the name with which a text starts, and the text after it. -/
def named? (cs : List Char) : Option (Json × List Char) :=
  names.findSome? fun (name, value) =>
    if name.toList.isPrefixOf cs then some (value, cs.drop name.length) else none

/-- The value with a name or a number with which a text starts, and the text after
it. -/
def scalar? (cs : List Char) : Option (Json × List Char) :=
  match named? cs with
  | some read => some read
  | none => (number? (cs.takeWhile isNumeric)).map fun value => (value, cs.dropWhile isNumeric)

/-! ## Values -/

mutual

/-- The value with which a text starts, and the text after it. -/
def valueFrom? : Nat → List Char → Option (Json × List Char)
  | 0, _ => none
  | fuel + 1, cs =>
      match skipGap cs with
      | '"' :: rest => (string? rest).map fun (text, after) => (.str text, after)
      | '[' :: rest =>
          match skipGap rest with
          | ']' :: after => some (.arr [], after)
          | _ => (itemsFrom? fuel rest).map fun (items, after) => (.arr items, after)
      | '\x7b' :: rest =>
          match skipGap rest with
          | '\x7d' :: after => some (.obj [], after)
          | _ =>
              (fieldsFrom? fuel rest).map fun (fields, after) =>
                (.obj (Fields.ofList fields), after)
      | rest => scalar? rest

/-- The items of an array up to its closing bracket, and the text after it. -/
def itemsFrom? : Nat → List Char → Option (List Json × List Char)
  | 0, _ => none
  | fuel + 1, cs => do
      let (value, rest) ← valueFrom? fuel cs
      match skipGap rest with
      | ',' :: more => do
          let (values, after) ← itemsFrom? fuel more
          pure (value :: values, after)
      | ']' :: after => pure ([value], after)
      | _ => none

/-- The fields of an object up to its closing brace, and the text after it. -/
def fieldsFrom? : Nat → List Char → Option (List (String × Json) × List Char)
  | 0, _ => none
  | fuel + 1, cs =>
      match skipGap cs with
      | '"' :: start => do
          let (name, rest) ← string? start
          match skipGap rest with
          | ':' :: rest => do
              let (value, rest) ← valueFrom? fuel rest
              match skipGap rest with
              | ',' :: more => do
                  let (fields, after) ← fieldsFrom? fuel more
                  pure ((name, value) :: fields, after)
              | '\x7d' :: after => pure ([(name, value)], after)
              | _ => none
          | _ => none
      | _ => none

end

/-- The value that a text writes, if it writes one. Reading goes at most two steps
deep for each character. -/
def read? (text : String) : Option Json :=
  let cs := text.toList
  match valueFrom? (2 * cs.length + 2) cs with
  | some (value, rest) => if (skipGap rest).isEmpty then some value else none
  | none => none

end CodeOutline.Json
