import CodeOutline.Number.Double
import CodeOutline.Text.Basic

/-!
# Numerals

Reading whole numbers and doubles from text. Blanks may stand around a numeral,
digits may come from any script, and single underscores may stand between
digits. A whole number is written in base ten, or in another base after a mark
such as `0x`.
-/

namespace CodeOutline.Numeral

/-- The most digits that a decimal numeral may have, in reading and in writing. -/
def maxDigits : Nat := 4300

/-- Whether a whole number has few enough digits to be written. -/
def isWritable (n : Int) : Bool :=
  n.natAbs < Nat.pow 10 maxDigits

/-- A character as it counts in a numeral: digits of any script as the digits
zero to nine, blanks beyond ASCII as spaces, and what has no meaning here as a
question mark. -/
def plainChar (c : Char) : Char :=
  if c.toNat < 127 then c
  else if Text.isBlank c then ' '
  else
    match Text.digitValue? c with
    | some d => Char.ofNat (0x30 + d)
    | none => '?'

/-- Whether a plain character may stand around a numeral. -/
def isSpace (c : Char) : Bool :=
  c = ' ' || (0x09 ≤ c.toNat && c.toNat ≤ 0x0d)

/-- A text in plain characters, without the spaces around it. -/
def plain (cs : List Char) : List Char :=
  Text.trim isSpace (cs.map plainChar)

/-- The sign of a numeral, true for minus, and what follows it. -/
def splitSign : List Char → Bool × List Char
  | '-' :: cs => (true, cs)
  | '+' :: cs => (false, cs)
  | cs => (false, cs)

/-- The value of a digit in a base; letters of either case follow nine. -/
def digitIn? (base : Nat) (c : Char) : Option Nat :=
  let value? :=
    if c.isDigit then some (c.toNat - 0x30)
    else if 'a' ≤ c ∧ c ≤ 'f' then some (c.toNat - 0x57)
    else if 'A' ≤ c ∧ c ≤ 'F' then some (c.toNat - 0x37)
    else none
  value?.filter (· < base)

/-- The number and the value of the digits of a text in which each underscore
stands between two digits. `afterDigit` says what came before, `count` and
`value` what was read. -/
def digitsFrom? (base : Nat) (afterDigit : Bool) (count value : Nat) :
    List Char → Option (Nat × Nat)
  | [] => if afterDigit then some (count, value) else none
  | c :: cs =>
      if c = '_' then
        if afterDigit then digitsFrom? base false count value cs else none
      else
        match digitIn? base c with
        | some d => digitsFrom? base true (count + 1) (value * base + d) cs
        | none => none

/-- The value of digits in a base that is a power of two. -/
def digits? (base : Nat) (cs : List Char) : Option Nat :=
  (digitsFrom? base false 0 0 cs).map Prod.snd

/-- The value of decimal digits, of which there may be `maxDigits`. -/
def decimal? (cs : List Char) : Option Nat :=
  match digitsFrom? 10 false 0 0 cs with
  | some (count, value) => if count ≤ maxDigits then some value else none
  | none => none

/-- The base that a mark after a zero stands for. -/
def baseOfMark? (c : Char) : Option Nat :=
  match c.toLower with
  | 'x' => some 16
  | 'o' => some 8
  | 'b' => some 2
  | _ => none

/-- The value of a numeral without sign whose base is marked. One underscore may
follow the mark. Without a mark the base is ten, and a numeral that starts with
zero is zero. -/
def marked? : List Char → Option Nat
  | '0' :: mark :: cs =>
      match baseOfMark? mark, cs with
      | some base, '_' :: ds => digits? base ds
      | some base, ds => digits? base ds
      | none, ds => (decimal? ('0' :: mark :: ds)).filter (· = 0)
  | cs => decimal? cs

/-- A value with its sign. -/
def signed (negative : Bool) (value : Nat) : Int :=
  if negative then -(value : Int) else value

/-- Reads a whole number in base ten. -/
def integer? (cs : List Char) : Option Int :=
  let (negative, rest) := splitSign (plain cs)
  (decimal? rest).map (signed negative)

/-- Reads a whole number whose base is marked. -/
def markedInteger? (cs : List Char) : Option Int :=
  let (negative, rest) := splitSign (plain cs)
  (marked? rest).map (signed negative)

/-- The text without its underscores, each of which has to stand between two
decimal digits. `before` is the character before the text. -/
def dropUnderscores? (before : Char) : List Char → Option (List Char)
  | [] => if before = '_' then none else some []
  | c :: cs =>
      if c = '_' then
        if before.isDigit then dropUnderscores? c cs else none
      else if before = '_' ∧ c.isDigit = false then none
      else (dropUnderscores? c cs).map (c :: ·)

/-- The value of ASCII digits. -/
def digitsValue (cs : List Char) : Nat :=
  cs.foldl (fun value c => value * 10 + (c.toNat - 0x30)) 0

/-- The power of ten that ends a numeral: none at all, or `e`, a sign and digits. -/
def exponent? : List Char → Option Int
  | [] => some 0
  | c :: cs =>
      if c = 'e' ∨ c = 'E' then
        let (negative, ds) := splitSign cs
        if ds.isEmpty || !ds.all Char.isDigit then none
        else some (signed negative (digitsValue ds))
      else none

/-- Reads digits with a point among them and a power of ten after them. -/
def fraction? (negative : Bool) (cs : List Char) : Option Double :=
  let whole := cs.takeWhile Char.isDigit
  let rest := cs.dropWhile Char.isDigit
  let (places, rest) :=
    match rest with
    | '.' :: ds => (ds.takeWhile Char.isDigit, ds.dropWhile Char.isDigit)
    | ds => ([], ds)
  if whole.isEmpty && places.isEmpty then none
  else
    (exponent? rest).map fun power =>
      Double.ofDecimal negative (digitsValue (whole ++ places)) (power - places.length)

/-- Reads a double: digits, or the name of an infinity or of no number in any
case. -/
def double? (cs : List Char) : Option Double :=
  (dropUnderscores? ' ' (plain cs)).bind fun text =>
    let (negative, rest) := splitSign text
    let name := String.ofList (rest.map Char.toLower)
    if name = "inf" ∨ name = "infinity" then some (.infinite negative)
    else if name = "nan" then some .nan
    else fraction? negative rest

end CodeOutline.Numeral
