/-!
# Texts

Texts are lists of characters here. They are cut by offsets and trimmed, words are looked
for in them, and their characters are told apart: those that separate words, those that
are digits, and those that end a line.
-/

namespace CodeOutline

/-! ## Slices by signed offsets

An offset into a sequence may be any integer. A negative offset counts from
the end, and an offset past either end is taken to that end, so that a slice
exists for every pair of offsets. A single element is stricter: it exists only
for an index that names one. -/

namespace Slice

variable {α : Type}

/-- The place in a sequence of length `n` that a signed offset names. -/
def resolve (n : Nat) (offset : Int) : Nat :=
  if offset < 0 then (offset + n).toNat else min offset.toNat n

/-- The part of `xs` from `start` up to, and without, `stop`. -/
def between (xs : List α) (start stop : Int) : List α :=
  let first := resolve xs.length start
  (xs.take (resolve xs.length stop)).drop first

/-- The element at a signed index, if the index names one. -/
def get? (xs : List α) (index : Int) : Option α :=
  if 0 ≤ index then xs[index.toNat]?
  else if 0 ≤ index + xs.length then xs[(index + xs.length).toNat]?
  else none

theorem resolve_ofNat (n k : Nat) : resolve n (k : Int) = min k n := by
  have h : ¬ (k : Int) < 0 := by omega
  simp [resolve, h]

@[simp] theorem get?_ofNat (xs : List α) (k : Nat) : get? xs (k : Int) = xs[k]? := by
  simp [get?]

/-- Between offsets counted from the front, a slice takes and drops. -/
theorem between_ofNat (xs : List α) (i j : Nat) :
    between xs (i : Int) (j : Int) = (xs.take j).drop i := by
  have htake : xs.take (min j xs.length) = xs.take j := by
    rcases Nat.le_total j xs.length with h | h
    · rw [Nat.min_eq_left h]
    · rw [Nat.min_eq_right h, List.take_of_length_le h, List.take_length]
  rw [between, resolve_ofNat, resolve_ofNat, htake]
  rcases Nat.le_total i xs.length with h | h
  · rw [Nat.min_eq_left h]
  · rw [Nat.min_eq_right h, List.drop_eq_nil_of_le (List.length_take_le' _ _),
      List.drop_eq_nil_of_le (Nat.le_trans (List.length_take_le' _ _) h)]

end Slice

/-! ## Occurrences of a word in a text

A word may occur several times, and its occurrences may overlap; each one
counts. -/

namespace Search

/-- The places at which `word` stands in `text`, ascending, the first character
of `text` having number `n`. -/
def occurrencesFrom (word : List Char) : Nat → List Char → List Nat
  | n, [] => if word.isEmpty then [n] else []
  | n, c :: cs =>
      if word.isPrefixOf (c :: cs) then n :: occurrencesFrom word (n + 1) cs
      else occurrencesFrom word (n + 1) cs

/-- The places at which `word` stands in `text`, ascending. -/
def occurrences (word text : List Char) : List Nat :=
  occurrencesFrom word 0 text

/-- How a word occurs in a text. -/
inductive Sighting where
  /-- Nowhere. -/
  | absent
  /-- Only at this place. -/
  | unique (place : Nat)
  /-- At this place first, and again later. -/
  | repeated (first : Nat)
deriving Repr, DecidableEq

/-- How `word` occurs in `text`. The empty word is never sighted. -/
def sight (word text : List Char) : Sighting :=
  if word.isEmpty then .absent
  else
    match occurrences word text with
    | [] => .absent
    | [place] => .unique place
    | first :: _ :: _ => .repeated first

end Search

/-! ## Blank characters

The characters of Unicode that separate words: those with a bidirectional type
of white space, or paragraph or segment separator, and the space separators. -/

namespace Text

/-- The blank characters, as inclusive ranges of code points. -/
def blankRanges : List (Nat × Nat) :=
  [(0x09, 0x0d), (0x1c, 0x20), (0x85, 0x85), (0xa0, 0xa0), (0x1680, 0x1680),
   (0x2000, 0x200a), (0x2028, 0x2029), (0x202f, 0x202f), (0x205f, 0x205f), (0x3000, 0x3000)]

/-- Whether a character separates words. -/
def isBlank (c : Char) : Bool :=
  blankRanges.any fun (first, last) => first ≤ c.toNat && c.toNat ≤ last

/-- The text without what satisfies `p` at its end. -/
def trimEnd (p : Char → Bool) (cs : List Char) : List Char :=
  (cs.reverse.dropWhile p).reverse

/-- The text without what satisfies `p` at its start and at its end. -/
def trim (p : Char → Bool) (cs : List Char) : List Char :=
  trimEnd p (cs.dropWhile p)

example : blankRanges.Pairwise (fun a b => a.2 < b.1) := by decide

/-! ## Decimal digits

Unicode has many sets of decimal digits. Each set is ten consecutive code
points that stand for zero to nine. -/

/-- The code points of the digits zero, ascending. -/
def digitZeros : List Nat :=
  [0x30, 0x660, 0x6f0, 0x7c0, 0x966, 0x9e6, 0xa66, 0xae6, 0xb66, 0xbe6, 0xc66, 0xce6, 0xd66,
   0xde6, 0xe50, 0xed0, 0xf20, 0x1040, 0x1090, 0x17e0, 0x1810, 0x1946, 0x19d0, 0x1a80, 0x1a90,
   0x1b50, 0x1bb0, 0x1c40, 0x1c50, 0xa620, 0xa8d0, 0xa900, 0xa9d0, 0xa9f0, 0xaa50, 0xabf0,
   0xff10, 0x104a0, 0x10d30, 0x11066, 0x110f0, 0x11136, 0x111d0, 0x112f0, 0x11450, 0x114d0,
   0x11650, 0x116c0, 0x11730, 0x118e0, 0x11950, 0x11c50, 0x11d50, 0x11da0, 0x16a60, 0x16ac0,
   0x16b50, 0x1d7ce, 0x1d7d8, 0x1d7e2, 0x1d7ec, 0x1d7f6, 0x1e140, 0x1e2f0, 0x1e950, 0x1fbf0]

/-- The value of a decimal digit of any script. -/
def digitValue? (c : Char) : Option Nat :=
  (digitZeros.find? fun z => z ≤ c.toNat && c.toNat < z + 10).map (c.toNat - ·)

example : digitZeros.Pairwise (fun a b => a + 10 ≤ b) := by decide

/-! ## Line breaks

Stored text may end its lines with CR LF, with CR alone or with LF. Read into a
document, every line break is one LF. -/

/-- The text with every CR LF and every lone CR turned into LF. -/
def unifyNewlines : List Char → List Char
  | [] => []
  | '\r' :: '\n' :: cs => '\n' :: unifyNewlines cs
  | '\r' :: cs => '\n' :: unifyNewlines cs
  | c :: cs => c :: unifyNewlines cs

end Text

end CodeOutline
