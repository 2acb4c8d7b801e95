import CodeOutline.Text.Quoted

/-!
# UTF-8

Text is stored as bytes, one to four for each character. Reading bytes stops at
the first place that no text can have, and says which bytes are at fault: a
first byte that starts no character, the part of a character before a byte that
cannot continue it, or the part of a character at which the bytes end.
-/

namespace CodeOutline.Utf8

/-- The bytes of a text. -/
def encode (cs : List Char) : List UInt8 :=
  cs.flatMap String.utf8EncodeChar

/-- Why bytes are no text. -/
inductive Reason where
  /-- No character starts with this byte. -/
  | badStart
  /-- The byte after the faulty ones does not continue their character. -/
  | badContinuation
  /-- The bytes end inside a character. -/
  | truncated
deriving Repr, DecidableEq

/-- Bytes that are no text: those from `start` up to `stop`, the first being `lead`. -/
structure Invalid where
  start : Nat
  stop : Nat
  lead : UInt8
  reason : Reason
deriving Repr, DecidableEq

/-- A character of which some bytes are still to come. -/
structure Partial where
  /-- The place of its first byte. -/
  start : Nat
  /-- Its first byte. -/
  lead : UInt8
  /-- The bits read so far. -/
  bits : Nat
  /-- The bytes to come. -/
  owed : Nat
  /-- The least value that the next byte may have. -/
  low : UInt8
  /-- The greatest value that the next byte may have. -/
  high : UInt8
deriving Repr, DecidableEq

/-- What the first byte of a character of several bytes says about the rest. The
bounds on the second byte keep out spellings longer than needed, surrogates and
what lies beyond the last code point. -/
def open? (start : Nat) (b : UInt8) : Option Partial :=
  if 0xc2 ≤ b ∧ b ≤ 0xdf then some ⟨start, b, b.toNat - 0xc0, 1, 0x80, 0xbf⟩
  else if b = 0xe0 then some ⟨start, b, 0, 2, 0xa0, 0xbf⟩
  else if b = 0xed then some ⟨start, b, 0xd, 2, 0x80, 0x9f⟩
  else if 0xe1 ≤ b ∧ b ≤ 0xef then some ⟨start, b, b.toNat - 0xe0, 2, 0x80, 0xbf⟩
  else if b = 0xf0 then some ⟨start, b, 0, 3, 0x90, 0xbf⟩
  else if 0xf1 ≤ b ∧ b ≤ 0xf3 then some ⟨start, b, b.toNat - 0xf0, 3, 0x80, 0xbf⟩
  else if b = 0xf4 then some ⟨start, b, 4, 3, 0x80, 0x8f⟩
  else none

/-- The text of the bytes from place `n` on, inside a character or between two. -/
def decodeFrom : Nat → Option Partial → List UInt8 → Except Invalid (List Char)
  | _, none, [] => .ok []
  | n, some p, [] => .error ⟨p.start, n, p.lead, .truncated⟩
  | n, none, b :: bs =>
      if b < 0x80 then (Char.ofNat b.toNat :: ·) <$> decodeFrom (n + 1) none bs
      else
        match open? n b with
        | some p => decodeFrom (n + 1) (some p) bs
        | none => .error ⟨n, n + 1, b, .badStart⟩
  | n, some p, b :: bs =>
      if p.low ≤ b ∧ b ≤ p.high then
        let bits := p.bits * 64 + (b.toNat - 0x80)
        if p.owed ≤ 1 then (Char.ofNat bits :: ·) <$> decodeFrom (n + 1) none bs
        else
          decodeFrom (n + 1)
            (some { p with bits := bits, owed := p.owed - 1, low := 0x80, high := 0xbf }) bs
      else .error ⟨p.start, n, p.lead, .badContinuation⟩

/-- The text that bytes spell. -/
def decode (bytes : List UInt8) : Except Invalid (List Char) :=
  decodeFrom 0 none bytes

/-- What is said of bytes that are no text. -/
def Reason.message : Reason → String
  | .badStart => "invalid start byte"
  | .badContinuation => "invalid continuation byte"
  | .truncated => "unexpected end of data"

/-- Names the faulty byte, or the places of several, and the reason. -/
def Invalid.message (e : Invalid) : String :=
  let site :=
    if e.stop = e.start + 1 then
      "byte 0x" ++ String.ofList (Text.hexDigits 2 e.lead.toNat) ++ " in position " ++
        toString e.start
    else
      "bytes in position " ++ toString e.start ++ "-" ++ toString (e.stop - 1)
  "'utf-8' codec can't decode " ++ site ++ ": " ++ e.reason.message

example : decode [0x61, 0xc3, 0xa9] = .ok ['a', 'é'] := rfl

example : decode [0xe2, 0x82] = .error ⟨0, 2, 0xe2, .truncated⟩ := rfl

example : decode [0xed, 0xa0, 0x80] = .error ⟨0, 1, 0xed, .badContinuation⟩ := rfl

end CodeOutline.Utf8
