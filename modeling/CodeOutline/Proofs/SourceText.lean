import CodeOutline.Proofs.Text.Basic
import CodeOutline.Proofs.Text.Utf8
import CodeOutline.SourceText

/-!
# Bytes and characters of a source text

A byte that starts a character, or ends the text, is taken to the number of that
character, and bytes between two such places spell the characters between them. A later
byte never belongs to an earlier character.
-/

namespace CodeOutline

namespace SourceText

/-- The byte at which a character starts, by its number; for the number after the
last, the end of the text. -/
def byteAt (s : SourceText) (k : Nat) : Nat :=
  (Utf8.encode (s.chars.take k)).length

/-- A byte that starts a character or ends the text. -/
def IsBoundary (s : SourceText) (byte : Nat) : Prop :=
  ∃ k ≤ s.chars.length, byte = s.byteAt k

instance (s : SourceText) (byte : Nat) : Decidable (s.IsBoundary byte) :=
  inferInstanceAs (Decidable (∃ k, k ≤ s.chars.length ∧ byte = s.byteAt k))

/-! ## From bytes to characters -/

theorem utf8Size_eq_one {c : Char} (h : c.toNat < 128) : c.utf8Size = 1 := by
  have hle : c.val ≤ 0x7f := by
    rw [UInt32.le_iff_toNat_le]
    exact Nat.le_of_lt_succ h
  exact Char.utf8Size_eq_one_iff.mpr hle

theorem length_encode_of_ascii {cs : List Char} (h : ∀ c ∈ cs, c.toNat < 128) :
    (Utf8.encode cs).length = cs.length := by
  induction cs with
  | nil => rfl
  | cons c cs ih =>
    rw [Utf8.length_encode_cons, utf8Size_eq_one (h c (by simp)),
      ih fun c' hc' => h c' (List.mem_cons_of_mem c hc'), List.length_cons]
    omega

/-- At the byte where a character starts, the table of offsets has the number of characters
before it. -/
theorem getElem?_offsetsFrom (n : Nat) (cs : List Char) {k : Nat} (hk : k ≤ cs.length) :
    (offsetsFrom n cs)[(Utf8.encode (cs.take k)).length]? = some (n + k) := by
  induction cs generalizing n k with
  | nil =>
    obtain rfl : k = 0 := by simpa using hk
    rfl
  | cons c cs ih =>
    have hsize := Char.utf8Size_pos c
    cases k with
    | zero =>
      show (List.replicate c.utf8Size n ++ offsetsFrom (n + 1) cs)[0]? = some n
      rw [List.getElem?_append_left (by rw [List.length_replicate]; exact hsize),
        List.getElem?_replicate_of_lt hsize]
    | succ k =>
      -- past the bytes of the first character
      rw [List.take_succ_cons, Utf8.length_encode_cons, offsetsFrom,
        List.getElem?_append_right (by rw [List.length_replicate]; omega),
        List.length_replicate, Nat.add_sub_cancel_left, ih (n + 1) (by simpa using hk)]
      congr 1
      omega

/-- A character is found again at the byte at which it starts. -/
theorem offset_byteAt (s : SourceText) {k : Nat} (hk : k ≤ s.chars.length) :
    s.offset (s.byteAt k) = .ok k := by
  rw [offset]
  split <;> rename_i hascii
  · -- each character is one byte
    have hall : ∀ c ∈ s.chars.take k, c.toNat < 128 := by
      intro c hc
      have := List.all_eq_true.mp hascii c (List.mem_of_mem_take hc)
      simpa using this
    rw [byteAt, length_encode_of_ascii hall, List.length_take, Nat.min_eq_left hk]
  · have hget := getElem?_offsetsFrom 0 s.chars hk
    rw [Nat.zero_add] at hget
    rw [charOffsets, byteAt, hget]

theorem le_of_mem_offsetsFrom {n k : Nat} {cs : List Char} (h : k ∈ offsetsFrom n cs) : n ≤ k := by
  induction cs generalizing n with
  | nil => simp_all [offsetsFrom]
  | cons c cs ih =>
    rw [offsetsFrom, List.mem_append] at h
    rcases h with h | h
    · exact Nat.le_of_eq (List.eq_of_mem_replicate h).symm
    · have := ih h
      omega

theorem pairwise_offsetsFrom (n : Nat) (cs : List Char) : (offsetsFrom n cs).Pairwise (· ≤ ·) := by
  induction cs generalizing n with
  | nil => simp [offsetsFrom]
  | cons c cs ih =>
    rw [offsetsFrom, List.pairwise_append]
    refine ⟨by simp [List.pairwise_replicate], ih (n + 1), ?_⟩
    intro a ha b hb
    rw [List.eq_of_mem_replicate ha]
    have := le_of_mem_offsetsFrom hb
    omega

theorem offset_eq_ok {s : SourceText} {byte n : Nat} :
    s.offset byte = .ok n ↔
      if s.isAscii then byte = n else (charOffsets s.chars)[byte]? = some n := by
  unfold offset
  by_cases hascii : s.isAscii
  · simp [hascii]
  · simp only [hascii]
    cases (charOffsets s.chars)[byte]? <;> simp

/-- Later bytes belong to later characters, also those inside of one. -/
theorem offset_mono {s : SourceText} {a b i j : Nat} (hab : a ≤ b) (ha : s.offset a = .ok i)
    (hb : s.offset b = .ok j) : i ≤ j := by
  rw [offset_eq_ok] at ha hb
  by_cases hascii : s.isAscii
  · simp only [hascii, if_true] at ha hb
    omega
  · simp only [hascii] at ha hb
    obtain ⟨hlt, rfl⟩ := List.getElem?_eq_some_iff.mp ha
    obtain ⟨hlt', rfl⟩ := List.getElem?_eq_some_iff.mp hb
    rcases Nat.eq_or_lt_of_le hab with rfl | hlt
    · exact Nat.le_refl _
    · exact List.pairwise_iff_getElem.mp (pairwise_offsetsFrom 0 s.chars) _ _ _ hlt' hlt

/-! ## From characters to bytes -/

theorem charsBetween_byteAt (s : SourceText) (i j : Nat) :
    s.charsBetween (s.byteAt i) (s.byteAt j) = .ok ((s.chars.take j).drop i) := by
  have hbytes : (s.bytes.take (s.byteAt j)).drop (s.byteAt i) =
      Utf8.encode ((s.chars.take j).drop i) := by
    rw [s.bytes_eq]
    exact Slice.drop_take_spelledTo String.utf8EncodeChar s.chars i j
  simp only [charsBetween, hbytes, Utf8.decode_encode]

/-! ## Characters by bytes

A byte of a text is taken to the number of characters that end at it or before it. Hence
each byte of a character is taken to that character, and the end of the text to the number
of its characters. A text of one byte a character needs no table for this. -/

/-- How many characters end at a byte or before it. -/
def endedIn (cs : List Char) (byte : Nat) : Nat :=
  (List.range cs.length).countP fun k => (Utf8.encode (cs.take (k + 1))).length ≤ byte

/-- How many characters of a source text end at a byte or before it. -/
def endedBy (s : SourceText) (byte : Nat) : Nat :=
  endedIn s.chars byte

/-! ## Counting -/

theorem endedIn_cons_of_le {c : Char} {byte : Nat} (h : c.utf8Size ≤ byte) (cs : List Char) :
    endedIn (c :: cs) byte = endedIn cs (byte - c.utf8Size) + 1 := by
  have hfirst : (Utf8.encode [c]).length ≤ byte := by
    simpa [Utf8.encode] using h
  have hrest : ∀ k, (Utf8.encode (c :: cs.take (k + 1))).length ≤ byte ↔
      (Utf8.encode (cs.take (k + 1))).length ≤ byte - c.utf8Size := by
    intro k
    rw [Utf8.length_encode_cons]
    omega
  rw [endedIn, endedIn, List.length_cons, List.range_succ_eq_map, List.countP_cons, List.countP_map]
  simp [Function.comp_def, hfirst, hrest]

theorem endedIn_cons_of_lt {c : Char} {byte : Nat} (h : byte < c.utf8Size) (cs : List Char) :
    endedIn (c :: cs) byte = 0 := by
  rw [endedIn, List.countP_eq_zero]
  intro k _
  rw [List.take_succ_cons, Utf8.length_encode_cons, decide_eq_true_eq]
  omega

/-- The table holds at each byte how many characters have ended there. -/
theorem getElem?_offsetsFrom_endedIn (n : Nat) (cs : List Char) {byte : Nat}
    (h : byte ≤ (Utf8.encode cs).length) :
    (offsetsFrom n cs)[byte]? = some (n + endedIn cs byte) := by
  induction cs generalizing n byte with
  | nil =>
    obtain rfl : byte = 0 := by simpa [Utf8.encode] using h
    rfl
  | cons c cs ih =>
    rw [offsetsFrom]
    by_cases hbyte : byte < c.utf8Size
    · -- a byte of the first character
      rw [List.getElem?_append_left (by simpa using hbyte),
        List.getElem?_replicate_of_lt hbyte, endedIn_cons_of_lt hbyte]
      rfl
    · have hsize : c.utf8Size ≤ byte := Nat.le_of_not_lt hbyte
      rw [Utf8.length_encode_cons] at h
      rw [List.getElem?_append_right (by simpa using hsize), List.length_replicate,
        ih (n + 1) (by omega), endedIn_cons_of_le hsize]
      congr 1
      omega

/-- Before the end of a character, only those before it have ended. -/
theorem endedIn_le {cs : List Char} {k byte : Nat}
    (h : byte < (Utf8.encode (cs.take (k + 1))).length) : endedIn cs byte ≤ k := by
  induction cs generalizing k byte with
  | nil => exact Nat.zero_le k
  | cons c cs ih =>
    rw [List.take_succ_cons, Utf8.length_encode_cons] at h
    by_cases hbyte : byte < c.utf8Size
    · rw [endedIn_cons_of_lt hbyte]
      exact Nat.zero_le k
    · cases k with
      | zero =>
        simp [Utf8.encode] at h
        omega
      | succ k =>
        rw [endedIn_cons_of_le (Nat.le_of_not_lt hbyte)]
        have hrest : endedIn cs (byte - c.utf8Size) ≤ k := ih (by omega)
        omega

theorem endedIn_mono (cs : List Char) {a b : Nat} (h : a ≤ b) : endedIn cs a ≤ endedIn cs b := by
  apply List.countP_mono_left
  intro k _ hk
  rw [decide_eq_true_eq] at hk ⊢
  exact Nat.le_trans hk h

/-! ## Bytes of a source text -/

variable (s : SourceText)

theorem byteAt_length : s.byteAt s.chars.length = s.bytes.length := by
  rw [byteAt, List.take_length, s.bytes_eq]

theorem byteAt_le_length {k : Nat} (hk : k ≤ s.chars.length) : s.byteAt k ≤ s.bytes.length := by
  rw [← s.byteAt_length]
  exact Slice.spelledTo_le String.utf8EncodeChar s.chars hk

theorem getElem?_charOffsets {byte : Nat} (h : byte ≤ s.bytes.length) :
    (charOffsets s.chars)[byte]? = some (s.endedBy byte) := by
  rw [s.bytes_eq] at h
  have hget := getElem?_offsetsFrom_endedIn 0 s.chars h
  rwa [Nat.zero_add] at hget

theorem endedBy_byteAt {k : Nat} (hk : k ≤ s.chars.length) : s.endedBy (s.byteAt k) = k := by
  -- both are what the table holds there
  have hended := s.getElem?_charOffsets (s.byteAt_le_length hk)
  rw [charOffsets, byteAt, getElem?_offsetsFrom 0 s.chars hk, Nat.zero_add] at hended
  exact (Option.some.inj hended).symm

theorem byteAt_of_isAscii (hascii : s.isAscii = true) {k : Nat} (hk : k ≤ s.chars.length) :
    s.byteAt k = k := by
  have hoffset := s.offset_byteAt hk
  rw [offset, if_pos hascii] at hoffset
  exact Except.ok.inj hoffset

/-- The offset of a byte of the text is the number of characters that have ended there, in an
ASCII text as in any other. -/
theorem offset_eq_endedBy {byte : Nat} (h : byte ≤ s.bytes.length) :
    s.offset byte = .ok (s.endedBy byte) := by
  by_cases hascii : s.isAscii = true
  · -- the shortcut: as many bytes as characters come before
    rw [← s.byteAt_length, s.byteAt_of_isAscii hascii (Nat.le_refl _)] at h
    have hended := s.endedBy_byteAt h
    rw [s.byteAt_of_isAscii hascii h] at hended
    rw [offset, if_pos hascii, hended]
  · rw [offset, if_neg hascii, s.getElem?_charOffsets h]

/-- How bytes are taken to characters. -/
structure CountsCharacters : Prop where
  /-- A byte is taken to the number of characters that end at it or before it. -/
  ended : ∀ byte ≤ s.bytes.length, s.offset byte = .ok (s.endedBy byte)
  /-- The table holds the same, also where it is not used. -/
  table : ∀ byte ≤ s.bytes.length, (charOffsets s.chars)[byte]? = some (s.endedBy byte)
  /-- Each byte of a character is taken to that character. -/
  inside : ∀ k < s.chars.length, ∀ byte, s.byteAt k ≤ byte → byte < s.byteAt (k + 1) →
    s.offset byte = .ok k
  whole : s.offset s.bytes.length = .ok s.chars.length
  mono : ∀ a b i j, a ≤ b → s.offset a = .ok i → s.offset b = .ok j → i ≤ j
  /-- The text of a node lies between the characters to which its ends are taken. -/
  slice : ∀ n : Node, s.IsBoundary n.start → s.IsBoundary n.stop → n.start ≤ n.stop →
    ∃ i j : Nat, s.offset n.start = .ok i ∧ s.offset n.stop = .ok j ∧ i ≤ j ∧
      s.textOf n = .ok (String.ofList (Slice.between s.chars i j))

/-- A byte inside of a character counts as its start. -/
theorem endedBy_inside {k byte : Nat} (hk : k < s.chars.length) (hstart : s.byteAt k ≤ byte)
    (hstop : byte < s.byteAt (k + 1)) : s.endedBy byte = k := by
  have hle : s.endedBy byte ≤ k := endedIn_le hstop
  have hge : s.endedBy (s.byteAt k) ≤ s.endedBy byte := endedIn_mono s.chars hstart
  rw [s.endedBy_byteAt (Nat.le_of_lt hk)] at hge
  exact Nat.le_antisymm hle hge

/-- A node that starts and ends between characters has the text between them. -/
theorem textOf_of_isBoundary {n : Node} (hstart : s.IsBoundary n.start)
    (hstop : s.IsBoundary n.stop) : ∃ i j : Nat, s.offset n.start = .ok i ∧
      s.offset n.stop = .ok j ∧ s.textOf n = .ok (String.ofList (Slice.between s.chars i j)) := by
  obtain ⟨i, hi, hstart⟩ := hstart
  obtain ⟨j, hj, hstop⟩ := hstop
  refine ⟨i, j, ?_, ?_, ?_⟩
  · rw [hstart, s.offset_byteAt hi]
  · rw [hstop, s.offset_byteAt hj]
  · rw [textOf, charsOf, hstart, hstop, s.charsBetween_byteAt, Slice.between_ofNat]
    rfl

/-- Bytes are counted in characters, for every text. -/
theorem countsCharacters : s.CountsCharacters where
  ended _ h := s.offset_eq_endedBy h
  table _ h := s.getElem?_charOffsets h
  inside k hk byte hstart hstop := by
    have hlength : byte ≤ s.bytes.length :=
      Nat.le_of_lt (Nat.lt_of_lt_of_le hstop (s.byteAt_le_length hk))
    rw [s.offset_eq_endedBy hlength, s.endedBy_inside hk hstart hstop]
  whole := by
    rw [← s.byteAt_length]
    exact s.offset_byteAt (Nat.le_refl _)
  mono _ _ _ _ h ha hb := offset_mono h ha hb
  slice n hstart hstop hle := by
    obtain ⟨i, j, hi, hj, htext⟩ := s.textOf_of_isBoundary hstart hstop
    exact ⟨i, j, hi, hj, offset_mono hle hi hj, htext⟩

-- one, two, four and one bytes, and the end
example : charOffsets "aé🎉b".toList = [0, 1, 1, 2, 2, 2, 2, 3, 4] := by decide

end SourceText

end CodeOutline
