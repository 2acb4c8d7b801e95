import CodeOutline.Text.Utf8

/-!
# Reading UTF-8 back

The bytes of a text spell that text, and no other bytes are read. Each character is
read back by itself, by the number of its bytes, so that what follows it does not
matter. Conversely, a character that is partly read is spelled by the bytes seen of it
together with any bytes that may end it.
-/

namespace CodeOutline.Utf8

/-! ## One byte -/

theorem decodeFrom_open {n : Nat} {b : UInt8} {p : Partial} (hb : 0x80 ≤ b.toNat)
    (ho : open? n b = some p) (rest : List UInt8) :
    decodeFrom n none (b :: rest) = decodeFrom (n + 1) (some p) rest := by
  have hnot : ¬ b < 0x80 := by
    rw [UInt8.lt_iff_toNat_lt]
    exact Nat.not_lt.mpr hb
  simp only [decodeFrom, if_neg hnot, ho]

theorem decodeFrom_more {n : Nat} {p : Partial} {b : UInt8} (hlow : p.low.toNat ≤ b.toNat)
    (hhigh : b.toNat ≤ p.high.toNat) (howed : 1 < p.owed) (rest : List UInt8) :
    decodeFrom n (some p) (b :: rest) =
      decodeFrom (n + 1)
        (some { p with bits := p.bits * 64 + (b.toNat - 0x80), owed := p.owed - 1,
                       low := 0x80, high := 0xbf }) rest := by
  have hin : p.low ≤ b ∧ b ≤ p.high :=
    ⟨UInt8.le_iff_toNat_le.mpr hlow, UInt8.le_iff_toNat_le.mpr hhigh⟩
  simp only [decodeFrom, if_pos hin, if_neg (Nat.not_le.mpr howed)]

theorem decodeFrom_last {n : Nat} {p : Partial} {b : UInt8} (hlow : p.low.toNat ≤ b.toNat)
    (hhigh : b.toNat ≤ p.high.toNat) (howed : p.owed ≤ 1) (rest : List UInt8) :
    decodeFrom n (some p) (b :: rest) =
      (Char.ofNat (p.bits * 64 + (b.toNat - 0x80)) :: ·) <$> decodeFrom (n + 1) none rest := by
  have hin : p.low ≤ b ∧ b ≤ p.high :=
    ⟨UInt8.le_iff_toNat_le.mpr hlow, UInt8.le_iff_toNat_le.mpr hhigh⟩
  simp only [decodeFrom, if_pos hin, if_pos howed]

/-! ## The first byte of a character -/

theorem open?_two {n k : Nat} (h₁ : 0xc2 ≤ k) (h₂ : k ≤ 0xdf) :
    open? n (UInt8.ofNat k) = some ⟨n, UInt8.ofNat k, k - 0xc0, 1, 0x80, 0xbf⟩ := by
  have hk : (UInt8.ofNat k).toNat = k := UInt8.toNat_ofNat_of_lt' (by grind)
  have hin : 0xc2 ≤ UInt8.ofNat k ∧ UInt8.ofNat k ≤ 0xdf := by
    rw [UInt8.le_iff_toNat_le, UInt8.le_iff_toNat_le, hk]
    exact ⟨h₁, h₂⟩
  rw [open?, if_pos hin, hk]

/-- The bounds on the second of three bytes, by the first. -/
theorem open?_three {n k : Nat} (h₁ : 0xe0 ≤ k) (h₂ : k ≤ 0xef) :
    ∃ low high, open? n (UInt8.ofNat k) = some ⟨n, UInt8.ofNat k, k - 0xe0, 2, low, high⟩ ∧
      low.toNat = (if k = 0xe0 then 0xa0 else 0x80) ∧
      high.toNat = (if k = 0xed then 0x9f else 0xbf) := by
  have hk : (UInt8.ofNat k).toNat = k := UInt8.toNat_ofNat_of_lt' (by grind)
  have hout : ¬ (0xc2 ≤ UInt8.ofNat k ∧ UInt8.ofNat k ≤ 0xdf) := by
    rw [UInt8.le_iff_toNat_le, UInt8.le_iff_toNat_le, hk]
    show ¬ (0xc2 ≤ k ∧ k ≤ 0xdf)
    omega
  by_cases h0 : k = 0xe0
  · subst h0
    exact ⟨0xa0, 0xbf, rfl, rfl, rfl⟩
  by_cases hd : k = 0xed
  · subst hd
    exact ⟨0x80, 0x9f, rfl, rfl, rfl⟩
  have h0' : UInt8.ofNat k ≠ 0xe0 := fun h => h0 (by rw [← hk, h]; rfl)
  have hd' : UInt8.ofNat k ≠ 0xed := fun h => hd (by rw [← hk, h]; rfl)
  have hin : 0xe1 ≤ UInt8.ofNat k ∧ UInt8.ofNat k ≤ 0xef := by
    rw [UInt8.le_iff_toNat_le, UInt8.le_iff_toNat_le, hk]
    show 0xe1 ≤ k ∧ k ≤ 0xef
    omega
  refine ⟨0x80, 0xbf, ?_, ?_, ?_⟩
  · rw [open?, if_neg hout, if_neg h0', if_neg hd', if_pos hin, hk]
  · rw [if_neg h0]
    rfl
  · rw [if_neg hd]
    rfl

/-- The bounds on the second of four bytes, by the first. -/
theorem open?_four {n k : Nat} (h₁ : 0xf0 ≤ k) (h₂ : k ≤ 0xf4) :
    ∃ low high, open? n (UInt8.ofNat k) = some ⟨n, UInt8.ofNat k, k - 0xf0, 3, low, high⟩ ∧
      low.toNat = (if k = 0xf0 then 0x90 else 0x80) ∧
      high.toNat = (if k = 0xf4 then 0x8f else 0xbf) := by
  have hcases : k = 0xf0 ∨ k = 0xf1 ∨ k = 0xf2 ∨ k = 0xf3 ∨ k = 0xf4 := by omega
  rcases hcases with rfl | rfl | rfl | rfl | rfl
  · exact ⟨0x90, 0xbf, rfl, rfl, rfl⟩
  · exact ⟨0x80, 0xbf, rfl, rfl, rfl⟩
  · exact ⟨0x80, 0xbf, rfl, rfl, rfl⟩
  · exact ⟨0x80, 0xbf, rfl, rfl, rfl⟩
  · exact ⟨0x80, 0x8f, rfl, rfl, rfl⟩

/-! ## Characters by the number of their bytes -/

theorem decodeFrom_one {v : Nat} (h : v ≤ 0x7f) (n : Nat) (rest : List UInt8) :
    decodeFrom n none (UInt8.ofNat v :: rest) =
      (Char.ofNat v :: ·) <$> decodeFrom (n + 1) none rest := by
  have hb : (UInt8.ofNat v).toNat = v := UInt8.toNat_ofNat_of_lt' (by grind)
  have hlt : UInt8.ofNat v < 0x80 := by
    rw [UInt8.lt_iff_toNat_lt, hb]
    exact Nat.lt_succ_of_le h
  rw [decodeFrom, if_pos hlt, hb]

theorem decodeFrom_two {v : Nat} (h₁ : 0x7f < v) (h₂ : v ≤ 0x7ff) (n : Nat) (rest : List UInt8) :
    decodeFrom n none
        (UInt8.ofNat (v / 64 % 0x20 + 0xc0) :: UInt8.ofNat (v % 0x40 + 0x80) :: rest) =
      (Char.ofNat v :: ·) <$> decodeFrom (n + 2) none rest := by
  have hlead : (UInt8.ofNat (v / 64 % 0x20 + 0xc0)).toNat = v / 64 % 0x20 + 0xc0 :=
    UInt8.toNat_ofNat_of_lt' (by grind)
  have hlast : (UInt8.ofNat (v % 0x40 + 0x80)).toNat = v % 0x40 + 0x80 :=
    UInt8.toNat_ofNat_of_lt' (by grind)
  rw [decodeFrom_open (by omega) (open?_two (by omega) (by omega)), decodeFrom_last, hlast]
  · rw [show (v / 64 % 0x20 + 0xc0 - 0xc0) * 64 + (v % 0x40 + 0x80 - 0x80) = v by omega]
  · show 0x80 ≤ _
    omega
  · show _ ≤ 0xbf
    omega
  · exact Nat.le_refl 1

/-- The bounds on the second byte hold as no code point is a surrogate and none is
spelled longer than needed. -/
theorem decodeFrom_three {v : Nat} (h₁ : 0x7ff < v) (h₂ : v ≤ 0xffff)
    (hvalid : v < 0xd800 ∨ 0xdfff < v) (n : Nat) (rest : List UInt8) :
    decodeFrom n none (UInt8.ofNat (v / 4096 % 0x10 + 0xe0) ::
        UInt8.ofNat (v / 64 % 0x40 + 0x80) :: UInt8.ofNat (v % 0x40 + 0x80) :: rest) =
      (Char.ofNat v :: ·) <$> decodeFrom (n + 3) none rest := by
  have hlead : (UInt8.ofNat (v / 4096 % 0x10 + 0xe0)).toNat = v / 4096 % 0x10 + 0xe0 :=
    UInt8.toNat_ofNat_of_lt' (by grind)
  have hmid : (UInt8.ofNat (v / 64 % 0x40 + 0x80)).toNat = v / 64 % 0x40 + 0x80 :=
    UInt8.toNat_ofNat_of_lt' (by grind)
  have hlast : (UInt8.ofNat (v % 0x40 + 0x80)).toNat = v % 0x40 + 0x80 :=
    UInt8.toNat_ofNat_of_lt' (by grind)
  obtain ⟨low, high, hopen, hlow, hhigh⟩ :=
    open?_three (n := n) (k := v / 4096 % 0x10 + 0xe0) (by omega) (by omega)
  rw [decodeFrom_open (by omega) hopen, decodeFrom_more, decodeFrom_last, hmid, hlast]
  · rw [show ((v / 4096 % 0x10 + 0xe0 - 0xe0) * 64 + (v / 64 % 0x40 + 0x80 - 0x80)) * 64 +
      (v % 0x40 + 0x80 - 0x80) = v by omega]
  · show 0x80 ≤ _
    omega
  · show _ ≤ 0xbf
    omega
  · exact Nat.le_refl 1
  · show low.toNat ≤ _
    rw [hlow, hmid]
    split <;> omega
  · show _ ≤ high.toNat
    rw [hhigh, hmid]
    split <;> omega
  · exact Nat.lt_succ_self 1

theorem decodeFrom_four {v : Nat} (h₁ : 0xffff < v) (h₂ : v < 0x110000) (n : Nat)
    (rest : List UInt8) :
    decodeFrom n none (UInt8.ofNat (v / 262144 % 0x08 + 0xf0) ::
        UInt8.ofNat (v / 4096 % 0x40 + 0x80) :: UInt8.ofNat (v / 64 % 0x40 + 0x80) ::
        UInt8.ofNat (v % 0x40 + 0x80) :: rest) =
      (Char.ofNat v :: ·) <$> decodeFrom (n + 4) none rest := by
  have hlead : (UInt8.ofNat (v / 262144 % 0x08 + 0xf0)).toNat = v / 262144 % 0x08 + 0xf0 :=
    UInt8.toNat_ofNat_of_lt' (by grind)
  have hsecond : (UInt8.ofNat (v / 4096 % 0x40 + 0x80)).toNat = v / 4096 % 0x40 + 0x80 :=
    UInt8.toNat_ofNat_of_lt' (by grind)
  have hthird : (UInt8.ofNat (v / 64 % 0x40 + 0x80)).toNat = v / 64 % 0x40 + 0x80 :=
    UInt8.toNat_ofNat_of_lt' (by grind)
  have hlast : (UInt8.ofNat (v % 0x40 + 0x80)).toNat = v % 0x40 + 0x80 :=
    UInt8.toNat_ofNat_of_lt' (by grind)
  obtain ⟨low, high, hopen, hlow, hhigh⟩ :=
    open?_four (n := n) (k := v / 262144 % 0x08 + 0xf0) (by omega) (by omega)
  rw [decodeFrom_open (by omega) hopen, decodeFrom_more, decodeFrom_more, decodeFrom_last, hsecond,
    hthird, hlast]
  · rw [show (((v / 262144 % 0x08 + 0xf0 - 0xf0) * 64 + (v / 4096 % 0x40 + 0x80 - 0x80)) * 64 +
      (v / 64 % 0x40 + 0x80 - 0x80)) * 64 + (v % 0x40 + 0x80 - 0x80) = v by omega]
  · show 0x80 ≤ _
    omega
  · show _ ≤ 0xbf
    omega
  · exact Nat.le_refl 1
  · show 0x80 ≤ _
    omega
  · show _ ≤ 0xbf
    omega
  · exact Nat.lt_succ_self 1
  · show low.toNat ≤ _
    rw [hlow, hsecond]
    split <;> omega
  · show _ ≤ high.toNat
    rw [hhigh, hsecond]
    split <;> omega
  · show 1 < 3
    omega

/-- The bytes of a character spell it, whatever follows. -/
theorem decodeFrom_utf8EncodeChar (n : Nat) (c : Char) (rest : List UInt8) :
    ∃ m, decodeFrom n none (String.utf8EncodeChar c ++ rest) =
      (c :: ·) <$> decodeFrom m none rest := by
  have hvalid : c.val.toNat < 0xd800 ∨ 0xdfff < c.val.toNat ∧ c.val.toNat < 0x110000 := c.valid
  have hback : Char.ofNat c.val.toNat = c := Char.ofNat_toNat c
  unfold String.utf8EncodeChar
  -- the bytes depend on the code point alone
  generalize c.val.toNat = v at hvalid hback
  subst hback
  dsimp only
  split
  · exact ⟨_, decodeFrom_one (by assumption) n rest⟩
  · split
    · exact ⟨_, decodeFrom_two (by omega) (by assumption) n rest⟩
    · split
      · exact ⟨_, decodeFrom_three (by omega) (by assumption) (by omega) n rest⟩
      · exact ⟨_, decodeFrom_four (by omega) (by omega) n rest⟩

theorem encode_cons (c : Char) (cs : List Char) :
    encode (c :: cs) = String.utf8EncodeChar c ++ encode cs := rfl

theorem decodeFrom_encode (n : Nat) (cs : List Char) :
    decodeFrom n none (encode cs) = .ok cs := by
  induction cs generalizing n with
  | nil => rfl
  | cons c cs ih =>
    obtain ⟨m, hm⟩ := decodeFrom_utf8EncodeChar n c (encode cs)
    rw [encode_cons, hm, ih m]
    rfl

/-- The bytes of a text spell that text. -/
theorem decode_encode (cs : List Char) : decode (encode cs) = .ok cs :=
  decodeFrom_encode 0 cs

theorem length_encode_cons (c : Char) (cs : List Char) :
    (encode (c :: cs)).length = c.utf8Size + (encode cs).length := by
  simp [encode]

/-! ## What is read is spelled -/

namespace Partial

/-- The character with one more byte read. -/
def next (p : Partial) (b : UInt8) : Partial :=
  { p with bits := p.bits * 64 + (b.toNat - 0x80), owed := p.owed - 1, low := 0x80, high := 0xbf }

/-- The bytes that may end a character, as many as it owes and each within its bounds,
with the code point that they end at. -/
inductive Ends : Partial → List UInt8 → Nat → Prop
  | done {p : Partial} (howed : p.owed = 0) : Ends p [] p.bits
  | more {p : Partial} {b : UInt8} {rest : List UInt8} {v : Nat} (howed : 0 < p.owed)
      (hlow : p.low.toNat ≤ b.toNat) (hhigh : b.toNat ≤ p.high.toNat)
      (h : Ends (p.next b) rest v) : Ends p (b :: rest) v

theorem Ends.of_owed_zero {p : Partial} {rest : List UInt8} {v : Nat} (h : p.Ends rest v)
    (howed : p.owed = 0) : rest = [] ∧ v = p.bits := by
  cases h with
  | done _ => exact ⟨rfl, rfl⟩
  | more hpos _ _ _ => omega

theorem Ends.of_owed_pos {p : Partial} {rest : List UInt8} {v : Nat} (h : p.Ends rest v)
    (howed : 0 < p.owed) : ∃ b rest', rest = b :: rest' ∧ p.low.toNat ≤ b.toNat ∧
      b.toNat ≤ p.high.toNat ∧ (p.next b).Ends rest' v := by
  cases h with
  | done hzero => omega
  | more _ hlow hhigh h => exact ⟨_, _, rfl, hlow, hhigh, h⟩

/-- Whatever bytes end a character, it is spelled by those seen of it and these. -/
def Begun (p : Partial) (seen : List UInt8) : Prop :=
  ∀ rest v, p.Ends rest v → String.utf8EncodeChar (Char.ofNat v) = seen ++ rest

theorem Begun.next {p : Partial} {seen : List UInt8} {b : UInt8} (h : p.Begun seen)
    (howed : 0 < p.owed) (hlow : p.low.toNat ≤ b.toNat) (hhigh : b.toNat ≤ p.high.toNat) :
    (p.next b).Begun (seen ++ [b]) := by
  intro rest v hrest
  rw [List.append_assoc, List.singleton_append]
  exact h (b :: rest) v (.more howed hlow hhigh hrest)

/-- With no byte owed, a character is spelled by the bytes seen of it. -/
theorem Begun.spelled {p : Partial} {seen : List UInt8} (h : p.Begun seen) (howed : p.owed = 0) :
    String.utf8EncodeChar (Char.ofNat p.bits) = seen := by
  have hspelled := h [] p.bits (.done howed)
  rwa [List.append_nil] at hspelled

end Partial

theorem ofNat_eq_of_toNat {b : UInt8} {k : Nat} (h : b.toNat = k) : UInt8.ofNat k = b := by
  rw [← h]
  exact UInt8.ofNat_toNat

/-- The bytes of a code point, by its size. -/
theorem utf8EncodeChar_ofNat {v : Nat} (h : v < 0xd800 ∨ 0xdfff < v ∧ v < 0x110000) :
    String.utf8EncodeChar (Char.ofNat v) =
      if v ≤ 0x7f then [UInt8.ofNat v]
      else if v ≤ 0x7ff then [UInt8.ofNat (v / 64 % 0x20 + 0xc0), UInt8.ofNat (v % 0x40 + 0x80)]
      else if v ≤ 0xffff then
        [UInt8.ofNat (v / 4096 % 0x10 + 0xe0), UInt8.ofNat (v / 64 % 0x40 + 0x80),
         UInt8.ofNat (v % 0x40 + 0x80)]
      else
        [UInt8.ofNat (v / 262144 % 0x08 + 0xf0), UInt8.ofNat (v / 4096 % 0x40 + 0x80),
         UInt8.ofNat (v / 64 % 0x40 + 0x80), UInt8.ofNat (v % 0x40 + 0x80)] := by
  have hvalid : v.isValidChar := h
  have hv : (Char.ofNat v).val.toNat = v := by
    rw [Char.ofNat, dif_pos hvalid]
    rfl
  unfold String.utf8EncodeChar
  rw [hv]

theorem utf8EncodeChar_two {a b : UInt8} (ha : 0xc2 ≤ a.toNat) (ha' : a.toNat ≤ 0xdf)
    (hb : 0x80 ≤ b.toNat) (hb' : b.toNat ≤ 0xbf) :
    String.utf8EncodeChar (Char.ofNat ((a.toNat - 0xc0) * 64 + (b.toNat - 0x80))) = [a, b] := by
  rw [utf8EncodeChar_ofNat (by omega), if_neg (by omega), if_pos (by omega),
    ofNat_eq_of_toNat (b := a) (by omega), ofNat_eq_of_toNat (b := b) (by omega)]

theorem utf8EncodeChar_three {a b c : UInt8} (ha : 0xe0 ≤ a.toNat) (ha' : a.toNat ≤ 0xef)
    (hb : (if a.toNat = 0xe0 then 0xa0 else 0x80) ≤ b.toNat)
    (hb' : b.toNat ≤ if a.toNat = 0xed then 0x9f else 0xbf)
    (hc : 0x80 ≤ c.toNat) (hc' : c.toNat ≤ 0xbf) :
    String.utf8EncodeChar (Char.ofNat
      (((a.toNat - 0xe0) * 64 + (b.toNat - 0x80)) * 64 + (c.toNat - 0x80))) = [a, b, c] := by
  have hlow : 0x80 ≤ b.toNat := by split at hb <;> omega
  have hhigh : b.toNat ≤ 0xbf := by split at hb' <;> omega
  -- the bounds on the second byte keep out longer spellings and surrogates
  have hlong : 0x800 ≤ ((a.toNat - 0xe0) * 64 + (b.toNat - 0x80)) * 64 + (c.toNat - 0x80) := by
    split at hb <;> omega
  have hsurrogate : ((a.toNat - 0xe0) * 64 + (b.toNat - 0x80)) * 64 + (c.toNat - 0x80) < 0xd800 ∨
      0xdfff < ((a.toNat - 0xe0) * 64 + (b.toNat - 0x80)) * 64 + (c.toNat - 0x80) := by
    split at hb' <;> omega
  clear hb hb'
  rw [utf8EncodeChar_ofNat (by omega), if_neg (by omega), if_neg (by omega), if_pos (by omega),
    ofNat_eq_of_toNat (b := a) (by omega), ofNat_eq_of_toNat (b := b) (by omega),
    ofNat_eq_of_toNat (b := c) (by omega)]

theorem utf8EncodeChar_four {a b c d : UInt8} (ha : 0xf0 ≤ a.toNat) (ha' : a.toNat ≤ 0xf4)
    (hb : (if a.toNat = 0xf0 then 0x90 else 0x80) ≤ b.toNat)
    (hb' : b.toNat ≤ if a.toNat = 0xf4 then 0x8f else 0xbf)
    (hc : 0x80 ≤ c.toNat) (hc' : c.toNat ≤ 0xbf) (hd : 0x80 ≤ d.toNat) (hd' : d.toNat ≤ 0xbf) :
    String.utf8EncodeChar (Char.ofNat
      ((((a.toNat - 0xf0) * 64 + (b.toNat - 0x80)) * 64 + (c.toNat - 0x80)) * 64 +
        (d.toNat - 0x80))) = [a, b, c, d] := by
  have hlow : 0x80 ≤ b.toNat := by split at hb <;> omega
  have hhigh : b.toNat ≤ 0xbf := by split at hb' <;> omega
  -- the bounds on the second byte keep out longer spellings and what is no code point
  have hlong : 0x10 ≤ (a.toNat - 0xf0) * 64 + (b.toNat - 0x80) := by split at hb <;> omega
  have hlast : (a.toNat - 0xf0) * 64 + (b.toNat - 0x80) < 0x110 := by split at hb' <;> omega
  clear hb hb'
  rw [utf8EncodeChar_ofNat (by omega), if_neg (by omega), if_neg (by omega), if_neg (by omega),
    ofNat_eq_of_toNat (b := a) (by omega), ofNat_eq_of_toNat (b := b) (by omega),
    ofNat_eq_of_toNat (b := c) (by omega), ofNat_eq_of_toNat (b := d) (by omega)]


theorem begun_two {n : Nat} {a : UInt8} (ha : 0xc2 ≤ a.toNat) (ha' : a.toNat ≤ 0xdf) :
    Partial.Begun ⟨n, a, a.toNat - 0xc0, 1, 0x80, 0xbf⟩ [a] := by
  intro rest v h
  obtain ⟨b, rest, rfl, hb, hb', h⟩ := h.of_owed_pos Nat.one_pos
  obtain ⟨rfl, hv⟩ := h.of_owed_zero rfl
  rw [hv]
  exact utf8EncodeChar_two ha ha' hb hb'

theorem begun_three {n : Nat} {low high a : UInt8} (ha : 0xe0 ≤ a.toNat) (ha' : a.toNat ≤ 0xef)
    (hlow : low.toNat = if a.toNat = 0xe0 then 0xa0 else 0x80)
    (hhigh : high.toNat = if a.toNat = 0xed then 0x9f else 0xbf) :
    Partial.Begun ⟨n, a, a.toNat - 0xe0, 2, low, high⟩ [a] := by
  intro rest v h
  obtain ⟨b, rest, rfl, hb, hb', h⟩ := h.of_owed_pos Nat.two_pos
  obtain ⟨c, rest, rfl, hc, hc', h⟩ := h.of_owed_pos Nat.one_pos
  obtain ⟨rfl, hv⟩ := h.of_owed_zero rfl
  rw [hv]
  exact utf8EncodeChar_three ha ha' (hlow ▸ hb) (hhigh ▸ hb') hc hc'

theorem begun_four {n : Nat} {low high a : UInt8} (ha : 0xf0 ≤ a.toNat) (ha' : a.toNat ≤ 0xf4)
    (hlow : low.toNat = if a.toNat = 0xf0 then 0x90 else 0x80)
    (hhigh : high.toNat = if a.toNat = 0xf4 then 0x8f else 0xbf) :
    Partial.Begun ⟨n, a, a.toNat - 0xf0, 3, low, high⟩ [a] := by
  intro rest v h
  obtain ⟨b, rest, rfl, hb, hb', h⟩ := h.of_owed_pos (Nat.succ_pos 2)
  obtain ⟨c, rest, rfl, hc, hc', h⟩ := h.of_owed_pos Nat.two_pos
  obtain ⟨d, rest, rfl, hd, hd', h⟩ := h.of_owed_pos Nat.one_pos
  obtain ⟨rfl, hv⟩ := h.of_owed_zero rfl
  rw [hv]
  exact utf8EncodeChar_four ha ha' (hlow ▸ hb) (hhigh ▸ hb') hc hc' hd hd'

theorem open?_none {n : Nat} {b : UInt8} (htwo : ¬ (0xc2 ≤ b.toNat ∧ b.toNat ≤ 0xdf))
    (hthree : ¬ (0xe0 ≤ b.toNat ∧ b.toNat ≤ 0xef)) (hfour : ¬ (0xf0 ≤ b.toNat ∧ b.toNat ≤ 0xf4)) :
    open? n b = none := by
  simp only [open?, UInt8.le_iff_toNat_le, ← UInt8.toNat_inj, UInt8.reduceToNat]
  repeat rw [if_neg (by omega)]

/-- A first byte that starts a character of several bytes leaves it well begun. -/
theorem begun_of_open? {n : Nat} {b : UInt8} {p : Partial} (h : open? n b = some p) :
    p.Begun [b] ∧ 0 < p.owed := by
  have hb : b = UInt8.ofNat b.toNat := UInt8.ofNat_toNat.symm
  by_cases htwo : 0xc2 ≤ b.toNat ∧ b.toNat ≤ 0xdf
  · rw [hb, open?_two htwo.1 htwo.2, ← hb] at h
    obtain rfl := Option.some.inj h
    exact ⟨begun_two htwo.1 htwo.2, Nat.one_pos⟩
  by_cases hthree : 0xe0 ≤ b.toNat ∧ b.toNat ≤ 0xef
  · obtain ⟨low, high, hopen, hlow, hhigh⟩ := open?_three (n := n) hthree.1 hthree.2
    rw [hb, hopen, ← hb] at h
    obtain rfl := Option.some.inj h
    exact ⟨begun_three hthree.1 hthree.2 hlow hhigh, Nat.two_pos⟩
  by_cases hfour : 0xf0 ≤ b.toNat ∧ b.toNat ≤ 0xf4
  · obtain ⟨low, high, hopen, hlow, hhigh⟩ := open?_four (n := n) hfour.1 hfour.2
    rw [hb, hopen, ← hb] at h
    obtain rfl := Option.some.inj h
    exact ⟨begun_four hfour.1 hfour.2 hlow hhigh, Nat.succ_pos 2⟩
  rw [open?_none] at h
  · contradiction
  all_goals omega

theorem map_eq_ok {x : Except Invalid (List Char)} {c : Char} {cs : List Char}
    (h : (c :: ·) <$> x = .ok cs) : ∃ cs', x = .ok cs' ∧ cs = c :: cs' := by
  cases x with
  | error e => contradiction
  | ok cs' => exact ⟨cs', rfl, (Except.ok.inj h).symm⟩

theorem utf8EncodeChar_one {b : UInt8} (h : b < 0x80) :
    String.utf8EncodeChar (Char.ofNat b.toNat) = [b] := by
  rw [UInt8.lt_iff_toNat_lt] at h
  have hb : b.toNat < 0x80 := h
  rw [utf8EncodeChar_ofNat (by omega), if_pos (by omega), UInt8.ofNat_toNat]

/-- What is read between two characters is spelled by the bytes to come; what is read
inside one, by those seen of it and those to come. -/
theorem encode_of_decodeFrom {n : Nat} {bytes : List UInt8} {cs : List Char} :
    (decodeFrom n none bytes = .ok cs → encode cs = bytes) ∧
      ∀ {p : Partial} {seen : List UInt8}, p.Begun seen → 0 < p.owed →
        decodeFrom n (some p) bytes = .ok cs → encode cs = seen ++ bytes := by
  -- both at once: a first byte leads into a character, and its last byte out of it
  induction bytes generalizing n cs with
  | nil =>
    constructor
    · intro h
      obtain rfl := Except.ok.inj h
      rfl
    · intro p seen _ _ h
      contradiction
  | cons b bytes ih =>
    constructor
    · intro h
      rw [decodeFrom] at h
      split at h
      next hascii =>
        obtain ⟨cs, hcs, rfl⟩ := map_eq_ok h
        rw [encode_cons, ih.1 hcs, utf8EncodeChar_one hascii, List.singleton_append]
      next =>
        split at h
        next p hopen =>
          obtain ⟨hbegun, howed⟩ := begun_of_open? hopen
          exact ih.2 hbegun howed h
        next => contradiction
    · intro p seen hbegun howed h
      rw [decodeFrom] at h
      split at h
      next hin =>
        have hnext := hbegun.next howed (UInt8.le_iff_toNat_le.mp hin.1)
          (UInt8.le_iff_toNat_le.mp hin.2)
        dsimp only at h
        split at h
        next hlast =>
          -- the last byte: nothing is owed any more, so the bytes seen are the character's
          obtain ⟨cs, hcs, rfl⟩ := map_eq_ok h
          have hspelled := hnext.spelled (Nat.sub_eq_zero_of_le hlast)
          rw [Partial.next] at hspelled
          rw [encode_cons, ih.1 hcs, hspelled, List.append_assoc, List.singleton_append]
        next hmore =>
          have hrest := ih.2 hnext (Nat.sub_pos_of_lt (Nat.lt_of_not_le hmore)) h
          rw [hrest, List.append_assoc, List.singleton_append]
      next => contradiction

/-- Bytes are read as a text exactly if they are the bytes of that text. -/
theorem decode_eq_ok_iff {bytes : List UInt8} {cs : List Char} :
    decode bytes = .ok cs ↔ bytes = encode cs := by
  constructor
  · intro h
    exact (encode_of_decodeFrom.1 h).symm
  · rintro rfl
    exact decode_encode cs

end CodeOutline.Utf8
