import CodeOutline.Json.Reader
import CodeOutline.Number.Numeral

/-!
# Decimal digits

A whole number is written by its digits, the first of which is no zero unless it is the
only one. Their value is that number, and with its sign they are its text.
-/

namespace CodeOutline

namespace Numeral

theorem toNat_of_isDigit {c : Char} (h : c.isDigit = true) : 0x30 ≤ c.toNat ∧ c.toNat ≤ 0x39 :=
  Char.isDigit_iff_toNat.mp h

theorem digitsValue_eq (ds : List Char) : digitsValue ds = Nat.ofDigitChars 10 ds 0 := by
  simp only [digitsValue, Nat.ofDigitChars_eq_foldl, Nat.mul_comm]
  rfl

end Numeral

/-! ## Digits of whole numbers -/

namespace Json

theorem digits_of_isWhole {ds : List Char} (h : isWhole ds = true) :
    ds ≠ [] ∧ ∀ c ∈ ds, c.isDigit = true := by
  rw [isWhole.eq_def] at h
  split at h
  · simp at h
  · rw [List.isEmpty_iff] at h
    subst h
    simp
  · rename_i hne _
    exact ⟨hne, List.all_eq_true.mp h⟩

/-- Digits write a whole number if they are a single zero or do not start with one. -/
theorem isWhole_iff {ds : List Char} :
    isWhole ds = true ↔ ds = ['0'] ∨ ∃ d rest, ds = d :: rest ∧ d ≠ '0' ∧
      ∀ c ∈ ds, c.isDigit = true := by
  cases ds with
  | nil => simp [isWhole]
  | cons d rest =>
    by_cases hd : d = '0'
    · subst hd
      simp [isWhole]
    · rw [isWhole]
      · simp [hd]
      · simp
      · simp [hd]

/-- The digits of a number above zero have no zero in front. -/
theorem toDigits_head (n : Nat) (hn : 0 < n) :
    ∃ d rest, Nat.toDigits 10 n = d :: rest ∧ d ≠ '0' := by
  induction n using Nat.strongRecOn with
  | ind n ih =>
    by_cases hlt : n < 10
    · refine ⟨n.digitChar, [], Nat.toDigits_of_lt_base hlt, ?_⟩
      intro hzero
      have := Nat.toNat_digitChar_sub_48_of_lt_ten hlt
      rw [hzero] at this
      exact Nat.ne_of_gt hn this.symm
    · obtain ⟨d, rest, hd, hne⟩ := ih (n / 10) (by omega) (by omega)
      refine ⟨d, rest ++ [Nat.digitChar (n % 10)], ?_, hne⟩
      rw [Nat.toDigits_of_base_le (by decide) (by omega), hd]
      rfl

theorem isWhole_toDigits (n : Nat) : isWhole (Nat.toDigits 10 n) = true := by
  rw [isWhole_iff]
  by_cases hn : n = 0
  · subst hn
    exact .inl rfl
  · right
    have hdigit : ∀ c ∈ Nat.toDigits 10 n, c.isDigit = true := fun c hc =>
      Nat.isDigit_of_mem_toDigits (by decide) (by decide) hc
    obtain ⟨d, rest, hd, hne⟩ := toDigits_head n (by omega)
    exact ⟨d, rest, hd, hne, hdigit⟩

end Json

/-! ## Whole numbers with a sign -/

namespace Numeral

/-- Digits after the sign of the number that they write. -/
def withSign (negative : Bool) (ds : List Char) : List Char :=
  if negative then '-' :: ds else ds

theorem forall_mem_withSign {p : Char → Prop} {ds : List Char} (hminus : p '-')
    (h : ∀ c ∈ ds, p c) (negative : Bool) : ∀ c ∈ withSign negative ds, p c := by
  cases negative with
  | true => exact List.forall_mem_cons.mpr ⟨hminus, h⟩
  | false => exact h

theorem natAbs_signed (negative : Bool) (value : Nat) : (signed negative value).natAbs = value := by
  cases negative <;> simp [signed]

/-- A whole number is written as the digits of its absolute value, behind a minus sign if it is
negative. -/
theorem toList_toString_int (n : Int) :
    (toString n).toList = withSign (decide (n < 0)) (Nat.toDigits 10 n.natAbs) := by
  rw [Int.toString_eq_repr, Int.repr_eq_if]
  by_cases hn : 0 ≤ n
  · have hneg : decide (n < 0) = false := by simpa using hn
    rw [if_pos hn, hneg, Nat.toList_repr, show n.toNat = n.natAbs by omega]
    rfl
  · have hneg : decide (n < 0) = true := by simpa using hn
    rw [if_neg hn, hneg, String.toList_append, Nat.toList_repr,
      show (-n).toNat = n.natAbs by omega]
    rfl

theorem signed_natAbs (n : Int) : signed (decide (n < 0)) n.natAbs = n := by
  by_cases hn : n < 0
  · rw [decide_eq_true hn, signed, if_pos rfl]
    omega
  · rw [decide_eq_false hn, signed, if_neg (by decide)]
    omega

theorem digitsValue_toDigits (n : Nat) : digitsValue (Nat.toDigits 10 n) = n := by
  rw [digitsValue_eq, Nat.ofDigitChars_ten_toDigits]

/-- How many decimal digits a whole number has. -/
def digitCount (n : Int) : Nat :=
  (Nat.toDigits 10 n.natAbs).length

theorem isWritable_iff {n : Int} : isWritable n = true ↔ digitCount n ≤ maxDigits := by
  have hpos : 0 < maxDigits := by decide
  rw [isWritable, decide_eq_true_eq, digitCount]
  generalize maxDigits = k at hpos ⊢
  exact (Nat.length_toDigits_le_iff (by decide) hpos).symm

end Numeral

end CodeOutline
