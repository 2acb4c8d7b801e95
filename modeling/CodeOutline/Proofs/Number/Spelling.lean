import CodeOutline.Literal.Basic
import CodeOutline.Proofs.Number.Digits
import CodeOutline.Proofs.Text.Basic
import Mathlib.Data.List.Induction

/-!
# Spellings of whole numbers

A whole number is spelled by decimal digits without a zero in front, or by the digits of another
base after its mark, and single underscores may stand between the digits. Whichever way it is
spelled, it is read as itself, if it has few enough decimal digits to be written.
-/

namespace CodeOutline

namespace Numeral

/-! ## Spellings -/

/-- A character writes a digit of a base, a letter in either case. -/
def WritesDigit (base d : Nat) (c : Char) : Prop :=
  d < base ∧ (c = Nat.digitChar d ∨ c = (Nat.digitChar d).toUpper)

instance (base d : Nat) (c : Char) : Decidable (WritesDigit base d c) :=
  inferInstanceAs (Decidable (_ ∧ _))

/-- The digits of a number in a base, with or without an underscore between two of them. -/
inductive GroupedDigits (base : Nat) : Nat → List Char → Prop where
  | one {d : Nat} {c : Char} (hd : WritesDigit base d c) : GroupedDigits base d [c]
  | digit {value d : Nat} {cs : List Char} {c : Char} (h : GroupedDigits base value cs)
      (hd : WritesDigit base d c) : GroupedDigits base (value * base + d) (cs ++ [c])
  | group {value d : Nat} {cs : List Char} {c : Char} (h : GroupedDigits base value cs)
      (hd : WritesDigit base d c) : GroupedDigits base (value * base + d) (cs ++ ['_', c])

/-- The letters that mark a base after a zero. -/
def baseMarks : List (Char × Nat) :=
  [('x', 16), ('X', 16), ('o', 8), ('O', 8), ('b', 2), ('B', 2)]

/-- A spelling of a whole number without sign. -/
inductive WholeSpelling : Nat → List Char → Prop where
  | zero : WholeSpelling 0 ['0']
  | decimal {value : Nat} {cs : List Char} (h : GroupedDigits 10 value cs)
      (hlead : cs.head? ≠ some '0') : WholeSpelling value cs
  | marked {base value : Nat} {mark : Char} {cs : List Char} (hmark : (mark, base) ∈ baseMarks)
      (h : GroupedDigits base value cs) : WholeSpelling value ('0' :: mark :: cs)

/-! ## Characters -/

/-- A character that means itself inside of a numeral: neither a sign nor a blank. -/
def IsInner (c : Char) : Prop :=
  c.toNat < 127 ∧ isSpace c = false ∧ c ≠ '-' ∧ c ≠ '+'

instance (c : Char) : Decidable (IsInner c) :=
  inferInstanceAs (Decidable (_ ∧ _ ∧ _ ∧ _))

section Digits

variable {base d value : Nat} {c : Char} {cs : List Char}

theorem WritesDigit.digitIn? (h : WritesDigit base d c) (hbase : base ≤ 16) :
    digitIn? base c = some d := by
  have hall : ∀ d < 16, Numeral.digitIn? 16 (Nat.digitChar d) = some d ∧
      Numeral.digitIn? 16 (Nat.digitChar d).toUpper = some d := by decide
  have hlt : d < base := h.1
  have hsixteen : Numeral.digitIn? 16 c = some d := by
    rcases h.2 with rfl | rfl
    · exact (hall d (by omega)).1
    · exact (hall d (by omega)).2
  simp only [Numeral.digitIn?, Option.filter_eq_some_iff, decide_eq_true_eq] at hsixteen ⊢
  exact ⟨hsixteen.1, hlt⟩

theorem WritesDigit.isInner (h : WritesDigit base d c) (hbase : base ≤ 16) : IsInner c := by
  have hall : ∀ d < 16, IsInner (Nat.digitChar d) ∧ IsInner (Nat.digitChar d).toUpper := by decide
  have hlt : d < base := h.1
  rcases h.2 with rfl | rfl
  · exact (hall d (by omega)).1
  · exact (hall d (by omega)).2

theorem WritesDigit.pos (h : WritesDigit base d c) (hc : c ≠ '0') : 0 < d := by
  by_contra hzero
  obtain rfl : d = 0 := by omega
  rcases h.2 with rfl | rfl
  · exact hc rfl
  · exact hc rfl

theorem GroupedDigits.isInner (h : GroupedDigits base value cs) (hbase : base ≤ 16) :
    ∀ c ∈ cs, IsInner c := by
  induction h with
  | one hd => simpa using hd.isInner hbase
  | digit _ hd ih =>
    rw [List.forall_mem_append]
    exact ⟨ih, by simpa using hd.isInner hbase⟩
  | group _ hd ih =>
    have hscore : IsInner '_' := by decide
    rw [List.forall_mem_append]
    exact ⟨ih, by simpa using ⟨hscore, hd.isInner hbase⟩⟩

/-! ## Reading digits -/

theorem digitsFrom?_cons (h : digitIn? base c = some d) (afterDigit : Bool)
    (count value : Nat) (cs : List Char) :
    digitsFrom? base afterDigit count value (c :: cs) =
      digitsFrom? base true (count + 1) (value * base + d) cs := by
  have hscore : c ≠ '_' := by
    rintro rfl
    cases h
  rw [digitsFrom?, if_neg hscore, h]

/-- After the digits of a number its value has been read, and without a zero in front they are no
more than it needs. -/
theorem GroupedDigits.read (h : GroupedDigits base value cs) (hbase : base ≤ 16) :
    ∃ places, (∀ rest, digitsFrom? base false 0 0 (cs ++ rest) =
        digitsFrom? base true (places + 1) value rest) ∧
      (cs.head? ≠ some '0' → Nat.pow base places ≤ value) := by
  -- one more digit at the end is one more place, whether or not an underscore stands before it
  have hstep : ∀ {value d places : Nat} {cs tail : List Char},
      (cs.head? ≠ some '0' → Nat.pow base places ≤ value) →
        (cs ++ tail).head? ≠ some '0' → Nat.pow base (places + 1) ≤ value * base + d := by
    intro value d places cs tail hle hlead
    have hfirst : cs.head? ≠ some '0' := by
      intro hzero
      simp [List.head?_append, hzero] at hlead
    calc
      Nat.pow base (places + 1) = Nat.pow base places * base := rfl
      _ ≤ value * base := Nat.mul_le_mul_right base (hle hfirst)
      _ ≤ value * base + d := Nat.le_add_right _ d
  induction h with
  | @one d c hd =>
    refine ⟨0, ?_, ?_⟩
    · intro rest
      rw [List.singleton_append, digitsFrom?_cons (hd.digitIn? hbase)]
      simp only [Nat.zero_mul, Nat.zero_add]
    · intro hlead
      exact hd.pos (by simpa using hlead)
  | digit _ hd ih =>
    obtain ⟨places, hread, hle⟩ := ih
    refine ⟨places + 1, ?_, hstep hle⟩
    intro rest
    rw [List.append_assoc, hread, List.singleton_append, digitsFrom?_cons (hd.digitIn? hbase)]
  | @group value d cs c _ hd ih =>
    obtain ⟨places, hread, hle⟩ := ih
    refine ⟨places + 1, ?_, hstep hle⟩
    intro rest
    have hscore : digitsFrom? base true (places + 1) value ('_' :: c :: rest) =
        digitsFrom? base false (places + 1) value (c :: rest) := by
      rw [digitsFrom?]
      simp
    rw [List.append_assoc, hread]
    show digitsFrom? base true (places + 1) value ('_' :: c :: rest) = _
    rw [hscore, digitsFrom?_cons (hd.digitIn? hbase)]

/-- Digits in a base are read as their number, past the underscores between them. -/
theorem GroupedDigits.digits? (h : GroupedDigits base value cs) (hbase : base ≤ 16) :
    digits? base cs = some value := by
  obtain ⟨places, hread, -⟩ := h.read hbase
  have hall := hread []
  rw [List.append_nil, digitsFrom?, if_pos rfl] at hall
  rw [Numeral.digits?, hall]
  rfl

/-- Digits without base are read as decimal ones, if the first is not zero and there are not too
many of them. -/
theorem GroupedDigits.decimal? (h : GroupedDigits 10 value cs) (hlead : cs.head? ≠ some '0')
    (hwritable : isWritable value = true) : decimal? cs = some value := by
  obtain ⟨places, hread, hle⟩ := h.read (by decide)
  have hall := hread []
  rw [List.append_nil, digitsFrom?, if_pos rfl] at hall
  have hcount : places + 1 ≤ maxDigits := by
    rw [isWritable, decide_eq_true_eq, Int.natAbs_natCast] at hwritable
    have hpow := Nat.lt_of_le_of_lt (hle hlead) hwritable
    generalize maxDigits = k at hpow
    exact (Nat.pow_lt_pow_iff_right (by decide : 1 < 10)).mp hpow
  rw [Numeral.decimal?, hall]
  exact if_pos hcount

/-- Digits start with no underscore. -/
theorem GroupedDigits.head?_ne (h : GroupedDigits base value cs) (hbase : base ≤ 16) :
    cs.head? ≠ some '_' := by
  intro hscore
  obtain ⟨rest, rfl⟩ := List.head?_eq_some_iff.mp hscore
  have hdigits := h.digits? hbase
  simp [Numeral.digits?, digitsFrom?] at hdigits

end Digits

/-! ## Reading numerals -/

/-- A text of plain characters without spaces is read as it is. -/
theorem plain_eq_self {cs : List Char} (h : ∀ c ∈ cs, c.toNat < 127 ∧ isSpace c = false) :
    plain cs = cs := by
  have hmap : cs.map plainChar = cs := by
    refine (List.map_congr_left fun c hc => ?_).trans (List.map_id cs)
    rw [plainChar, if_pos (h c hc).1]
    rfl
  rw [plain, hmap, Text.trim_eq_self fun c hc => (h c hc).2]

theorem baseOfMark?_eq_some {mark : Char} {base : Nat} (h : (mark, base) ∈ baseMarks) :
    baseOfMark? mark = some base ∧ base ≤ 16 ∧ IsInner mark := by
  have hall : ∀ pair ∈ baseMarks,
      baseOfMark? pair.1 = some pair.2 ∧ pair.2 ≤ 16 ∧ IsInner pair.1 := by decide
  exact hall (mark, base) h

section Spelling

variable {value : Nat} {cs : List Char}

theorem WholeSpelling.isInner (h : WholeSpelling value cs) : ∀ c ∈ cs, IsInner c := by
  have hzero : IsInner '0' := by decide
  cases h with
  | zero => simpa using hzero
  | decimal h _ => exact h.isInner (by decide)
  | marked hmark h =>
    obtain ⟨-, hbase, hinner⟩ := baseOfMark?_eq_some hmark
    simpa using ⟨hzero, hinner, h.isInner hbase⟩

/-- Every spelling of a whole number is read as its value, whatever base it marks. -/
theorem WholeSpelling.marked? (h : WholeSpelling value cs)
    (hwritable : isWritable value = true) : marked? cs = some value := by
  cases h with
  | zero => rfl
  | decimal h hlead =>
    rw [Numeral.marked?]
    · exact h.decimal? hlead hwritable
    · rintro mark rest rfl
      exact hlead rfl
  | @marked base _ mark cs hmark h =>
    obtain ⟨hbase?, hbase, -⟩ := baseOfMark?_eq_some hmark
    rw [Numeral.marked?.eq_2 mark cs base hbase?]
    · exact h.digits? hbase
    · rintro ds rfl
      exact h.head?_ne hbase rfl

theorem plain_withSign (h : ∀ c ∈ cs, IsInner c) (negative : Bool) :
    plain (withSign negative cs) = withSign negative cs := by
  apply plain_eq_self
  apply forall_mem_withSign
  · decide
  · intro c hc
    exact ⟨(h c hc).1, (h c hc).2.1⟩

theorem splitSign_withSign (h : ∀ c ∈ cs, IsInner c) (negative : Bool) :
    splitSign (withSign negative cs) = (negative, cs) := by
  cases negative with
  | true => rfl
  | false =>
    rw [withSign, if_neg (by decide), splitSign]
    · rintro rest rfl
      exact (h '-' (by simp)).2.2.1 rfl
    · rintro rest rfl
      exact (h '+' (by simp)).2.2.2 rfl

theorem WholeSpelling.markedInteger? (h : WholeSpelling value cs) (negative : Bool)
    (hwritable : isWritable value = true) :
    markedInteger? (withSign negative cs) = some (signed negative value) := by
  rw [Numeral.markedInteger?, plain_withSign h.isInner, splitSign_withSign h.isInner]
  dsimp only
  rw [h.marked? hwritable]
  rfl

theorem isWritable_signed (negative : Bool) (value : Nat) :
    isWritable (signed negative value) = isWritable value := by
  rw [isWritable, isWritable, natAbs_signed, Int.natAbs_natCast]

/-- Whole numbers by themselves are spelled by their digits. -/
theorem wholeSpelling_of_isWhole {ds : List Char} (h : Json.isWhole ds = true) :
    WholeSpelling (digitsValue ds) ds := by
  have hgrouped : ∀ ds : List Char, ds ≠ [] → (∀ c ∈ ds, c.isDigit = true) →
      GroupedDigits 10 (digitsValue ds) ds := by
    intro ds hne hdigits
    induction ds using List.reverseRecOn with
    | nil => exact absurd rfl hne
    | append_singleton ds c ih =>
      obtain ⟨hds, hc⟩ := List.forall_mem_append.mp hdigits
      have hbounds := toNat_of_isDigit (hc c (by simp))
      have hd : WritesDigit 10 (c.toNat - 0x30) c := by
        refine ⟨by omega, .inl ?_⟩
        apply Char.toNat_inj.mp
        rw [Nat.toNat_digitChar_of_lt_ten (by omega)]
        omega
      have hvalue : digitsValue (ds ++ [c]) = digitsValue ds * 10 + (c.toNat - 0x30) := by
        simp [digitsValue]
      rw [hvalue]
      by_cases hnil : ds = []
      · subst hnil
        simpa [digitsValue] using GroupedDigits.one hd
      · exact .digit (ih hnil hds) hd
  rcases Json.isWhole_iff.mp h with rfl | ⟨d, rest, rfl, hd, hdigits⟩
  · exact .zero
  · exact .decimal (hgrouped _ (by simp) hdigits) (by simpa using hd)

end Spelling

end Numeral

/-- However a whole number is spelled, it is read as itself. -/
theorem Literal.ofNumeral_spelling {value : Nat} {cs : List Char}
    (h : Numeral.WholeSpelling value cs) (negative : Bool)
    (hwritable : Numeral.isWritable (Numeral.signed negative value) = true) :
    Literal.ofNumeral (String.ofList (Numeral.withSign negative cs)) =
      .int (Numeral.signed negative value) := by
  rw [Numeral.isWritable_signed] at hwritable
  rw [Literal.ofNumeral, String.toList_ofList, h.markedInteger? negative hwritable]

end CodeOutline
