import CodeOutline.Text.Basic
import Mathlib.Data.List.DropRight
import Mathlib.Logic.ExistsUnique
import Mathlib.Order.Bounds.Basic

/-!
# Slices, trimmed texts and occurrences

What slices by signed offsets cut, what trimming leaves, and where the occurrences of a
word stand.
-/

namespace CodeOutline

/-! ## Slices of a text that is spelled out

If each item of a sequence is spelled as several, then the spelling of a slice lies
between the lengths of the spellings up to its ends. -/

namespace Slice

variable {α β : Type} (spell : α → List β) (xs : List α)

/-- Where the spelling of the item with a number starts. -/
def spelledTo (k : Nat) : Nat :=
  ((xs.take k).flatMap spell).length

theorem flatMap_eq_append (k : Nat) :
    xs.flatMap spell = (xs.take k).flatMap spell ++ (xs.drop k).flatMap spell := by
  rw [← List.flatMap_append, List.take_append_drop]

theorem take_spelledTo (k : Nat) :
    (xs.flatMap spell).take (spelledTo spell xs k) = (xs.take k).flatMap spell := by
  rw [flatMap_eq_append spell xs k]
  exact List.take_left

theorem drop_spelledTo (k : Nat) :
    (xs.flatMap spell).drop (spelledTo spell xs k) = (xs.drop k).flatMap spell := by
  rw [flatMap_eq_append spell xs k]
  exact List.drop_left

theorem spelledTo_le {i j : Nat} (h : i ≤ j) : spelledTo spell xs i ≤ spelledTo spell xs j := by
  obtain ⟨rest, hrest⟩ := List.take_prefix_take_left h (l := xs)
  rw [spelledTo, spelledTo, ← hrest, List.flatMap_append, List.length_append]
  omega

/-- The slice of the spelling between two items is the spelling of the slice. -/
theorem drop_take_spelledTo (i j : Nat) :
    ((xs.flatMap spell).take (spelledTo spell xs j)).drop (spelledTo spell xs i) =
      ((xs.take j).drop i).flatMap spell := by
  rw [take_spelledTo]
  rcases Nat.le_total i j with h | h
  · have hcut : spelledTo spell xs i = spelledTo spell (xs.take j) i := by
      rw [spelledTo, spelledTo, List.take_take, Nat.min_eq_left h]
    rw [hcut, drop_spelledTo]
  · -- the slice ends before it starts
    have hnil : (xs.take j).drop i = [] :=
      List.drop_eq_nil_of_le (Nat.le_trans (List.length_take_le j xs) h)
    rw [hnil, List.drop_eq_nil_of_le (spelledTo_le spell xs h)]
    rfl

end Slice

/-! ## Trimmed texts

Trimming takes away only what it is told to, and only at the ends. What is trimmed of
one character is followed by a run of it. -/

namespace Text

/-- Trimming the end does not reach past a character that it keeps. -/
theorem trimEnd_append_of_kept {p : Char → Bool} {xs : List Char} {c : Char} (hc : p c = false)
    (hlast : xs.getLast? = some c) (ys : List Char) :
    trimEnd p (xs ++ ys) = xs ++ trimEnd p ys := by
  have hkept : xs.reverse.dropWhile p = xs.reverse := by
    rw [List.getLast?_eq_head?_reverse] at hlast
    obtain ⟨rest, hrest⟩ := List.head?_eq_some_iff.mp hlast
    rw [hrest, List.dropWhile_cons_of_neg (by simp [hc])]
  rw [trimEnd, trimEnd, List.reverse_append, List.dropWhile_append, hkept]
  split <;> rename_i hempty
  · rw [List.isEmpty_iff.mp hempty]
    simp
  · simp

/-- A text whose last character is kept is not trimmed at its end. -/
theorem trimEnd_eq_self {p : Char → Bool} {cs : List Char}
    (h : ∀ c, cs.getLast? = some c → p c = false) : trimEnd p cs = cs := by
  cases hlast : cs.getLast? with
  | none =>
    rw [List.getLast?_eq_none_iff.mp hlast]
    rfl
  | some c =>
    have hkept := trimEnd_append_of_kept (h c hlast) hlast []
    rw [List.append_nil] at hkept
    rw [hkept]
    exact List.append_nil cs

/-- A text all of whose characters are kept is not trimmed. -/
theorem trim_eq_self {p : Char → Bool} {cs : List Char} (h : ∀ c ∈ cs, p c = false) :
    trim p cs = cs := by
  have hstart : cs.dropWhile p = cs := by
    cases cs with
    | nil => rfl
    | cons c cs => rw [List.dropWhile_cons_of_neg (by simp [h c (by simp)])]
  rw [trim, hstart]
  exact trimEnd_eq_self fun c hc => h c (List.mem_of_getLast? hc)

theorem isPrefix_trimEnd (p : Char → Bool) (cs : List Char) : trimEnd p cs <+: cs :=
  List.rdropWhile_prefix p cs

theorem length_trimEnd_le (p : Char → Bool) (cs : List Char) :
    (trimEnd p cs).length ≤ cs.length :=
  (isPrefix_trimEnd p cs).length_le

/-! ### Runs of one character -/

theorem exists_trimEnd_append_replicate (c : Char) (cs : List Char) :
    ∃ count, cs = trimEnd (· = c) cs ++ List.replicate count c := by
  have hall : ∀ x ∈ cs.rtakeWhile (· = c), x = c := by
    intro x hx
    have hkept := List.mem_rtakeWhile_imp hx
    exact of_decide_eq_true hkept
  refine ⟨(cs.rtakeWhile (· = c)).length, ?_⟩
  rw [← List.eq_replicate_of_mem hall]
  exact List.rdropWhile_append_rtakeWhile.symm

theorem getLast?_trimEnd_ne (c : Char) (cs : List Char) :
    (trimEnd (· = c) cs).getLast? ≠ some c := by
  intro hlast
  have hne : trimEnd (· = c) cs ≠ [] := fun hnil => by simp [hnil] at hlast
  have hc := (List.getLast_eq_iff_getLast?_eq_some hne).mpr hlast
  exact List.rdropWhile_last_not (· = c) cs hne (decide_eq_true hc)

theorem trimEnd_append_replicate {c : Char} {cs : List Char} (h : cs.getLast? ≠ some c)
    (count : Nat) : trimEnd (· = c) (cs ++ List.replicate count c) = cs := by
  induction count with
  | zero =>
    rw [List.replicate_zero, List.append_nil]
    refine trimEnd_eq_self fun x hx => ?_
    rw [decide_eq_false_iff_not]
    rintro rfl
    exact h hx
  | succ count ih =>
    rw [List.replicate_succ', ← List.append_assoc]
    have hone := List.rdropWhile_concat_pos (· = c) (cs ++ List.replicate count c) c (by simp)
    exact hone.trans ih

end Text

/-! ## What a search for a word finds

The places found are exactly those at which the word stands, in ascending order.
A word that stands somewhere is sighted there if it stands nowhere else, and at its
first place otherwise. -/

namespace Search

/-- `word` stands in `text` after `i` characters. -/
def OccursAt (word text : List Char) (i : Nat) : Prop :=
  word <+: text.drop i

instance (word text : List Char) (i : Nat) : Decidable (OccursAt word text i) :=
  inferInstanceAs (Decidable (word <+: text.drop i))

variable {word : List Char}

theorem not_occursAt_nil (hw : word ≠ []) (i : Nat) : ¬ OccursAt word [] i := by
  intro h
  rw [OccursAt, List.drop_nil] at h
  exact hw (List.prefix_nil.mp h)

theorem mem_occurrencesFrom (hw : word ≠ []) {n i : Nat} {text : List Char} :
    i ∈ occurrencesFrom word n text ↔ ∃ j, i = n + j ∧ OccursAt word text j := by
  induction text generalizing n with
  | nil =>
    have hempty : ¬ word.isEmpty = true := by simpa using hw
    rw [occurrencesFrom, if_neg hempty]
    constructor
    · intro h
      simp at h
    · rintro ⟨j, -, hj⟩
      exact absurd hj (not_occursAt_nil hw j)
  | cons c cs ih =>
    -- later places of the text are places of its tail, one less
    have htail : i ∈ occurrencesFrom word (n + 1) cs ↔
        ∃ j, i = n + (j + 1) ∧ OccursAt word (c :: cs) (j + 1) := by
      rw [ih]
      constructor
      · rintro ⟨j, rfl, hj⟩
        exact ⟨j, by omega, hj⟩
      · rintro ⟨j, rfl, hj⟩
        exact ⟨j, by omega, hj⟩
    have hhead : word.isPrefixOf (c :: cs) = true ↔ OccursAt word (c :: cs) 0 :=
      List.isPrefixOf_iff_prefix
    have hsplit : (∃ j, i = n + j ∧ OccursAt word (c :: cs) j) ↔
        (i = n ∧ OccursAt word (c :: cs) 0) ∨ i ∈ occurrencesFrom word (n + 1) cs := by
      rw [htail]
      constructor
      · rintro ⟨j, hi, hj⟩
        cases j with
        | zero => exact .inl ⟨hi, hj⟩
        | succ j => exact .inr ⟨j, hi, hj⟩
      · rintro (⟨hi, h0⟩ | ⟨j, hi, hj⟩)
        · exact ⟨0, hi, h0⟩
        · exact ⟨j + 1, hi, hj⟩
    rw [hsplit, occurrencesFrom]
    split <;> rename_i hpre
    · rw [List.mem_cons]
      simp only [hhead.mp hpre, and_true]
    · simp only [mt hhead.mpr hpre, and_false, false_or]

theorem mem_occurrences (hw : word ≠ []) {i : Nat} {text : List Char} :
    i ∈ occurrences word text ↔ OccursAt word text i := by
  rw [occurrences, mem_occurrencesFrom hw]
  simp

theorem pairwise_occurrencesFrom (hw : word ≠ []) (n : Nat) (text : List Char) :
    (occurrencesFrom word n text).Pairwise (· < ·) := by
  induction text generalizing n with
  | nil =>
    rw [occurrencesFrom]
    split <;> simp
  | cons c cs ih =>
    rw [occurrencesFrom]
    split
    · refine List.pairwise_cons.mpr ⟨?_, ih (n + 1)⟩
      intro i hi
      obtain ⟨j, rfl, -⟩ := (mem_occurrencesFrom hw).mp hi
      omega
    · exact ih (n + 1)

/-- A word that stands at a place is sighted at it if that is the only one, and at
the first of its places if there are several. -/
theorem sight_of_occursAt (hw : word ≠ []) {i : Nat} {text : List Char}
    (hi : OccursAt word text i) :
    ((∃! j, OccursAt word text j) ∧ sight word text = .unique i) ∨
      ((¬ ∃! j, OccursAt word text j) ∧
        ∃ first, IsLeast {j | OccursAt word text j} first ∧ sight word text = .repeated first) := by
  have hempty : ¬ word.isEmpty = true := by simpa using hw
  have hmem : ∀ j, OccursAt word text j ↔ j ∈ occurrences word text :=
    fun j => (mem_occurrences hw).symm
  have hsorted : (occurrences word text).Pairwise (· < ·) := pairwise_occurrencesFrom hw 0 text
  rw [hmem] at hi
  simp only [sight, if_neg hempty, hmem]
  match hocc : occurrences word text, hi, hsorted with
  | [place], hi, _ =>
    obtain rfl : i = place := by simpa using hi
    exact .inl ⟨⟨i, by simp, by simp⟩, rfl⟩
  | first :: second :: rest, _, hsorted =>
    have hlt : first < second := List.rel_of_pairwise_cons hsorted (by simp)
    refine .inr ⟨?_, first, ⟨by simp, ?_⟩, rfl⟩
    · rintro ⟨j, -, honly⟩
      have hfirst : first = j := honly first (by simp)
      have hsecond : second = j := honly second (by simp)
      omega
    · intro j hj
      rcases List.mem_cons.mp hj with rfl | hj
      · exact Nat.le_refl j
      · exact Nat.le_of_lt (List.rel_of_pairwise_cons hsorted hj)

/-- The empty word is not sighted, nor is one that stands nowhere. -/
theorem sight_eq_absent {text : List Char} (h : word = [] ∨ ∀ i, ¬ OccursAt word text i) :
    sight word text = .absent := by
  rw [sight]
  split <;> rename_i hempty
  · rfl
  · have hw : word ≠ [] := by simpa using hempty
    have hnone : occurrences word text = [] := by
      refine List.eq_nil_iff_forall_not_mem.mpr fun i hi => ?_
      exact h.resolve_left hw i ((mem_occurrences hw).mp hi)
    rw [hnone]

/-- A word stands where it is sighted. -/
theorem occursAt_of_sight {i : Nat} {text : List Char}
    (h : sight word text = .unique i ∨ sight word text = .repeated i) :
    word ≠ [] ∧ OccursAt word text i := by
  have hw : word ≠ [] := by
    rintro rfl
    simp [sight] at h
  have hempty : ¬ word.isEmpty = true := by simpa using hw
  have hmem : i ∈ occurrences word text := by
    simp only [sight, if_neg hempty] at h
    match hocc : occurrences word text, h with
    | [], h => simp at h
    | [place], h => simp_all
    | first :: second :: rest, h => simp_all
  exact ⟨hw, (mem_occurrences hw).mp hmem⟩

/-- A word that is sighted stands whole in the text. -/
theorem add_length_le_of_sight {i : Nat} {text : List Char}
    (h : sight word text = .unique i ∨ sight word text = .repeated i) :
    i + word.length ≤ text.length := by
  obtain ⟨hw, hocc⟩ := occursAt_of_sight h
  have hlen := List.IsPrefix.length_le hocc
  have hpos := List.length_pos_iff.mpr hw
  rw [List.length_drop] at hlen
  omega

end Search

/-! ## Pieces of a split text -/

namespace Text

/-- A separator parts a text into pieces, one more than there are separators. -/
theorem length_splitOn (separator : Char) (cs : List Char) :
    (cs.splitOn separator).length = cs.count separator + 1 := by
  induction cs with
  | nil => rfl
  | cons c cs ih =>
    rw [List.splitOn_cons_eq_if_modifyHead]
    by_cases hc : c = separator
    · subst hc
      rw [if_pos (beq_self_eq_true c), List.length_cons, ih, List.count_cons_self]
    · rw [if_neg (by simpa using hc), List.length_modifyHead, ih, List.count_cons_of_ne hc]

/-- A character that is no separator comes first in the first piece. -/
theorem splitOn_cons_of_ne {separator c : Char} (hc : c ≠ separator) {cs piece : List Char}
    {rest : List (List Char)} (h : cs.splitOn separator = piece :: rest) :
    (c :: cs).splitOn separator = (c :: piece) :: rest := by
  rw [List.splitOn_cons_eq_if_modifyHead, if_neg (by simpa using hc), h, List.modifyHead_cons]

end Text

end CodeOutline
