import CodeOutline.Proofs.Document.Lines
import CodeOutline.Proofs.Text.Basic

/-!
# Offsets and positions, there and back

Every offset has a position, and every position an offset. Going there and back leads to
the same place, as far as lines show it: the CRs that end a line have no place on it, so
an offset after one of them comes back as that of the first, and a position outside the
lines comes back as the nearest one on them.
-/

namespace CodeOutline.Document

/-- All the CRs that end a line: `count` of them from an offset on. No CR is before them,
and an LF or the end of the text is after them. -/
def CrsEndLine (d : Document) (first count : Nat) : Prop :=
  ∃ before after, d.chars = before ++ (List.replicate count '\r' ++ after) ∧
    before.length = first ∧ before.getLast? ≠ some '\r' ∧
    (after = [] ∨ ∃ rest, after = '\n' :: rest)

/-- The nearest number that a line has. -/
def nearestLine (d : Document) (line : Int) : Int :=
  max 0 (min line ((d.lineCount : Int) - 1))

variable {d : Document} {before line after : List Char}

/-! ## From an offset -/

theorem LineSplit.offsetAt_positionAt (h : LineSplit d before line after) {k : Nat}
    (hk : k ≤ line.length) :
    d.offsetAt (d.positionAt ((before.length + k : Nat) : Int)) =
      before.length + min k (Text.trimEnd (· = '\r') line).length := by
  have hcount := h.count_lt_lineCount
  rw [h.positionAt_eq hk, h.offsetAt_eq_min (by rw [Int.toNat_natCast]; omega),
    Int.toNat_natCast]

theorem EndsLines.getLast?_ne {cs : List Char} (h : EndsLines cs) : cs.getLast? ≠ some '\r' := by
  rcases h with rfl | ⟨init, rfl⟩
  · simp
  · rw [List.getLast?_concat]
    decide

/-- What is trimmed off a line are the CRs that end it. -/
theorem LineSplit.crsEndLine (h : LineSplit d before line after) :
    ∃ count, line.length = (Text.trimEnd (· = '\r') line).length + count ∧
      d.CrsEndLine (before.length + (Text.trimEnd (· = '\r') line).length) count := by
  obtain ⟨count, hline⟩ := Text.exists_trimEnd_append_replicate '\r' line
  have hlength := congrArg List.length hline
  rw [List.length_append, List.length_replicate] at hlength
  refine ⟨count, hlength, before ++ Text.trimEnd (· = '\r') line, after, ?_, ?_, ?_,
    h.after_starts⟩
  · rw [List.append_assoc, ← List.append_assoc _ _ after, ← hline, h.chars_eq]
  · rw [List.length_append]
  · -- the trimmed line ends in no CR, and if nothing is left of it, nor does what is before
    rw [List.getLast?_append]
    cases hlast : (Text.trimEnd (· = '\r') line).getLast? with
    | none => exact h.before_ends.getLast?_ne
    | some c =>
      rw [Option.some_or, ← hlast]
      exact Text.getLast?_trimEnd_ne '\r' line

/-- The CRs that end a line stand on one line, and nothing else is trimmed off it. -/
theorem CrsEndLine.exists_lineSplit {first count : Nat} (h : d.CrsEndLine first count) :
    ∃ before line after, LineSplit d before (line ++ List.replicate count '\r') after ∧
      first = before.length + line.length ∧
      Text.trimEnd (· = '\r') (line ++ List.replicate count '\r') = line := by
  obtain ⟨text, after, hchars, rfl, hlast, hafter⟩ := h
  obtain ⟨before, line, rfl, hends, hfree⟩ := exists_endsLines text
  refine ⟨before, line, after, ⟨?_, hends, ?_, hafter⟩, List.length_append, ?_⟩
  · rw [hchars, List.append_assoc, List.append_assoc]
  · intro hmem
    rcases List.mem_append.mp hmem with hmem | hmem
    · exact hfree hmem
    · exact absurd (List.eq_of_mem_replicate hmem) (by decide)
  · apply Text.trimEnd_append_replicate
    intro hcr
    rw [List.getLast?_append, hcr, Option.some_or] at hlast
    exact hlast rfl

theorem CrsEndLine.offsetAt_positionAt {first count offset : Nat} (h : d.CrsEndLine first count)
    (hfirst : first < offset) (hlast : offset ≤ first + count) :
    d.offsetAt (d.positionAt offset) = first := by
  obtain ⟨before, line, after, hsplit, rfl, htrim⟩ := h.exists_lineSplit
  obtain ⟨k, rfl⟩ : ∃ k, offset = before.length + k := ⟨offset - before.length, by omega⟩
  have hk : k ≤ (line ++ List.replicate count '\r').length := by
    rw [List.length_append, List.length_replicate]
    omega
  rw [hsplit.offsetAt_positionAt hk, htrim, Nat.min_eq_right (by omega)]

theorem offsetAt_positionAt_of_not_crs {offset : Nat} (hoffset : offset ≤ d.chars.length)
    (hout : ∀ first count, d.CrsEndLine first count → ¬ (first < offset ∧ offset ≤ first + count)) :
    d.offsetAt (d.positionAt offset) = offset := by
  obtain ⟨before, line, after, k, hsplit, hk, rfl⟩ := d.exists_lineSplit hoffset
  obtain ⟨count, hlength, hcrs⟩ := hsplit.crsEndLine
  have hplace := hout _ _ hcrs
  rw [hsplit.offsetAt_positionAt hk, Nat.min_eq_left (by omega)]

/-! ## From a position -/

/-- The line nearest to a position stands in the text. -/
theorem exists_nearestLine (d : Document) (line : Int) :
    ∃ before text after, LineSplit d before text after ∧
      min line.toNat (d.lineCount - 1) = before.count '\n' ∧
      d.nearestLine line = (before.count '\n' : Nat) := by
  have hpos := d.lineCount_pos
  have hlt : min line.toNat (d.lineCount - 1) < d.lineCount := by omega
  obtain ⟨before, text, after, hsplit, hcount⟩ := d.exists_lineSplit_of_lt hlt
  refine ⟨before, text, after, hsplit, hcount.symm, ?_⟩
  rw [nearestLine, hcount]
  omega

theorem positionAt_offsetAt (d : Document) (p : Position) :
    ∃ text, d.lineAt (d.nearestLine p.line) = .ok text ∧
      d.positionAt (d.offsetAt p) =
        ⟨d.nearestLine p.line, max 0 (min p.character text.length)⟩ := by
  obtain ⟨before, line, after, hsplit, hindex, hnearest⟩ := d.exists_nearestLine p.line
  refine ⟨_, hnearest ▸ hsplit.lineAt_eq, ?_⟩
  have htrim := Text.length_trimEnd_le (· = '\r') line
  rw [hsplit.offsetAt_eq_min hindex, hsplit.positionAt_eq (by omega), hnearest,
    String.length_ofList]
  congr 1
  omega

/-- A position that a line of the document has. -/
def HasPosition (d : Document) (p : Position) : Prop :=
  0 ≤ p.line ∧ p.line < d.lineCount ∧ 0 ≤ p.character ∧
    ∃ text, d.lineAt p.line = .ok text ∧ p.character ≤ text.length

theorem positionAt_offsetAt_eq_iff (d : Document) (p : Position) :
    d.positionAt (d.offsetAt p) = p ↔ d.HasPosition p := by
  obtain ⟨text, htext, hback⟩ := d.positionAt_offsetAt p
  have hpos := d.lineCount_pos
  rw [hback]
  constructor
  · intro hsame
    obtain ⟨hline, hcharacter⟩ := Position.mk.injEq .. ▸ hsame
    rw [hline] at htext
    unfold nearestLine at hline
    exact ⟨by omega, by omega, by omega, text, htext, by omega⟩
  · rintro ⟨hfirst, hlast, hcharacter, text', htext', hend⟩
    have hline : d.nearestLine p.line = p.line := by
      unfold nearestLine
      omega
    rw [hline, htext'] at htext
    cases htext
    rw [hline]
    congr 1
    omega

/-! ## There and back -/

/-- Where offsets and positions of a document lead, there and back. -/
structure LeadsBack (d : Document) : Prop where
  /-- An offset that is not after a CR at the end of its line comes back. -/
  offset_eq : ∀ offset : Nat, offset ≤ d.chars.length →
    (∀ first count, d.CrsEndLine first count → ¬ (first < offset ∧ offset ≤ first + count)) →
    d.offsetAt (d.positionAt offset) = offset
  /-- One after any of these CRs comes back as that of the first of them. -/
  offset_crs : ∀ offset first count : Nat, d.CrsEndLine first count →
    first < offset → offset ≤ first + count → d.offsetAt (d.positionAt offset) = first
  /-- A position comes back with the nearest line, and the nearest character of that line. -/
  position_nearest : ∀ p : Position, ∃ text, d.lineAt (d.nearestLine p.line) = .ok text ∧
    d.positionAt (d.offsetAt p) = ⟨d.nearestLine p.line, max 0 (min p.character text.length)⟩
  /-- Hence it comes back as it is exactly if the document has it. -/
  position_eq_iff : ∀ p : Position, d.positionAt (d.offsetAt p) = p ↔ d.HasPosition p

/-- In every document, offsets and positions lead back as far as lines show them. -/
theorem leadsBack (d : Document) : d.LeadsBack where
  offset_eq _ hoffset hout := offsetAt_positionAt_of_not_crs hoffset hout
  offset_crs _ _ _ hcrs hfirst hlast := hcrs.offsetAt_positionAt hfirst hlast
  position_nearest p := d.positionAt_offsetAt p
  position_eq_iff p := d.positionAt_offsetAt_eq_iff p

-- the CRs at the end of the first line, and of the text
example : (List.range 8).map (fun offset : Nat =>
    let d : Document := { text := "a\rb\r\r\n\r" }
    d.offsetAt (d.positionAt offset)) = [0, 1, 2, 3, 3, 3, 6, 6] := by decide

end CodeOutline.Document
