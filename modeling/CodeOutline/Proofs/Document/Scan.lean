import CodeOutline.Proofs.Document.Ranges

/-!
# Positions by a scan of the text

A scan that reads a text character by character counts the LFs and the characters since
the last of them. What a document tells of its offsets and its lines, by its table of line
starts, is what such a scan tells.
-/

namespace CodeOutline

namespace Position

/-- A position before another: on an earlier line, or on the same line and earlier there. -/
def Precedes (p q : Position) : Prop :=
  p.line < q.line ∨ p.line = q.line ∧ p.character < q.character

theorem Precedes.trans {p q r : Position} (hpq : p.Precedes q) (hqr : q.Precedes r) :
    p.Precedes r := by
  unfold Precedes at *
  omega

end Position

namespace Document

/-! ## The scan -/

/-- The position after some characters: the LFs among them, and the characters since the
last LF or since the start. -/
def scan (read : List Char) : Position :=
  ⟨read.count '\n', (read.rtakeWhile (· ≠ '\n')).length⟩

/-- An LF starts a line, any other character is one more on its line. -/
theorem scan_concat (read : List Char) (c : Char) :
    scan (read ++ [c]) =
      if c = '\n' then ⟨(scan read).line + 1, 0⟩
      else ⟨(scan read).line, (scan read).character + 1⟩ := by
  split
  · rename_i hc
    simp [scan, hc]
  · rename_i hc
    simp [scan, hc]

/-- Whole lines and a part of a line are scanned to the place after that part. -/
theorem EndsLines.scan_append {before line : List Char} (hends : EndsLines before)
    (hfree : '\n' ∉ line) : scan (before ++ line) = ⟨before.count '\n', line.length⟩ := by
  induction line using List.reverseRecOn with
  | nil =>
    rcases hends with rfl | ⟨init, rfl⟩
    · rfl
    · simp [scan]
  | append_singleton line c ih =>
    rw [List.mem_append, List.mem_singleton, not_or] at hfree
    rw [← List.append_assoc, scan_concat, ih hfree.1, if_neg (Ne.symm hfree.2)]
    simp

/-- Every character that is read moves the scan on. -/
theorem scan_precedes_concat (read : List Char) (c : Char) :
    (scan read).Precedes (scan (read ++ [c])) := by
  rw [scan_concat]
  unfold Position.Precedes
  split
  · left
    show (scan read).line < (scan read).line + 1
    omega
  · right
    show (scan read).line = (scan read).line ∧ (scan read).character < (scan read).character + 1
    omega

/-- Reading on moves the position on: a LF starts a later line, and any other character stands
later on its line. -/
theorem scan_precedes_append (read : List Char) {more : List Char} (h : more ≠ []) :
    (scan read).Precedes (scan (read ++ more)) := by
  induction more using List.reverseRecOn with
  | nil => exact absurd rfl h
  | append_singleton more c ih =>
    rw [← List.append_assoc]
    rcases List.eq_nil_or_concat more with rfl | ⟨init, last, rfl⟩
    · rw [List.append_nil]
      exact scan_precedes_concat read c
    · exact (ih (by simp)).trans (scan_precedes_concat _ c)

/-! ## Positions -/

/-- The position of an offset is that after a scan of the characters before it. -/
theorem positionAt_eq_scan (d : Document) (offset : Int) :
    d.positionAt offset = scan (d.chars.take (d.clampOffset offset)) := by
  obtain ⟨before, line, after, k, hsplit, hk, hoffset⟩ :=
    d.exists_lineSplit (d.clampOffset_le offset)
  have htake : d.chars.take (d.clampOffset offset) = before ++ line.take k := by
    rw [hoffset, hsplit.chars_eq, List.take_length_add_append, List.take_append_of_le_length hk]
  have hfree : '\n' ∉ line.take k := fun hmem => hsplit.line_free (List.mem_of_mem_take hmem)
  rw [htake, hsplit.before_ends.scan_append hfree, List.length_take_of_le hk,
    ← d.positionAt_clampOffset offset, hoffset, hsplit.positionAt_eq hk]

theorem positionAt_precedes (d : Document) {a b : Nat} (hab : a < b) (hb : b ≤ d.chars.length) :
    (d.positionAt a).Precedes (d.positionAt b) := by
  have hplace : ∀ k : Nat, k ≤ d.chars.length → d.clampOffset k = k := by
    intro k hk
    rw [clampOffset, Int.toNat_natCast, Nat.min_eq_left hk]
  have hmore : d.chars.take b = d.chars.take a ++ (d.chars.drop a).take (b - a) := by
    rw [← List.take_add]
    congr 1
    omega
  rw [positionAt_eq_scan, positionAt_eq_scan, hplace a (by omega), hplace b hb, hmore]
  apply scan_precedes_append
  intro hnil
  have hlen := congrArg List.length hnil
  rw [List.length_take, List.length_drop, List.length_nil] at hlen
  omega

/-! ## Bisection

The line of an offset is found where the line starts pass the offset. As they ascend there
is only one such place, whichever way it is looked for. -/

theorem pairwise_startsAfter (n : Nat) (cs : List Char) : (startsAfter n cs).Pairwise (· < ·) := by
  induction cs generalizing n with
  | nil => exact .nil
  | cons c cs ih =>
    rw [startsAfter]
    split
    · exact .cons (fun k hk => (startsAfter_bounds hk).1) (ih (n + 1))
    · exact ih (n + 1)

theorem pairwise_lineStarts (d : Document) : d.lineStarts.Pairwise (· < ·) :=
  .cons (fun _ hk => (startsAfter_bounds hk).1) (pairwise_startsAfter 0 d.chars)

/-- A number of line starts is at or before an offset, and all others are after it. -/
def Parts (d : Document) (place number : Nat) : Prop :=
  (∀ start ∈ d.lineStarts.take number, start ≤ place) ∧
    ∀ start ∈ d.lineStarts.drop number, place < start

/-- There is one number that parts the line starts at an offset, that of the starts at or before
it: starts ascend, so those come first. -/
theorem Parts.length_takeWhile {d : Document} {place number : Nat} (h : d.Parts place number)
    (hnumber : number ≤ d.lineCount) :
    (d.lineStarts.takeWhile (· ≤ place)).length = number := by
  have hin : ∀ start ∈ d.lineStarts.take number, decide (start ≤ place) = true := by
    intro start hstart
    exact decide_eq_true (h.1 start hstart)
  have hout : (d.lineStarts.drop number).takeWhile (· ≤ place) = [] := by
    rw [List.takeWhile_eq_nil_iff]
    intro hlen
    have := h.2 _ (List.get_mem _ ⟨0, hlen⟩)
    rw [decide_eq_true_eq]
    omega
  rw [← List.take_append_drop number d.lineStarts, List.takeWhile_append_of_pos hin, hout,
    List.append_nil, List.length_take_of_le hnumber]

theorem lt_of_mem_dropWhile {starts : List Nat} (hasc : starts.Pairwise (· < ·)) {place start : Nat}
    (h : start ∈ starts.dropWhile (· ≤ place)) : place < start := by
  induction hasc with
  | nil => simp at h
  | @cons first rest hfirst _ ih =>
    rw [List.dropWhile_cons] at h
    split at h
    · exact ih h
    · rename_i hplace
      rw [decide_eq_true_eq] at hplace
      rcases List.mem_cons.mp h with rfl | hmem
      · omega
      · have := hfirst start hmem
        omega

theorem parts_of_append {d : Document} {place : Nat} {passed rest : List Nat}
    (h : d.lineStarts = passed ++ rest) (hpassed : ∀ start ∈ passed, start ≤ place)
    (hrest : ∀ start ∈ rest, place < start) : d.Parts place passed.length := by
  rw [Parts, h, List.take_left, List.drop_left]
  exact ⟨hpassed, hrest⟩

theorem parts_takeWhile (d : Document) (place : Nat) :
    d.Parts place (d.lineStarts.takeWhile (· ≤ place)).length := by
  apply parts_of_append List.takeWhile_append_dropWhile.symm
  · intro start hstart
    have hle := List.mem_takeWhile_imp hstart
    exact of_decide_eq_true hle
  · intro start hstart
    exact lt_of_mem_dropWhile d.pairwise_lineStarts hstart

/-- The line of an offset is the one whose number parts the line starts there. -/
theorem parts_iff (d : Document) (offset : Int) {number : Nat} (hnumber : number ≤ d.lineCount) :
    d.Parts (d.clampOffset offset) number ↔ (d.positionAt offset).line + 1 = number := by
  have hline : (d.positionAt offset).line + 1 =
      (d.lineStarts.takeWhile (· ≤ d.clampOffset offset)).length := by
    simp only [positionAt]
    omega
  rw [hline, Int.natCast_inj]
  constructor
  · intro h
    exact h.length_takeWhile hnumber
  · rintro rfl
    exact d.parts_takeWhile _

/-! ## Lines -/

theorem lineAt_of_lineCount_le (d : Document) {index : Int} (h : d.lineCount ≤ index) :
    d.lineAt index = .error (.ofIndex index) := by
  have hnone : Slice.get? d.lineStarts index = none := by
    obtain ⟨k, rfl⟩ := Int.eq_ofNat_of_zero_le (Int.le_trans (Int.natCast_nonneg _) h)
    rw [Slice.get?_ofNat]
    exact List.getElem?_eq_none (Int.ofNat_le.mp h)
  rw [lineAt, lineChars?, lineSpan?, hnone]
  rfl

/-- What a document tells of its offsets and lines, as a scan of its text has it. -/
structure FollowsScan (d : Document) : Prop where
  /-- The position of an offset, taken to the nearest one in the text, is that after the
  characters before it. -/
  position_eq : ∀ offset : Int,
    d.positionAt offset = scan (d.chars.take (max 0 (min offset d.chars.length)).toNat)
  /-- A later offset in the text has a later position. -/
  position_increases : ∀ a b : Nat, a < b → b ≤ d.chars.length →
    (d.positionAt a).Precedes (d.positionAt b)
  /-- The line of an offset is the only place at which the line starts pass it. -/
  bisected : ∀ (offset : Int) (number : Nat), number ≤ d.lineCount →
    (d.Parts (d.clampOffset offset) number ↔ (d.positionAt offset).line + 1 = number)
  /-- There is one line more than LFs. -/
  lineCount_eq : d.lineCount = d.chars.count '\n' + 1
  /-- The lines are the pieces between the LFs, less the CRs at their ends. -/
  line_eq : ∀ index : Nat, index < d.lineCount → ∃ piece,
    (d.chars.splitOn '\n')[index]? = some piece ∧
      d.lineAt index = .ok (String.ofList (piece.rdropWhile (· = '\r')))
  /-- There is no line after the last. -/
  no_line : ∀ index : Int, d.lineCount ≤ index → d.lineAt index = .error (.ofIndex index)

/-- Every document tells of its offsets and lines what a scan of its text tells. -/
theorem followsScan (d : Document) : d.FollowsScan where
  position_eq offset := by
    have hplace : d.clampOffset offset = (max 0 (min offset d.chars.length)).toNat := by
      unfold clampOffset
      omega
    rw [positionAt_eq_scan, hplace]
  position_increases _ _ hab hb := d.positionAt_precedes hab hb
  bisected offset _ hnumber := d.parts_iff offset hnumber
  lineCount_eq := d.lineCount_eq
  line_eq index hindex := by
    obtain ⟨before, line, after, hsplit, rfl⟩ := d.exists_lineSplit_of_lt hindex
    refine ⟨line, ?_, hsplit.lineAt_eq⟩
    exact hsplit.getElem?_splitOn
  no_line _ h := d.lineAt_of_lineCount_le h

-- on an LF, after it, on an empty line, after the last LF, and outside the text
example : [-3, 1, 2, 3, 4, 5, 9].map (fun offset : Int =>
    (({ text := "a\n\nb\r" } : Document).positionAt offset)) =
    [⟨0, 0⟩, ⟨0, 1⟩, ⟨1, 0⟩, ⟨2, 0⟩, ⟨2, 1⟩, ⟨2, 2⟩, ⟨2, 2⟩] := by decide

end Document

end CodeOutline
