import CodeOutline.Document
import CodeOutline.Proofs.Text.Basic
import Mathlib.Data.List.TakeWhile

/-!
# The lines of a document

Around every offset a text falls into what is before the line, the line itself and
what is after it. The position of the offset and the text of its line can be read
off these three parts.
-/

namespace CodeOutline.Document

/-! ## Line starts -/

theorem startsAfter_append (n : Nat) (xs ys : List Char) :
    startsAfter n (xs ++ ys) = startsAfter n xs ++ startsAfter (n + xs.length) ys := by
  induction xs generalizing n with
  | nil => rfl
  | cons c cs ih =>
    have hlen : n + (c :: cs).length = n + 1 + cs.length := by
      rw [List.length_cons]
      omega
    rw [List.cons_append, startsAfter, startsAfter, ih, hlen]
    split <;> rfl

theorem startsAfter_eq_nil (n : Nat) {cs : List Char} (h : '\n' ∉ cs) : startsAfter n cs = [] := by
  induction cs generalizing n with
  | nil => rfl
  | cons c cs ih =>
    have hc : c ≠ '\n' := fun hc => h (by simp [hc])
    rw [startsAfter, if_neg hc]
    exact ih (n + 1) fun hmem => h (List.mem_cons_of_mem c hmem)

theorem length_startsAfter (n : Nat) (cs : List Char) :
    (startsAfter n cs).length = cs.count '\n' := by
  induction cs generalizing n with
  | nil => rfl
  | cons c cs ih =>
    rw [startsAfter, List.count_cons]
    split <;> rename_i hc
    · simp [ih, hc]
    · simp [ih, hc]

theorem startsAfter_bounds {n k : Nat} {cs : List Char} (h : k ∈ startsAfter n cs) :
    n < k ∧ k ≤ n + cs.length := by
  induction cs generalizing n with
  | nil => simp [startsAfter] at h
  | cons c cs ih =>
    rw [List.length_cons]
    have hrest : k ∈ startsAfter (n + 1) cs → n < k ∧ k ≤ n + (cs.length + 1) := by
      intro hk
      have := ih hk
      omega
    rw [startsAfter] at h
    split at h
    · rcases List.mem_cons.mp h with rfl | hk
      · omega
      · exact hrest hk
    · exact hrest h

theorem lineCount_eq (d : Document) : d.lineCount = d.chars.count '\n' + 1 := by
  rw [lineCount, lineStarts, List.length_cons, length_startsAfter]

theorem lineCount_pos (d : Document) : 0 < d.lineCount :=
  Nat.succ_pos _

/-! ## A line and its surroundings -/

/-- Characters that fill whole lines: none, or the last one is an LF. -/
def EndsLines (cs : List Char) : Prop :=
  cs = [] ∨ ∃ init, cs = init ++ ['\n']

theorem EndsLines.append {xs ys : List Char} (hx : EndsLines xs) (hy : EndsLines ys) :
    EndsLines (xs ++ ys) := by
  rcases hy with rfl | ⟨init, rfl⟩
  · rw [List.append_nil]
    exact hx
  · exact .inr ⟨xs ++ init, by rw [List.append_assoc]⟩

/-- Whole lines are the first pieces of what is split at LFs. -/
theorem EndsLines.splitOn_append {before : List Char} (h : EndsLines before) :
    ∃ pieces, pieces.length = before.count '\n' ∧
      ∀ rest, (before ++ rest).splitOn '\n' = pieces ++ rest.splitOn '\n' := by
  rcases h with rfl | ⟨init, rfl⟩
  · exact ⟨[], rfl, fun rest => rfl⟩
  · refine ⟨init.splitOn '\n', ?_, fun rest => ?_⟩
    · rw [Text.length_splitOn, List.count_append]
      rfl
    · rw [List.append_assoc]
      exact List.splitOn_append_cons_self init rest

/-- A text in three parts: the lines before a line, the line without its LF, and
what comes after it. -/
structure LineSplit (d : Document) (before line after : List Char) : Prop where
  chars_eq : d.chars = before ++ (line ++ after)
  before_ends : EndsLines before
  line_free : '\n' ∉ line
  after_starts : after = [] ∨ ∃ rest, after = '\n' :: rest

/-- The last of the line starts up to the end of whole lines is that end. -/
theorem getLast?_lineStarts {before : List Char} (h : EndsLines before) :
    (0 :: startsAfter 0 before).getLast? = some before.length := by
  rcases h with rfl | ⟨init, rfl⟩
  · rfl
  · have hone : startsAfter (0 + init.length) ['\n'] = [init.length + 1] := by
      simp [startsAfter]
    rw [startsAfter_append, hone, ← List.cons_append, List.getLast?_concat]
    simp

namespace LineSplit

variable {d : Document} {before line after : List Char}

theorem length_chars (h : LineSplit d before line after) :
    d.chars.length = before.length + line.length + after.length := by
  rw [h.chars_eq, List.length_append, List.length_append]
  omega

theorem lineStarts_eq (h : LineSplit d before line after) :
    d.lineStarts =
      (0 :: startsAfter 0 before) ++ startsAfter (before.length + line.length) after := by
  rw [lineStarts, h.chars_eq, startsAfter_append, startsAfter_append,
    startsAfter_eq_nil _ h.line_free, List.nil_append, Nat.zero_add, List.cons_append]

/-- The starts at or before an offset on the line are those of the lines before
and its own. -/
theorem takeWhile_lineStarts (h : LineSplit d before line after) {k : Nat} (hk : k ≤ line.length) :
    d.lineStarts.takeWhile (· ≤ before.length + k) = 0 :: startsAfter 0 before := by
  have hin : ∀ a ∈ 0 :: startsAfter 0 before, decide (a ≤ before.length + k) = true := by
    intro a ha
    rw [decide_eq_true_eq]
    rcases List.mem_cons.mp ha with rfl | ha
    · omega
    · have := startsAfter_bounds ha
      omega
  have hout : (startsAfter (before.length + line.length) after).takeWhile
      (· ≤ before.length + k) = [] := by
    rw [List.takeWhile_eq_nil_iff]
    intro hlen
    have := startsAfter_bounds (List.get_mem _ ⟨0, hlen⟩)
    rw [decide_eq_true_eq]
    omega
  rw [h.lineStarts_eq, List.takeWhile_append_of_pos hin, hout, List.append_nil]

/-- The offset of a place on the line: so many LFs come before, and so many
characters on the line. -/
theorem positionAt_eq (h : LineSplit d before line after) {k : Nat} (hk : k ≤ line.length) :
    d.positionAt ((before.length + k : Nat) : Int) = ⟨before.count '\n', k⟩ := by
  have hplace : d.clampOffset ((before.length + k : Nat) : Int) = before.length + k := by
    have := h.length_chars
    rw [clampOffset, Int.toNat_natCast]
    omega
  simp only [positionAt, hplace, h.takeWhile_lineStarts hk, List.getLastD_eq_getLast?,
    getLast?_lineStarts h.before_ends, Option.getD_some, List.length_cons, length_startsAfter]
  congr 1 <;> omega

theorem getElem?_lineStarts (h : LineSplit d before line after) :
    d.lineStarts[before.count '\n']? = some before.length := by
  have hlen : (0 :: startsAfter 0 before).length = before.count '\n' + 1 := by
    rw [List.length_cons, length_startsAfter]
  have hlast := getLast?_lineStarts h.before_ends
  rw [h.lineStarts_eq, List.getElem?_append_left (by omega)]
  rw [List.getLast?_eq_getElem?, hlen] at hlast
  exact hlast

theorem lineSpan?_eq (h : LineSplit d before line after) :
    d.lineSpan? (before.count '\n' : Nat) =
      some ((before.length : Int), ((before.length + line.length : Nat) : Int)) := by
  have hcount : d.lineCount = before.count '\n' + 1 + after.count '\n' := by
    rw [lineCount, h.lineStarts_eq, List.length_append, List.length_cons, length_startsAfter,
      length_startsAfter]
  have hget : Slice.get? d.lineStarts (before.count '\n' : Nat) = some before.length := by
    rw [Slice.get?_ofNat, h.getElem?_lineStarts]
  simp only [lineSpan?, hget]
  rcases h.after_starts with hnil | ⟨rest, hrest⟩
  · -- the last line ends with the text
    have hlen := h.length_chars
    rw [hnil, List.count_nil] at hcount
    rw [hnil, List.length_nil] at hlen
    rw [if_neg (by omega), hlen]
    rfl
  · -- any other ends before the LF that the next start follows
    have hnext : Slice.get? d.lineStarts ((before.count '\n' : Nat) + 1) =
        some (before.length + line.length + 1) := by
      rw [← Int.natCast_succ, Slice.get?_ofNat, h.lineStarts_eq,
        List.getElem?_append_right (by rw [List.length_cons, length_startsAfter])]
      simp [length_startsAfter, hrest, startsAfter]
    have hsome : 0 < after.count '\n' := by
      rw [hrest]
      simp
    rw [if_pos (by omega), hnext]
    simp

/-- The characters of the line: its CRs at the end left out. -/
theorem lineChars?_eq (h : LineSplit d before line after) :
    d.lineChars? (before.count '\n' : Nat) = some (Text.trimEnd (· = '\r') line) := by
  have htake : d.chars.take (before.length + line.length) = before ++ line := by
    rw [h.chars_eq, ← List.append_assoc]
    exact List.take_left' (List.length_append)
  rw [lineChars?, h.lineSpan?_eq, Option.map_some, Slice.between_ofNat, htake, List.drop_left]

theorem line_eq (h : LineSplit d before line after) :
    d.line (before.count '\n' : Nat) = Text.trimEnd (· = '\r') line := by
  rw [Document.line, h.lineChars?_eq, Option.getD_some]

theorem lineAt_eq (h : LineSplit d before line after) :
    d.lineAt (before.count '\n' : Nat) = .ok (String.ofList (Text.trimEnd (· = '\r') line)) := by
  rw [lineAt, h.lineChars?_eq]

theorem count_lt_lineCount (h : LineSplit d before line after) :
    before.count '\n' < d.lineCount := by
  rw [lineCount_eq, h.chars_eq, List.count_append]
  omega

/-- A position whose nearest line is the line has its offset there, not past the trimmed
end. -/
theorem offsetAt_eq_min (h : LineSplit d before line after) {p : Position}
    (hline : min p.line.toNat (d.lineCount - 1) = before.count '\n') :
    d.offsetAt p =
      before.length + min p.character.toNat (Text.trimEnd (· = '\r') line).length := by
  simp only [offsetAt, hline, h.line_eq, List.getD_eq_getElem?_getD, h.getElem?_lineStarts,
    Option.getD_some]

/-- A place on the line that is not past its trimmed end has its own offset. -/
theorem offsetAt_eq (h : LineSplit d before line after) {k : Nat}
    (hk : k ≤ (Text.trimEnd (· = '\r') line).length) :
    d.offsetAt ⟨(before.count '\n' : Nat), k⟩ = before.length + k := by
  have hcount := h.count_lt_lineCount
  rw [h.offsetAt_eq_min (by rw [Int.toNat_natCast]; omega), Int.toNat_natCast,
    Nat.min_eq_left hk]

/-- The line is the piece of the text, split at LFs, with the number of the line. -/
theorem getElem?_splitOn (h : LineSplit d before line after) :
    (d.chars.splitOn '\n')[before.count '\n']? = some line := by
  obtain ⟨pieces, hlen, hsplit⟩ := h.before_ends.splitOn_append
  have hline : ∃ more, (line ++ after).splitOn '\n' = line :: more := by
    rcases h.after_starts with rfl | ⟨rest, rfl⟩
    · rw [List.append_nil, List.splitOn_eq_singleton h.line_free]
      exact ⟨[], rfl⟩
    · rw [List.splitOn_append_cons_self, List.splitOn_eq_singleton h.line_free]
      exact ⟨_, rfl⟩
  obtain ⟨more, hmore⟩ := hline
  rw [h.chars_eq, hsplit, hmore, ← hlen, List.getElem?_append_right (Nat.le_refl _),
    Nat.sub_self, List.getElem?_cons_zero]

end LineSplit

/-! ## Every offset is on a line -/

/-- Any text is whole lines and then a part of a line. -/
theorem exists_endsLines (cs : List Char) :
    ∃ before line, cs = before ++ line ∧ EndsLines before ∧ '\n' ∉ line := by
  induction cs with
  | nil => exact ⟨[], [], rfl, .inl rfl, by simp⟩
  | cons c cs ih =>
    obtain ⟨before, line, rfl, hends, hfree⟩ := ih
    by_cases hc : c = '\n'
    · refine ⟨c :: before, line, rfl, .inr ?_, hfree⟩
      rcases hends with rfl | ⟨init, rfl⟩
      · exact ⟨[], by rw [hc]; rfl⟩
      · exact ⟨c :: init, rfl⟩
    · rcases hends with rfl | ⟨init, rfl⟩
      · exact ⟨[], c :: line, rfl, .inl rfl, by simp [hfree, Ne.symm hc]⟩
      · exact ⟨c :: (init ++ ['\n']), line, rfl, .inr ⟨c :: init, rfl⟩, hfree⟩

/-- Any text is a part of a line and then nothing, or an LF and more. -/
theorem exists_lineEnd (cs : List Char) :
    ∃ line after, cs = line ++ after ∧ '\n' ∉ line ∧
      (after = [] ∨ ∃ rest, after = '\n' :: rest) := by
  induction cs with
  | nil => exact ⟨[], [], rfl, by simp, .inl rfl⟩
  | cons c cs ih =>
    by_cases hc : c = '\n'
    · exact ⟨[], c :: cs, rfl, by simp, .inr ⟨cs, by rw [hc]⟩⟩
    · obtain ⟨line, after, rfl, hfree, hafter⟩ := ih
      exact ⟨c :: line, after, rfl, by simp [hfree, Ne.symm hc], hafter⟩

/-- Any number of LFs that a text has end as many whole lines at its start. -/
theorem exists_endsLines_of_le_count {cs : List Char} {number : Nat} (h : number ≤ cs.count '\n') :
    ∃ before rest, cs = before ++ rest ∧ EndsLines before ∧ before.count '\n' = number := by
  induction cs generalizing number with
  | nil => exact ⟨[], [], rfl, .inl rfl, (Nat.le_zero.mp h).symm⟩
  | cons c cs ih =>
    cases number with
    | zero => exact ⟨[], c :: cs, rfl, .inl rfl, rfl⟩
    | succ number =>
      by_cases hc : c = '\n'
      · subst hc
        rw [List.count_cons_self] at h
        obtain ⟨before, rest, rfl, hends, hcount⟩ := ih (Nat.le_of_succ_le_succ h)
        have hfirst : EndsLines ['\n'] := .inr ⟨[], rfl⟩
        exact ⟨'\n' :: before, rest, rfl, hfirst.append hends, by
          rw [List.count_cons_self, hcount]⟩
      · rw [List.count_cons_of_ne hc] at h
        obtain ⟨before, rest, rfl, hends, hcount⟩ := ih h
        rcases hends with rfl | ⟨init, rfl⟩
        · simp at hcount
        · exact ⟨c :: (init ++ ['\n']), rest, rfl, .inr ⟨c :: init, rfl⟩, by
            rw [List.count_cons_of_ne hc, hcount]⟩

/-- Every line that is counted stands in the text. -/
theorem exists_lineSplit_of_lt (d : Document) {number : Nat} (h : number < d.lineCount) :
    ∃ before line after, LineSplit d before line after ∧ before.count '\n' = number := by
  rw [lineCount_eq] at h
  obtain ⟨before, rest, hchars, hends, hcount⟩ := exists_endsLines_of_le_count (Nat.le_of_lt_succ h)
  obtain ⟨line, after, rfl, hfree, hafter⟩ := exists_lineEnd rest
  exact ⟨before, line, after, ⟨hchars, hends, hfree, hafter⟩, hcount⟩

/-- An offset in the text stands on a line, after `k` characters of it. -/
theorem exists_lineSplit (d : Document) {offset : Nat} (h : offset ≤ d.chars.length) :
    ∃ before line after k, LineSplit d before line after ∧ k ≤ line.length ∧
      offset = before.length + k := by
  -- the line runs from the last LF before the offset to the first one after it
  obtain ⟨before, left, htake, hends, hleft⟩ := exists_endsLines (d.chars.take offset)
  obtain ⟨right, after, hdrop, hright, hafter⟩ := exists_lineEnd (d.chars.drop offset)
  refine ⟨before, left ++ right, after, left.length, ⟨?_, hends, ?_, hafter⟩, ?_, ?_⟩
  · rw [List.append_assoc, ← hdrop, ← List.append_assoc, ← htake, List.take_append_drop]
  · rw [List.mem_append]
    exact fun hmem => hmem.elim hleft hright
  · rw [List.length_append]
    omega
  · have hlen := congrArg List.length htake
    rw [List.length_take, List.length_append] at hlen
    omega

end CodeOutline.Document
