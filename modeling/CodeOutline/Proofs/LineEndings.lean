import CodeOutline.Proofs.Document.Lines
import CodeOutline.Proofs.Outline.Agreement
import CodeOutline.Proofs.Text.Basic

/-!
# Line endings

A text whose lines end in CR LF has the outline of the same text with lines that end
in LF, once the offsets of its declarations are moved past the added CRs.
-/

namespace CodeOutline

namespace Text

/-- The text with a CR put before each LF. -/
def withCrlf (cs : List Char) : List Char :=
  cs.flatMap fun c => if c = '\n' then ['\r', '\n'] else [c]

/-- The offset in `withCrlf cs` of what stands at an offset in `cs`: one more for each
LF before it. -/
def crlfOffset (cs : List Char) (offset : Int) : Int :=
  offset + ((cs.take offset.toNat).count '\n' : Nat)

theorem withCrlf_append (xs ys : List Char) : withCrlf (xs ++ ys) = withCrlf xs ++ withCrlf ys :=
  List.flatMap_append

theorem withCrlf_cons (c : Char) (cs : List Char) :
    withCrlf (c :: cs) = (if c = '\n' then ['\r', '\n'] else [c]) ++ withCrlf cs :=
  List.flatMap_cons

theorem withCrlf_lf_cons (cs : List Char) : withCrlf ('\n' :: cs) = '\r' :: '\n' :: withCrlf cs :=
  rfl

theorem withCrlf_cons_of_ne {c : Char} (hc : c ≠ '\n') (cs : List Char) :
    withCrlf (c :: cs) = c :: withCrlf cs := by
  rw [withCrlf_cons, if_neg hc]
  rfl

theorem withCrlf_eq_self {cs : List Char} (h : '\n' ∉ cs) : withCrlf cs = cs := by
  induction cs with
  | nil => rfl
  | cons c cs ih =>
    have hc : c ≠ '\n' := fun hc => h (by simp [hc])
    rw [withCrlf_cons_of_ne hc, ih fun hmem => h (List.mem_cons_of_mem c hmem)]

theorem length_withCrlf (cs : List Char) :
    (withCrlf cs).length = cs.length + cs.count '\n' := by
  induction cs with
  | nil => rfl
  | cons c cs ih =>
    by_cases hc : c = '\n'
    · subst hc
      rw [withCrlf_lf_cons, List.count_cons_self]
      simp only [List.length_cons, ih]
      omega
    · rw [withCrlf_cons_of_ne hc, List.count_cons_of_ne hc]
      simp only [List.length_cons, ih]
      omega

theorem count_withCrlf (cs : List Char) : (withCrlf cs).count '\n' = cs.count '\n' := by
  induction cs with
  | nil => rfl
  | cons c cs ih =>
    by_cases hc : c = '\n'
    · subst hc
      rw [withCrlf_lf_cons, List.count_cons_of_ne (by decide), List.count_cons_self,
        List.count_cons_self, ih]
    · rw [withCrlf_cons_of_ne hc, List.count_cons_of_ne hc, List.count_cons_of_ne hc, ih]

/-! ## Stretches -/

theorem crlfOffset_ofNat {cs : List Char} {k : Nat} (hk : k ≤ cs.length) :
    crlfOffset cs (k : Int) = ((withCrlf (cs.take k)).length : Nat) := by
  rw [crlfOffset, Int.toNat_natCast, length_withCrlf, List.length_take, Nat.min_eq_left hk]
  exact (Int.natCast_add _ _).symm

/-- A stretch of the text with CRs added is the stretch of the text, with CRs added. -/
theorem between_withCrlf {cs : List Char} {i j : Nat} (hi : i ≤ cs.length) (hj : j ≤ cs.length) :
    Slice.between (withCrlf cs) (crlfOffset cs i) (crlfOffset cs j) =
      withCrlf (Slice.between cs i j) := by
  rw [crlfOffset_ofNat hi, crlfOffset_ofNat hj, Slice.between_ofNat, Slice.between_ofNat]
  exact Slice.drop_take_spelledTo _ cs i j

/-! ## Words -/

theorem cr_mem_withCrlf {cs : List Char} (h : '\n' ∈ cs) : '\r' ∈ withCrlf cs :=
  List.mem_flatMap.mpr ⟨'\n', h, by simp⟩

/-- A text that becomes a word without a line break was that word. -/
theorem withCrlf_eq_iff {cs word : List Char} (hlf : '\n' ∉ word) (hcr : '\r' ∉ word) :
    withCrlf cs = word ↔ cs = word := by
  constructor
  · intro h
    have hfree : '\n' ∉ cs := fun hmem => hcr (h ▸ cr_mem_withCrlf hmem)
    rw [← h, withCrlf_eq_self hfree]
  · rintro rfl
    exact withCrlf_eq_self hlf

/-- A word without line breaks starts a text exactly if it starts the text with CRs put in. -/
theorem prefix_withCrlf_iff {cs word : List Char} (hlf : '\n' ∉ word) (hcr : '\r' ∉ word) :
    word <+: withCrlf cs ↔ word <+: cs := by
  induction cs generalizing word with
  | nil => rfl
  | cons c cs ih =>
    cases word with
    | nil => simp
    | cons w word =>
      by_cases hc : c = '\n'
      · -- the word starts neither with the LF nor with the CR put before it
        subst hc
        have hr : w ≠ '\r' := fun h => hcr (by simp [h])
        have hn : w ≠ '\n' := fun h => hlf (by simp [h])
        rw [withCrlf_lf_cons, List.cons_prefix_cons, List.cons_prefix_cons]
        simp [hr, hn]
      · rw [withCrlf_cons_of_ne hc, List.cons_prefix_cons, List.cons_prefix_cons,
          ih (fun h => hlf (List.mem_cons_of_mem w h)) fun h => hcr (List.mem_cons_of_mem w h)]

/-- A CR put before an LF stays in the word of the LF, and parts no words. -/
theorem splitOn_withCrlf (cs : List Char) :
    (withCrlf cs).splitOn ' ' = (cs.splitOn ' ').map withCrlf := by
  induction cs with
  | nil => rfl
  | cons c cs ih =>
    obtain ⟨piece, rest, hsplit⟩ := List.exists_cons_of_ne_nil (List.splitOn_ne_nil ' ' cs)
    rw [hsplit, List.map_cons] at ih
    by_cases hc : c = '\n'
    · subst hc
      rw [withCrlf_lf_cons, splitOn_cons_of_ne (by decide) (splitOn_cons_of_ne (by decide) ih),
        splitOn_cons_of_ne (by decide) hsplit, List.map_cons, withCrlf_lf_cons]
    by_cases hblank : c = ' '
    · subst hblank
      have hfirst : ∀ ds : List Char, (' ' :: ds).splitOn ' ' = [] :: ds.splitOn ' ' :=
        List.splitOn_append_cons_self []
      rw [withCrlf_cons_of_ne hc, hfirst, hfirst, hsplit, ih]
      rfl
    · rw [withCrlf_cons_of_ne hc, splitOn_cons_of_ne hblank ih, splitOn_cons_of_ne hblank hsplit,
        List.map_cons, withCrlf_cons_of_ne hc]

/-- Where blanks include both line breaks, it is the same to drop leading blanks before the CRs
are put in or after. -/
theorem dropWhile_withCrlf {p : Char → Bool} (hr : p '\r' = true) (hn : p '\n' = true)
    (cs : List Char) : (withCrlf cs).dropWhile p = withCrlf (cs.dropWhile p) := by
  induction cs with
  | nil => rfl
  | cons c cs ih =>
    by_cases hc : c = '\n'
    · subst hc
      rw [withCrlf_lf_cons, List.dropWhile_cons_of_pos hr, List.dropWhile_cons_of_pos hn,
        List.dropWhile_cons_of_pos hn, ih]
    · rw [withCrlf_cons_of_ne hc, List.dropWhile_cons, List.dropWhile_cons]
      split
      · exact ih
      · rw [withCrlf_cons_of_ne hc]

end Text

/-- Modifiers are detected alike: they are words, and CRs are put in only where words end. -/
theorem Modifiers.detect_withCrlf (cs : List Char) :
    Modifiers.detect (String.ofList (Text.withCrlf cs)) = Modifiers.detect (String.ofList cs) := by
  have hcontains : ∀ (words : List (List Char)) (word : List Char), '\n' ∉ word → '\r' ∉ word →
      (words.map Text.withCrlf).contains word = words.contains word := by
    intro words word hlf hcr
    rw [Bool.eq_iff_iff]
    simp [Text.withCrlf_eq_iff hlf hcr]
  simp only [Modifiers.detect, String.toList_ofList, Text.splitOn_withCrlf, ← List.map_take]
  rw [hcontains _ _ (by decide) (by decide), hcontains _ _ (by decide) (by decide)]

/-! ## Documents -/

namespace Document

/-- The document with a CR put before each LF. -/
def withCrlf (d : Document) : Document :=
  { d with text := String.ofList (Text.withCrlf d.chars) }

theorem chars_withCrlf (d : Document) : d.withCrlf.chars = Text.withCrlf d.chars :=
  String.toList_ofList

theorem EndsLines.withCrlf {cs : List Char} (h : EndsLines cs) : EndsLines (Text.withCrlf cs) := by
  rcases h with rfl | ⟨init, rfl⟩
  · exact .inl rfl
  · refine .inr ⟨Text.withCrlf init ++ ['\r'], ?_⟩
    rw [Text.withCrlf_append, List.append_assoc]
    rfl

theorem trimEnd_append_cr (cs : List Char) :
    Text.trimEnd (· = '\r') (cs ++ ['\r']) = Text.trimEnd (· = '\r') cs := by
  rw [Text.trimEnd, List.reverse_append]
  rfl

variable {d : Document}

/-- A line keeps its text, as the CR that it gains is trimmed. -/
theorem LineSplit.withCrlf {before line after : List Char} (h : LineSplit d before line after) :
    ∃ line' after', LineSplit d.withCrlf (Text.withCrlf before) line' after' ∧
      line.length ≤ line'.length ∧
      Text.trimEnd (· = '\r') line' = Text.trimEnd (· = '\r') line := by
  have hchars : d.withCrlf.chars =
      Text.withCrlf before ++ (line ++ Text.withCrlf after) := by
    rw [chars_withCrlf, h.chars_eq, Text.withCrlf_append, Text.withCrlf_append,
      Text.withCrlf_eq_self h.line_free]
  rcases h.after_starts with rfl | ⟨rest, rfl⟩
  · exact ⟨line, [], ⟨hchars, h.before_ends.withCrlf, h.line_free, .inl rfl⟩, Nat.le_refl _, rfl⟩
  · refine ⟨line ++ ['\r'], '\n' :: Text.withCrlf rest,
      ⟨?_, h.before_ends.withCrlf, ?_, .inr ⟨_, rfl⟩⟩, ?_, trimEnd_append_cr line⟩
    · rw [hchars, Text.withCrlf_lf_cons, List.append_assoc]
      rfl
    · rw [List.mem_append]
      rintro (hmem | hmem)
      · exact h.line_free hmem
      · simp at hmem
    · rw [List.length_append]
      omega

/-- An offset keeps its position, and its line keeps its text. -/
theorem positionAt_withCrlf {offset : Int} (h0 : 0 ≤ offset) (hlen : offset ≤ d.chars.length) :
    d.withCrlf.positionAt (Text.crlfOffset d.chars offset) = d.positionAt offset ∧
      d.withCrlf.line (d.positionAt offset).line = d.line (d.positionAt offset).line := by
  obtain ⟨k, rfl⟩ := Int.eq_ofNat_of_zero_le h0
  have hk : k ≤ d.chars.length := by omega
  obtain ⟨before, line, after, j, hsplit, hj, rfl⟩ := d.exists_lineSplit hk
  obtain ⟨line', after', hsplit', hlonger, htrim⟩ := hsplit.withCrlf
  -- up to the offset there are the lines before, and `j` characters that are no LF
  have hmoved : Text.crlfOffset d.chars ((before.length + j : Nat) : Int) =
      (((Text.withCrlf before).length + j : Nat) : Int) := by
    have htake : d.chars.take (before.length + j) = before ++ line.take j := by
      rw [hsplit.chars_eq, List.take_length_add_append, List.take_append_of_le_length hj]
    have hfree : '\n' ∉ line.take j := fun hmem => hsplit.line_free (List.mem_of_mem_take hmem)
    rw [Text.crlfOffset_ofNat hk, htake, Text.withCrlf_append, Text.withCrlf_eq_self hfree,
      List.length_append, List.length_take, Nat.min_eq_left hj]
  have hplace := hsplit.positionAt_eq hj
  have hplace' := hsplit'.positionAt_eq (Nat.le_trans hj hlonger)
  have hline := hsplit.line_eq
  have hline' := hsplit'.line_eq
  rw [Text.count_withCrlf] at hplace' hline'
  constructor
  · rw [hmoved, hplace, hplace']
  · rw [hplace, hline, hline', htrim]

/-- Whether a text is strict is told by how it starts after blanks, and CRs are blanks. -/
theorem isStrict_withCrlf (d : Document) : d.withCrlf.isStrict = d.isStrict := by
  have hhead : d.withCrlf.chars.dropWhile isPreamble =
      Text.withCrlf (d.chars.dropWhile isPreamble) := by
    rw [chars_withCrlf, Text.dropWhile_withCrlf rfl rfl]
  have hpre : ∀ directive ∈ ["\"use strict\"", "'use strict'"],
      directive.toList.isPrefixOf (Text.withCrlf (d.chars.dropWhile isPreamble)) =
        directive.toList.isPrefixOf (d.chars.dropWhile isPreamble) := by
    intro directive hdirective
    have hfree : '\n' ∉ directive.toList ∧ '\r' ∉ directive.toList := by
      revert directive
      decide
    rw [Bool.eq_iff_iff, List.isPrefixOf_iff_prefix, List.isPrefixOf_iff_prefix,
      Text.prefix_withCrlf_iff hfree.1 hfree.2]
  rw [isStrict, isStrict, hhead]
  simp only [List.any_cons, List.any_nil, hpre _ (List.mem_cons_self ..),
    hpre _ (List.mem_cons_of_mem _ (List.mem_cons_self ..))]

theorem modifiers_withCrlf {start : Int} {stop : Option Int}
    (h : ∀ offset ∈ spanOffsets start stop, 0 ≤ offset ∧ offset ≤ d.chars.length) :
    d.withCrlf.modifiers (Text.crlfOffset d.chars start) (stop.map (Text.crlfOffset d.chars)) =
      d.modifiers start stop := by
  obtain ⟨h0, hlen⟩ := h start (by simp [spanOffsets])
  cases stop with
  | none =>
    -- the text runs to the end of a line, which keeps its text
    obtain ⟨hplace, hline⟩ := positionAt_withCrlf h0 hlen
    simp only [modifiers, textBetween, Option.map_none, hplace, hline]
  | some stop =>
    obtain ⟨h0', hlen'⟩ := h stop (by simp [spanOffsets])
    obtain ⟨i, rfl⟩ := Int.eq_ofNat_of_zero_le h0
    obtain ⟨j, rfl⟩ := Int.eq_ofNat_of_zero_le h0'
    simp only [modifiers, textBetween, Option.map_some]
    rw [chars_withCrlf, Text.between_withCrlf (Int.ofNat_le.mp hlen) (Int.ofNat_le.mp hlen'),
      Modifiers.detect_withCrlf]

/-- A document agrees with the one with CRs put in at all offsets inside of the text: positions,
identifiers and modifiers are the same there. -/
theorem agrees_withCrlf (d : Document) :
    Agrees d d.withCrlf (Text.crlfOffset d.chars)
      (fun offset => 0 ≤ offset ∧ offset ≤ d.chars.length) where
  isStrict_eq := isStrict_withCrlf d
  positionAt_eq h := (positionAt_withCrlf h.1 h.2).1
  sight_eq name offset h := by
    obtain ⟨hplace, hline⟩ := positionAt_withCrlf h.1 h.2
    rw [sight, sight, hplace, hline]
  modifiers_eq h := modifiers_withCrlf h

end Document

/-! ## Outlines -/

/-- Over the text with a CR before each LF, a unit whose offsets are moved past the added
CRs has the outline that it has over the text itself: the same tokens, flags and
positions, or the same fault, and the same notes. -/
theorem Outline.ofUnit_withCrlf (d : Document) (config : Config) (unit : SourceUnit)
    (h : ∀ offset ∈ unit.offsets, 0 ≤ offset ∧ offset ≤ d.chars.length) :
    Outline.ofUnit d.withCrlf config (unit.mapOffsets (Text.crlfOffset d.chars)) =
      Outline.ofUnit d config unit :=
  (Document.agrees_withCrlf d).ofUnit_eq config h

/-- A strict text with a class whose members do not know their flags. -/
def flaggedText : Document :=
  { text := "'use strict'\nclass A \x7b\n  readonly b = 1\n  static f() \x7b\x7d\n\x7d" }

/-- The class of `flaggedText`. It is not known where its method ends. -/
def flaggedUnit : SourceUnit :=
  .declaring (.ofClass
    { name := "A", start := 13, stop := some 57,
      methods := [{ name := "f", start := 42 }],
      properties := [{ name := "b", start := 25, stop := some 39 }] })

theorem ofUnit_withCrlf_flagged :
    (∀ offset ∈ flaggedUnit.offsets, 0 ≤ offset ∧ offset ≤ flaggedText.chars.length) ∧
      Outline.ofUnit flaggedText.withCrlf {}
          (flaggedUnit.mapOffsets (Text.crlfOffset flaggedText.chars)) =
        Outline.ofUnit flaggedText {} flaggedUnit ∧
      (Outline.ofUnit flaggedText {} flaggedUnit).result =
        .ok ⟨true, some [.ofEntity
          { name := "A",
            methods := some [{ name := "f", isStatic := true,
                               position := some ⟨⟨3, 9⟩, ⟨3, 10⟩⟩ }],
            properties := some [{ name := "@b", isReadonly := true,
                                  position := some ⟨⟨2, 11⟩, ⟨2, 12⟩⟩ }] }],
          none, none, none, none⟩ := by
  have hoffsets : ∀ offset ∈ flaggedUnit.offsets,
      0 ≤ offset ∧ offset ≤ flaggedText.chars.length := by
    decide
  exact ⟨hoffsets, Outline.ofUnit_withCrlf flaggedText {} flaggedUnit hoffsets, by decide⟩

end CodeOutline
