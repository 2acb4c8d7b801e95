import CodeOutline.Proofs.Document.Lines
import CodeOutline.Proofs.Text.Basic
import CodeOutline.Token.OfDeclaration

/-!
# Ranges in a document

The positions that a document gives, for any offset, and the ranges that it finds for
names lie on its lines. A later offset is never on an earlier line.
-/

namespace CodeOutline

namespace Document

/-- A range on one line of a document: the text, split at LFs, has a piece with the number
of that line, and the ends of the range are in order and not past the end of the piece. -/
def Holds (d : Document) (r : Range) : Prop :=
  ∃ (number : Nat) (piece : List Char),
    number < d.lineCount ∧ (d.chars.splitOn '\n')[number]? = some piece ∧
    r.start.line = number ∧ r.stop.line = number ∧
    0 ≤ r.start.character ∧ r.start.character ≤ r.stop.character ∧
    r.stop.character ≤ piece.length

variable {d : Document}

theorem LineSplit.holds {before line after : List Char} (h : LineSplit d before line after)
    {i j : Nat} (hij : i ≤ j) (hj : j ≤ line.length) :
    d.Holds ⟨⟨(before.count '\n' : Nat), i⟩, ⟨(before.count '\n' : Nat), j⟩⟩ :=
  ⟨before.count '\n', line, h.count_lt_lineCount, h.getElem?_splitOn, rfl, rfl,
    Int.natCast_nonneg i, Int.ofNat_le.mpr hij, Int.ofNat_le.mpr hj⟩

theorem clampOffset_le (d : Document) (offset : Int) : d.clampOffset offset ≤ d.chars.length :=
  Nat.min_le_right _ _

/-- An offset has the position of the nearest one in the text. -/
theorem positionAt_clampOffset (d : Document) (offset : Int) :
    d.positionAt (d.clampOffset offset : Nat) = d.positionAt offset := by
  have htwice : d.clampOffset (d.clampOffset offset : Nat) = d.clampOffset offset := by
    rw [clampOffset, Int.toNat_natCast, Nat.min_eq_left (d.clampOffset_le offset)]
  rw [positionAt, positionAt, htwice]

/-- Any offset, also one outside the text, has a position on a line. -/
theorem exists_positionAt (d : Document) (offset : Int) :
    ∃ before line after k, LineSplit d before line after ∧ k ≤ line.length ∧
      d.positionAt offset = ⟨(before.count '\n' : Nat), (k : Nat)⟩ := by
  obtain ⟨before, line, after, k, hsplit, hk, hoffset⟩ :=
    d.exists_lineSplit (d.clampOffset_le offset)
  refine ⟨before, line, after, k, hsplit, hk, ?_⟩
  rw [← d.positionAt_clampOffset offset, hoffset, hsplit.positionAt_eq hk]

theorem holds_positionAt (d : Document) (offset : Int) :
    d.Holds (Range.empty (d.positionAt offset)) := by
  obtain ⟨before, line, after, k, hsplit, hk, hplace⟩ := d.exists_positionAt offset
  rw [hplace]
  exact hsplit.holds (Nat.le_refl k) hk

/-- A name is looked for on the line of the offset, its CRs at the end left out. -/
theorem LineSplit.sight_eq {before line after : List Char} (h : LineSplit d before line after)
    {offset : Int} {k : Nat} (hplace : d.positionAt offset = ⟨(before.count '\n' : Nat), (k : Nat)⟩)
    (name : String) :
    d.sight name offset = Search.sight name.toList (Text.trimEnd (· = '\r') line) := by
  rw [sight, hplace, h.line_eq]

theorem holds_identifierRange (d : Document) (name : String) (offset : Int) :
    d.Holds (d.identifierRange name offset) := by
  obtain ⟨before, line, after, k, hsplit, hk, hplace⟩ := d.exists_positionAt offset
  have hsight := hsplit.sight_eq hplace name
  have htrim := Text.length_trimEnd_le (· = '\r') line
  simp only [identifierRange, hsight, hplace]
  cases hfound : Search.sight name.toList (Text.trimEnd (· = '\r') line) with
  | absent => exact hsplit.holds (Nat.le_refl k) hk
  | unique place =>
    have hend := Search.add_length_le_of_sight (.inl hfound)
    exact hsplit.holds (Nat.le_add_right place _) (Nat.le_trans hend htrim)
  | repeated first =>
    have hend := Search.add_length_le_of_sight (.inr hfound)
    exact hsplit.holds (Nat.le_refl first) (by omega)

/-! ## Lines in order -/

theorem length_takeWhile_le {α : Type} {p q : α → Bool} (h : ∀ a, p a = true → q a = true)
    (xs : List α) : (xs.takeWhile p).length ≤ (xs.takeWhile q).length := by
  induction xs with
  | nil => simp
  | cons x xs ih =>
    by_cases hx : p x = true
    · simp [hx, h x hx, ih]
    · simp [hx]

/-- A later offset is on the same line or on a later one. -/
theorem line_positionAt_mono (d : Document) {a b : Int} (h : a ≤ b) :
    (d.positionAt a).line ≤ (d.positionAt b).line := by
  have hclamp : d.clampOffset a ≤ d.clampOffset b := by
    unfold clampOffset
    omega
  have hstarts : (d.lineStarts.takeWhile (· ≤ d.clampOffset a)).length ≤
      (d.lineStarts.takeWhile (· ≤ d.clampOffset b)).length := by
    apply length_takeWhile_le
    intro start hstart
    simp only [decide_eq_true_eq] at hstart ⊢
    omega
  simp only [positionAt]
  omega

/-- A name is looked for on the line of its offset, and its range stays there. -/
theorem line_identifierRange (d : Document) (name : String) (offset : Int) :
    (d.identifierRange name offset).start.line = (d.positionAt offset).line := by
  unfold identifierRange
  cases d.sight name offset <;> rfl

/-! ## Names found on a line

A search for a name always ends in a range. If the name stands once on the line, the range
has the name for its text. Otherwise the range has no width, and so no text: at the first
of several places, which leaves a note, or at the offset if there is no place. -/

variable {d : Document} {before line after : List Char}

theorem getText_empty (d : Document) (p : Position) : d.getText (some (Range.empty p)) = "" := by
  have hnil : (d.chars.take (d.offsetAt p)).drop (d.offsetAt p) = [] :=
    List.drop_eq_nil_of_le (List.length_take_le _ _)
  rw [getText, Range.empty, Slice.between_ofNat, hnil]

/-- The text between two places of a line that are not past its trimmed end. -/
theorem LineSplit.getText_eq (h : LineSplit d before line after) {i j : Nat} (hij : i ≤ j)
    (hj : j ≤ (Text.trimEnd (· = '\r') line).length) :
    d.getText (some ⟨⟨(before.count '\n' : Nat), i⟩, ⟨(before.count '\n' : Nat), j⟩⟩) =
      String.ofList (((Text.trimEnd (· = '\r') line).take j).drop i) := by
  obtain ⟨rest, hrest⟩ := Text.isPrefix_trimEnd (· = '\r') line
  have htake : d.chars.take (before.length + j) =
      before ++ (Text.trimEnd (· = '\r') line).take j := by
    rw [h.chars_eq, List.take_length_add_append]
    nth_rewrite 1 [← hrest]
    rw [List.append_assoc, List.take_append_of_le_length hj]
  rw [getText, h.offsetAt_eq (Nat.le_trans hij hj), h.offsetAt_eq hj, Slice.between_ofNat, htake,
    List.drop_length_add_append]

/-! ## What is found, by how the name is sighted -/

/-- A name is sighted in the text of a line that there is. -/
theorem exists_lineAt_sight (d : Document) (name : String) (offset : Int) :
    ∃ text, d.lineAt (d.positionAt offset).line = .ok text ∧
      d.sight name offset = Search.sight name.toList text.toList := by
  obtain ⟨before, line, after, k, hsplit, -, hplace⟩ := d.exists_positionAt offset
  refine ⟨String.ofList (Text.trimEnd (· = '\r') line), ?_, ?_⟩
  · rw [hplace]
    exact hsplit.lineAt_eq
  · rw [hsplit.sight_eq hplace, String.toList_ofList]

variable {name : String} {offset : Int}

theorem found_of_unique {place : Nat} (h : d.sight name offset = .unique place) :
    d.identifierRange name offset =
        ⟨⟨(d.positionAt offset).line, place⟩, ⟨(d.positionAt offset).line, place + name.length⟩⟩ ∧
      (d.locate name offset).notes = [] := by
  rw [locate, Traced.noting, identifierRange, identifierNotes, h, String.length_toList]
  exact ⟨rfl, rfl⟩

theorem found_of_repeated {first : Nat} (h : d.sight name offset = .repeated first) :
    d.identifierRange name offset = Range.empty ⟨(d.positionAt offset).line, first⟩ ∧
      (d.locate name offset).notes = [.ambiguousIdentifier name (d.positionAt offset).line] := by
  rw [locate, Traced.noting, identifierRange, identifierNotes, h]
  exact ⟨rfl, rfl⟩

theorem found_of_absent (h : d.sight name offset = .absent) :
    d.identifierRange name offset = Range.empty (d.positionAt offset) ∧
      (d.locate name offset).notes = [] := by
  rw [locate, Traced.noting, identifierRange, identifierNotes, h]
  exact ⟨rfl, rfl⟩

/-- The range of a name that stands once on its line has the name for its text. -/
theorem getText_of_unique {place : Nat} (h : d.sight name offset = .unique place) :
    d.getText (some (d.identifierRange name offset)) = name := by
  obtain ⟨before, line, after, k, hsplit, -, hplace⟩ := d.exists_positionAt offset
  have hfound := (hsplit.sight_eq hplace name).symm.trans h
  obtain ⟨-, rest, hrest⟩ := Search.occursAt_of_sight (.inl hfound)
  have hend := Search.add_length_le_of_sight (.inl hfound)
  have htext : ((Text.trimEnd (· = '\r') line).take (place + name.toList.length)).drop place =
      name.toList := by
    rw [List.drop_take, Nat.add_sub_cancel_left, ← hrest, List.take_left]
  rw [identifierRange, h, hplace]
  refine (hsplit.getText_eq (Nat.le_add_right _ _) hend).trans ?_
  rw [htext, String.ofList_toList]

/-! ## Searches -/

/-- What a search for a name finds on a line: the line of an offset with its text. -/
structure Finds (d : Document) (name : String) (offset : Int) (text : String) (found : Range)
    (notes : List Note) : Prop where
  /-- A name that stands once is found there. -/
  once : name ≠ "" → (∃! i, Search.OccursAt name.toList text.toList i) →
    ∃ i : Nat, Search.OccursAt name.toList text.toList i ∧
      found = ⟨⟨(d.positionAt offset).line, i⟩, ⟨(d.positionAt offset).line, i + name.length⟩⟩ ∧
      d.getText (some found) = name ∧ notes = []
  /-- Of a name that stands several times, only the first place is told, and that there are
  several. -/
  several : name ≠ "" → ∀ i j, i < j → Search.OccursAt name.toList text.toList i →
    Search.OccursAt name.toList text.toList j →
    ∃ first : Nat, IsLeast {k | Search.OccursAt name.toList text.toList k} first ∧
      found = Range.empty ⟨(d.positionAt offset).line, first⟩ ∧
      notes = [.ambiguousIdentifier name (d.positionAt offset).line]
  /-- For no name, and for one that does not stand there, the offset is told. -/
  nowhere : (name = "" ∨ ∀ i, ¬ Search.OccursAt name.toList text.toList i) →
    found = Range.empty (d.positionAt offset) ∧ notes = []
  /-- So what is found has the name for its text, or none. -/
  text_eq : d.getText (some found) = name ∨ d.getText (some found) = ""

/-- A search for any name from any offset ends in a range, and finds what there is on the
line of the offset. -/
theorem finds_locate (d : Document) (name : String) (offset : Int) :
    ∃ text found, d.lineAt (d.positionAt offset).line = .ok text ∧
      (d.locate name offset).result = .ok found ∧
      d.Finds name offset text found (d.locate name offset).notes := by
  obtain ⟨text, hline, hsight⟩ := d.exists_lineAt_sight name offset
  have hword : name ≠ "" → name.toList ≠ [] := mt String.toList_eq_nil_iff.mp
  refine ⟨text, d.identifierRange name offset, hline, rfl, ?once, ?several, ?nowhere, ?text⟩
  case once =>
    rintro hne ⟨i, hi, honly⟩
    rcases Search.sight_of_occursAt (hword hne) hi with ⟨-, hfound⟩ | ⟨hmany, -⟩
    · rw [← hsight] at hfound
      obtain ⟨hrange, hnotes⟩ := found_of_unique hfound
      exact ⟨i, hi, hrange, getText_of_unique hfound, hnotes⟩
    · exact absurd ⟨i, hi, honly⟩ hmany
  case several =>
    intro hne i j hij hi hj
    rcases Search.sight_of_occursAt (hword hne) hi with ⟨hone, -⟩ | ⟨-, first, hfirst, hfound⟩
    · have hsame := hone.unique hi hj
      omega
    · rw [← hsight] at hfound
      exact ⟨first, hfirst, found_of_repeated hfound⟩
  case nowhere =>
    intro hnone
    have hfound := Search.sight_eq_absent (hnone.imp_left String.toList_eq_nil_iff.mpr)
    rw [← hsight] at hfound
    exact found_of_absent hfound
  case text =>
    cases hfound : d.sight name offset with
    | unique place => exact .inl (getText_of_unique hfound)
    | absent =>
      rw [(found_of_absent hfound).1]
      exact .inr (d.getText_empty _)
    | repeated first =>
      rw [(found_of_repeated hfound).1]
      exact .inr (d.getText_empty _)

-- places that overlap are several
example : ({ text := "x\naaa\r\n" } : Document).identifierRange "aa" 4 = .empty ⟨1, 0⟩ := by
  decide

end Document

end CodeOutline
