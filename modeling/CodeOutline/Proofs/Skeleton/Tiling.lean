import CodeOutline.Proofs.Document.Lines
import CodeOutline.Proofs.Text.Basic
import CodeOutline.Skeleton
import Mathlib.Data.List.Chain

/-!
# Skeleton edits tile the document they write

The edits of a skeleton count lines by the blocks they write, and a document counts
them by its own text. The two counts agree: in the document that the edits write, each
edit stands exactly in its range, and the ranges follow each other line after line.
-/

namespace CodeOutline

namespace Skeleton

/-! ## A block and its edit -/

/-- The range of an edit ends on the last line of its block, after all of it. -/
theorem range_editAt (line : Nat) {block : String} {init last : List Char}
    (hblock : block.toList = init ++ last) (hinit : Document.EndsLines init) (hlast : '\n' ∉ last) :
    (editAt line block).range =
      ⟨⟨line, 0⟩, ⟨(line + init.count '\n' : Nat), (last.length : Nat)⟩⟩ := by
  obtain ⟨pieces, hlen, hsplit⟩ := hinit.splitOn_append
  have hpieces : block.toList.splitOn '\n' = pieces ++ [last] := by
    rw [hblock, hsplit, List.splitOn_eq_singleton hlast]
  simp only [editAt, hpieces, List.length_append, List.length_singleton, hlen,
    List.getLastD_concat]
  congr 2
  omega

/-- A block that stands in a document after whole lines, and before an LF, has the range
of its edit. A CR at its end would be taken for a part of the line break. -/
theorem getText_editAt {d : Document} {before after : List Char} {block : String}
    (hends : Document.EndsLines before)
    (hchars : d.chars = before ++ (block.toList ++ '\n' :: after))
    (hcr : block.toList.getLast? ≠ some '\r') :
    d.getText (some (editAt (before.count '\n') block).range) = block := by
  obtain ⟨init, last, hblock, hinit, hlast⟩ := Document.exists_endsLines block.toList
  have htrim : Text.trimEnd (· = '\r') last = last := by
    refine Text.trimEnd_eq_self fun c hc => ?_
    have hne : last ≠ [] := fun hnil => by simp [hnil] at hc
    rw [decide_eq_false_iff_not]
    rintro rfl
    rw [hblock, List.getLast?_append_of_ne_nil _ hne] at hcr
    exact hcr hc
  -- the line on which the block starts, and the line on which it ends
  obtain ⟨line, rest, hline, hfree, hrest⟩ :=
    Document.exists_lineEnd (block.toList ++ '\n' :: after)
  have hfirst : d.LineSplit before line rest := ⟨by rw [hchars, hline], hends, hfree, hrest⟩
  have hfinal : d.LineSplit (before ++ init) last ('\n' :: after) := by
    refine ⟨?_, hends.append hinit, hlast, .inr ⟨after, rfl⟩⟩
    rw [hchars, hblock, List.append_assoc, List.append_assoc]
  have hstart : d.offsetAt ⟨(before.count '\n' : Nat), 0⟩ = before.length :=
    hfirst.offsetAt_eq (Nat.zero_le _)
  have hstop := hfinal.offsetAt_eq (k := last.length) (by rw [htrim])
  rw [List.count_append, List.length_append] at hstop
  have htake : d.chars.take (before.length + init.length + last.length) =
      before ++ block.toList := by
    rw [hchars, ← List.append_assoc]
    refine List.take_left' ?_
    rw [List.length_append, hblock, List.length_append]
    omega
  rw [range_editAt _ hblock hinit hlast, Document.getText, hstart, hstop, Slice.between_ofNat,
    htake, List.drop_left, String.ofList_toList]

/-! ## Blocks one after another -/

/-- The text that blocks make, each with an LF after it. -/
def linesOf (blocks : List String) : List Char :=
  blocks.flatMap fun block => block.toList ++ ['\n']

theorem linesOf_cons (block : String) (rest : List String) :
    linesOf (block :: rest) = (block.toList ++ ['\n']) ++ linesOf rest :=
  List.flatMap_cons

theorem count_block (block : String) :
    (block.toList ++ ['\n']).count '\n' = (block.toList.splitOn '\n').length := by
  rw [Text.length_splitOn, List.count_append]
  rfl

/-- The texts of a layout are its blocks, each with an LF after it. -/
theorem map_text_layout (line : Nat) (blocks : List String) :
    (layout line blocks).map (·.text) = blocks.map (· ++ "\n") := by
  induction blocks generalizing line with
  | nil => rfl
  | cons block rest ih =>
    rw [layout, List.map_cons, List.map_cons, ih]
    rfl

theorem toList_render_layout (line : Nat) (blocks : List String) :
    (render (layout line blocks)).toList = linesOf blocks := by
  rw [render, String.toList_ofList, ← List.flatMap_map, map_text_layout, List.flatMap_map, linesOf]
  simp only [String.toList_append]
  rfl

/-- Each edit of a layout has the text of its range, and an LF, for its text. -/
theorem text_of_mem_layout {d : Document} {blocks : List String} (before : List Char)
    (hends : Document.EndsLines before) (hchars : d.chars = before ++ linesOf blocks)
    (hcr : ∀ block ∈ blocks, block.toList.getLast? ≠ some '\r') :
    ∀ e ∈ layout (before.count '\n') blocks, e.text = d.getText (some e.range) ++ "\n" := by
  induction blocks generalizing before with
  | nil =>
    intro e he
    simp [layout] at he
  | cons block rest ih =>
    rw [linesOf_cons] at hchars
    have hhead : d.chars = before ++ (block.toList ++ '\n' :: linesOf rest) := by
      rw [hchars, List.append_assoc]
      rfl
    have hnext : before.count '\n' + (block.toList.splitOn '\n').length =
        (before ++ (block.toList ++ ['\n'])).count '\n' := by
      rw [List.count_append, count_block]
    intro e he
    rw [layout, hnext] at he
    rcases List.mem_cons.mp he with rfl | he
    · rw [getText_editAt hends hhead (hcr block (by simp))]
      rfl
    · -- the block and its LF are whole lines before the rest
      refine ih _ (hends.append (.inr ⟨block.toList, rfl⟩)) ?_
        (fun b hb => hcr b (by simp [hb])) e he
      rw [hchars, List.append_assoc before]

theorem start_of_head?_layout (line : Nat) {blocks : List String} {e : TextEdit}
    (h : (layout line blocks).head? = some e) : e.range.start = ⟨line, 0⟩ := by
  cases blocks with
  | nil => simp [layout] at h
  | cons block rest =>
    rw [layout, List.head?_cons] at h
    cases h
    rfl

theorem isChain_layout (line : Nat) (blocks : List String) :
    (layout line blocks).IsChain fun e next =>
      next.range.start = ⟨e.range.stop.line + 1, 0⟩ := by
  induction blocks generalizing line with
  | nil => exact .nil
  | cons block rest ih =>
    rw [layout, List.isChain_cons]
    refine ⟨fun next hnext => ?_, ih _⟩
    rw [start_of_head?_layout _ hnext]
    congr 1
    simp only [editAt]
    omega

/-- The lines of a layout are counted by its last edit. -/
theorem stop_of_getLast?_layout (line : Nat) {blocks : List String} {e : TextEdit}
    (h : (layout line blocks).getLast? = some e) :
    e.range.stop.line + 1 = (line + (linesOf blocks).count '\n' : Nat) := by
  induction blocks generalizing line with
  | nil => simp [layout] at h
  | cons block rest ih =>
    rw [linesOf_cons, List.count_append, count_block]
    cases rest with
    | nil =>
      rw [layout, layout, List.getLast?_singleton] at h
      cases h
      simp only [editAt, linesOf, List.flatMap_nil, List.count_nil]
      omega
    | cons next rest =>
      rw [layout, layout, List.getLast?_cons_cons, ← layout] at h
      rw [ih _ h]
      omega

/-! ## The blocks of a skeleton -/

theorem mem_of_mem_intersperse {α : Type} {sep a : α} {items : List α}
    (h : a ∈ items.intersperse sep) : a = sep ∨ a ∈ items := by
  induction items with
  | nil => simp at h
  | cons item rest ih =>
    cases rest with
    | nil => exact .inr h
    | cons next rest =>
      rw [List.intersperse_cons_cons, List.mem_cons, List.mem_cons] at h
      rcases h with rfl | rfl | h
      · exact .inr (by simp)
      · exact .inl rfl
      · exact (ih h).imp_right (List.mem_cons_of_mem item)

theorem getLast?_append {text ending : String} {c : Char} (h : ending.toList.getLast? = some c) :
    (text ++ ending).toList.getLast? = some c := by
  rw [String.toList_append, List.getLast?_append, h, Option.some_or]

/-- A block of a skeleton is empty or ends in punctuation, whatever the names, types and
values in it are. -/
theorem ending_of_mem_blocks {name marker : String} {t : EntityToken} {withBodies : Bool}
    {block : String} (h : block ∈ blocks name t withBodies marker) :
    block = "" ∨ ∃ c ∈ ['\x7b', ';', '\x7d'], block.toList.getLast? = some c := by
  simp only [blocks, List.mem_append, List.mem_singleton] at h
  rcases h with (((rfl | h) | h) | h) | rfl
  · exact .inr ⟨'\x7b', by simp, getLast?_append rfl⟩
  · obtain ⟨c, -, rfl⟩ := List.mem_map.mp h
    have hline : (constantLine marker c).toList.getLast? = some ';' := getLast?_append rfl
    exact .inr ⟨';', by simp, getLast?_append hline⟩
  · split at h
    · simp at h
    · exact .inl (List.mem_singleton.mp h)
  · rw [methodBlocks] at h
    split at h
    · rcases mem_of_mem_intersperse h with rfl | h
      · exact .inl rfl
      · obtain ⟨m, -, rfl⟩ := List.mem_map.mp h
        have hbody : throwingBody.toList.getLast? = some '\x7d' := by decide
        exact .inr ⟨'\x7d', by simp, getLast?_append hbody⟩
    · obtain ⟨m, -, rfl⟩ := List.mem_map.mp h
      exact .inr ⟨';', by simp, getLast?_append rfl⟩
  · exact .inr ⟨'\x7d', by simp, rfl⟩

/-! ## Skeletons -/

/-- Edits that fill a document, from its start to its last line break. -/
structure Fills (edits : List TextEdit) (d : Document) : Prop where
  /-- The first edit starts where the document does. -/
  start_eq : edits.head?.map (·.range.start) = some ⟨0, 0⟩
  /-- Each next edit starts on the line after the last line of the one before. -/
  next_start : edits.IsChain fun e next => next.range.start = ⟨e.range.stop.line + 1, 0⟩
  /-- Each edit has the text of its range, and an LF, for its text. -/
  text_eq : ∀ e ∈ edits, e.text = d.getText (some e.range) ++ "\n"
  /-- After the last line of the last edit there is one more line, which is empty. -/
  lineCount_eq : edits.getLast?.map (·.range.stop.line + 2) = some (d.lineCount : Int)

/-- Blocks of which none ends in CR are laid out to fill the document they make. -/
theorem fills_layout {blocks : List String} (hne : blocks ≠ [])
    (hcr : ∀ block ∈ blocks, block.toList.getLast? ≠ some '\r') :
    Fills (layout 0 blocks) { text := render (layout 0 blocks) } := by
  have hchars : ({ text := render (layout 0 blocks) } : Document).chars = linesOf blocks :=
    toList_render_layout 0 blocks
  have hlayout : layout 0 blocks ≠ [] := by
    cases blocks with
    | nil => exact absurd rfl hne
    | cons block rest => simp [layout]
  constructor
  · obtain ⟨e, he⟩ := Option.isSome_iff_exists.mp (List.isSome_head?.mpr hlayout)
    rw [he, Option.map_some, start_of_head?_layout 0 he]
    rfl
  · exact isChain_layout 0 blocks
  · exact text_of_mem_layout [] (.inl rfl) hchars hcr
  · obtain ⟨e, he⟩ := Option.isSome_iff_exists.mp (List.getLast?_isSome.mpr hlayout)
    have hstop := stop_of_getLast?_layout 0 he
    rw [he, Option.map_some, Document.lineCount_eq, hchars]
    congr 1
    omega

/-- The edits of a skeleton fill the document that they write, for any names, types and
values, also those with line breaks in them. -/
theorem fills_generate (name : String) (t : EntityToken) (withBodies : Bool) (config : Config) :
    Fills (generate name t withBodies config)
      { text := render (generate name t withBodies config) } := by
  refine fills_layout (by simp [blocks]) fun block hblock hcr => ?_
  rcases ending_of_mem_blocks hblock with rfl | ⟨c, hc, hlast⟩
  · simp at hcr
  · rw [hlast] at hcr
    cases hcr
    simp at hc

end Skeleton

end CodeOutline
