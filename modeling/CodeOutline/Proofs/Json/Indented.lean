import CodeOutline.Proofs.Json.Compact
import CodeOutline.Proofs.Json.Parts

/-!
# Indented text is read back

A value without doubles whose fields have distinct names is also written in the grammar of JSON
text when each item has a line of its own, whatever the depth at which it starts. The text is
ASCII, and it is read as that value again.
-/

namespace CodeOutline.Json

/-! ## The grammar -/

theorem gap_newLine (depth : Nat) : Gap (newLine depth) := by
  intro c hc
  rcases List.mem_cons.mp hc with rfl | hc
  · rfl
  · rw [List.eq_of_mem_replicate hc]
    rfl

theorem indentedItems_cons_cons (depth : Nat) (value next : Json) (rest : List Json) :
    indentedItems depth true (value :: next :: rest) =
      (newLine depth ++ (indentedChars depth value ++ [])) ++
        ',' :: indentedItems depth true (next :: rest) := by
  simp [indentedItems]

theorem indentedFields_cons_cons (depth : Nat) (name : String) (value : Json)
    (next : String × Json) (rest : List (String × Json)) :
    indentedFields depth true ((name, value) :: next :: rest) =
      (newLine depth ++ '"' :: (name.toList.flatMap escapeChar ++ '"' :: [])) ++
        ':' :: (([' '] ++ (indentedChars depth value ++ [])) ++
          ',' :: indentedFields depth true (next :: rest)) := by
  simp [indentedFields, quote]

/-- A name at the start of a line. -/
theorem writtenName_newLine (depth : Nat) (name : String) :
    WrittenName name (newLine depth ++ '"' :: (name.toList.flatMap escapeChar ++ '"' :: [])) :=
  .mk (gap_newLine depth) (textSpelling_flatMap_escapeChar name.toList) gap_nil

theorem gap_space : Gap [' '] := by
  intro c hc
  rw [List.mem_singleton.mp hc]
  rfl

mutual

/-- The indented text of a value without doubles writes that value, at any depth. The lines
between its tokens are blanks. -/
theorem written_indentedChars (depth : Nat) : ∀ value : Json, Everywhere IsKept value →
    Written value (indentedChars depth value)
  | .null => fun _ => .null
  | .bool value => fun _ => .bool value
  | .int n => fun _ => written_int n
  | .real _ => fun h => h.self.elim
  | .str text => fun _ => written_quote text
  | .arr [] => fun _ => .emptyArr gap_nil
  | .arr (value :: rest) => fun h =>
    .arr (writtenItems_indentedItems (depth + 1) (gap_newLine depth) (value :: rest) (by simp)
      fun _ hitem => h.of_mem_items hitem)
  | .obj [] => fun _ => .emptyObj gap_nil
  | .obj (field :: rest) => fun h =>
    .obj h.self (writtenFields_indentedFields (depth + 1) (gap_newLine depth) (field :: rest)
      (by simp) fun _ hfield => h.of_mem_fields hfield)

/-- The line break before the closing bracket belongs to the last item. -/
theorem writtenItems_indentedItems (depth : Nat) {gap : List Char} (hgap : Gap gap) :
    ∀ items : List Json, items ≠ [] → (∀ value ∈ items, Everywhere IsKept value) →
      WrittenItems items (indentedItems depth true items ++ gap)
  | [] => fun hne => absurd rfl hne
  | [value] => fun _ h => by
    have hvalue := written_indentedChars depth value (h value (by simp))
    simpa [indentedItems] using WrittenItems.one (.mk (gap_newLine depth) hvalue hgap)
  | value :: next :: rest => fun _ h => by
    have hvalue := written_indentedChars depth value (h value (by simp))
    have hrest := writtenItems_indentedItems depth hgap (next :: rest) (by simp)
      fun value' hvalue' => h value' (List.mem_cons_of_mem _ hvalue')
    rw [indentedItems_cons_cons, List.append_assoc, List.cons_append]
    exact .cons (.mk (gap_newLine depth) hvalue gap_nil) hrest

theorem writtenFields_indentedFields (depth : Nat) {gap : List Char} (hgap : Gap gap) :
    ∀ fields : List (String × Json), fields ≠ [] →
      (∀ field ∈ fields, Everywhere IsKept field.2) →
      WrittenFields fields (indentedFields depth true fields ++ gap)
  | [] => fun hne => absurd rfl hne
  | [(name, value)] => fun _ h => by
    have hvalue := written_indentedChars depth value (h (name, value) (by simp))
    simpa [indentedFields, quote] using
      WrittenFields.one (writtenName_newLine depth name) (.mk gap_space hvalue hgap)
  | (name, value) :: next :: rest => fun _ h => by
    have hvalue := written_indentedChars depth value (h (name, value) (by simp))
    have hrest := writtenFields_indentedFields depth hgap (next :: rest) (by simp)
      fun field hfield => h field (List.mem_cons_of_mem _ hfield)
    have hwritten := WrittenFields.cons (writtenName_newLine depth name)
      (.mk gap_space hvalue gap_nil) hrest
    rw [indentedFields_cons_cons]
    simpa only [List.append_assoc, List.cons_append] using hwritten

end

/-! ## ASCII -/

/-- A text of ASCII characters alone. -/
def Ascii (cs : List Char) : Prop :=
  ∀ c ∈ cs, c.toNat < 128

namespace Ascii

variable {c : Char} {cs cs' : List Char}

theorem nil : Ascii [] := by
  intro c hc
  simp at hc

theorem cons (hc : c.toNat < 128) (h : Ascii cs) : Ascii (c :: cs) :=
  List.forall_mem_cons.mpr ⟨hc, h⟩

theorem append (h : Ascii cs) (h' : Ascii cs') : Ascii (cs ++ cs') :=
  List.forall_mem_append.mpr ⟨h, h'⟩

end Ascii

theorem Visible.ascii {cs : List Char} (h : Visible cs) : Ascii cs := by
  intro c hc
  have hvisible := (h c hc).2
  omega

theorem ascii_quote (text : String) : Ascii (quote text) :=
  (visible_quote text).ascii

theorem ascii_newLine (depth : Nat) : Ascii (newLine depth) := by
  apply Ascii.cons
  · decide
  · intro c hc
    rw [List.eq_of_mem_replicate hc]
    decide

theorem ascii_comma (first : Bool) : Ascii (if first then [] else [',']) :=
  (packed_comma first).visible.ascii

mutual

theorem ascii_indentedChars (depth : Nat) : ∀ value : Json, Everywhere IsKept value →
    Ascii (indentedChars depth value)
  | .null => fun _ => packed_null.visible.ascii
  | .bool value => fun _ => (packed_bool value).visible.ascii
  | .int n => fun _ => (packed_toString n).visible.ascii
  | .real _ => fun h => h.self.elim
  | .str text => fun _ => ascii_quote text
  | .arr [] => fun _ => .cons (by decide) (.cons (by decide) .nil)
  | .arr (value :: rest) => fun h => by
    have hitems := ascii_indentedItems (depth + 1) true (value :: rest)
      fun _ hitem => h.of_mem_items hitem
    exact .cons (by decide) ((hitems.append (ascii_newLine depth)).append (.cons (by decide) .nil))
  | .obj [] => fun _ => .cons (by decide) (.cons (by decide) .nil)
  | .obj (field :: rest) => fun h => by
    have hfields := ascii_indentedFields (depth + 1) true (field :: rest)
      fun _ hfield => h.of_mem_fields hfield
    exact .cons (by decide) ((hfields.append (ascii_newLine depth)).append (.cons (by decide) .nil))

theorem ascii_indentedItems (depth : Nat) (first : Bool) : ∀ items : List Json,
    (∀ value ∈ items, Everywhere IsKept value) → Ascii (indentedItems depth first items)
  | [] => fun _ => .nil
  | value :: rest => fun h => by
    have hvalue := ascii_indentedChars depth value (h value (by simp))
    have hrest := ascii_indentedItems depth false rest
      fun value' hvalue' => h value' (List.mem_cons_of_mem _ hvalue')
    exact (((ascii_comma first).append (ascii_newLine depth)).append hvalue).append hrest

theorem ascii_indentedFields (depth : Nat) (first : Bool) : ∀ fields : List (String × Json),
    (∀ field ∈ fields, Everywhere IsKept field.2) → Ascii (indentedFields depth first fields)
  | [] => fun _ => .nil
  | (name, value) :: rest => fun h => by
    have hvalue := ascii_indentedChars depth value (h (name, value) (by simp))
    have hrest := ascii_indentedFields depth false rest
      fun field hfield => h field (List.mem_cons_of_mem _ hfield)
    have hname := ((ascii_comma first).append (ascii_newLine depth)).append (ascii_quote name)
    have hcolon : Ascii [':', ' '] := .cons (by decide) (.cons (by decide) .nil)
    exact ((hname.append hcolon).append hvalue).append hrest

end

/-! ## Reading -/

/-- Indented text is ASCII, and it writes the value that it is read as. -/
theorem read?_indented {value : Json} (h : Everywhere IsKept value) :
    Ascii value.indented.toList ∧ Written value value.indented.toList ∧
      read? value.indented = some value := by
  have hwritten : Written value value.indented.toList := by
    rw [indented, String.toList_ofList]
    exact written_indentedChars 0 value h
  refine ⟨?_, hwritten, hwritten.padded.read?⟩
  rw [indented, String.toList_ofList]
  exact ascii_indentedChars 0 value h

end CodeOutline.Json
