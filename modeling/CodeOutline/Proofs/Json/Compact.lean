import CodeOutline.Proofs.Json.Written

/-!
# Compact text is read back

A value without doubles whose fields have distinct names is written in the grammar of JSON
text, and so its compact text is read as that value again.
-/

namespace CodeOutline

namespace Json

mutual

/-- Whether text keeps a value exactly: it has no doubles, its whole numbers can be written,
and the fields of each object have distinct names. -/
def isExact : Json → Bool
  | .int n => Numeral.isWritable n
  | .real _ => false
  | .arr items => allExact items
  | .obj fields => decide (fields.map Prod.fst).Nodup && allFieldsExact fields
  | _ => true

/-- Whether text keeps each of several values exactly. -/
def allExact : List Json → Bool
  | [] => true
  | value :: rest => value.isExact && allExact rest

/-- Whether text keeps the value of each field exactly. -/
def allFieldsExact : List (String × Json) → Bool
  | [] => true
  | (_, value) :: rest => value.isExact && allFieldsExact rest

end

theorem isExact_obj {fields : List (String × Json)} :
    (Json.obj fields).isExact = true ↔
      (fields.map Prod.fst).Nodup ∧ allFieldsExact fields = true := by
  rw [isExact, Bool.and_eq_true, decide_eq_true_eq]

theorem allExact_cons {value : Json} {rest : List Json} :
    allExact (value :: rest) = true ↔ value.isExact = true ∧ allExact rest = true := by
  rw [allExact, Bool.and_eq_true]

theorem allFieldsExact_cons {name : String} {value : Json} {rest : List (String × Json)} :
    allFieldsExact ((name, value) :: rest) = true ↔
      value.isExact = true ∧ allFieldsExact rest = true := by
  rw [allFieldsExact, Bool.and_eq_true]

theorem Written.padded {value : Json} {cs : List Char} (h : Written value cs) :
    Padded value cs := by
  have hpadded := Padded.mk gap_nil h gap_nil
  rwa [List.nil_append, List.append_nil] at hpadded

theorem written_quote (text : String) : Written (.str text) (quote text) :=
  .str (textSpelling_flatMap_escapeChar text.toList)

theorem writtenName_quote (name : String) : WrittenName name (quote name) :=
  .mk gap_nil (textSpelling_flatMap_escapeChar name.toList) gap_nil

theorem written_int (n : Int) : Written (.int n) (toString n).toList := by
  have hwritten := Written.int (decide (n < 0)) (isWhole_toDigits n.natAbs)
  rwa [Numeral.digitsValue_toDigits, Numeral.signed_natAbs,
    ← Numeral.toList_toString_int] at hwritten

theorem compactItems_cons_cons (value next : Json) (rest : List Json) :
    compactItems true (value :: next :: rest) =
      compactChars value ++ ',' :: compactItems true (next :: rest) := by
  simp [compactItems]

theorem compactFields_cons_cons (name : String) (value : Json) (next : String × Json)
    (rest : List (String × Json)) :
    compactFields true ((name, value) :: next :: rest) =
      quote name ++ ':' :: (compactChars value ++ ',' :: compactFields true (next :: rest)) := by
  simp [compactFields]

mutual

/-- The compact text of a value that text keeps exactly writes that value. Items and fields
follow in one recursion with it. -/
theorem written_compactChars : ∀ value : Json, value.isExact = true →
    Written value value.compactChars
  | .null => fun _ => .null
  | .bool value => fun _ => .bool value
  | .int n => fun _ => written_int n
  | .real _ => fun h => by
    rw [isExact] at h
    exact Bool.noConfusion h
  | .str text => fun _ => written_quote text
  | .arr [] => fun _ => .emptyArr gap_nil
  | .arr (value :: rest) => fun h => by
    rw [isExact] at h
    exact .arr (writtenItems_compactItems (value :: rest) (by simp) h)
  | .obj [] => fun _ => .emptyObj gap_nil
  | .obj (field :: rest) => fun h => by
    obtain ⟨hnames, hfields⟩ := isExact_obj.mp h
    exact .obj hnames (writtenFields_compactFields (field :: rest) (by simp) hfields)

theorem writtenItems_compactItems : ∀ items : List Json, items ≠ [] → allExact items = true →
    WrittenItems items (compactItems true items)
  | [] => fun hne => absurd rfl hne
  | [value] => fun _ h => by
    have hvalue := written_compactChars value (allExact_cons.mp h).1
    simpa [compactItems] using WrittenItems.one hvalue.padded
  | value :: next :: rest => fun _ h => by
    obtain ⟨hvalue, hrest⟩ := allExact_cons.mp h
    rw [compactItems_cons_cons]
    exact .cons (written_compactChars value hvalue).padded
      (writtenItems_compactItems (next :: rest) (by simp) hrest)

theorem writtenFields_compactFields : ∀ fields : List (String × Json), fields ≠ [] →
    allFieldsExact fields = true → WrittenFields fields (compactFields true fields)
  | [] => fun hne => absurd rfl hne
  | [(name, value)] => fun _ h => by
    have hvalue := written_compactChars value (allFieldsExact_cons.mp h).1
    simpa [compactFields] using WrittenFields.one (writtenName_quote name) hvalue.padded
  | (name, value) :: next :: rest => fun _ h => by
    obtain ⟨hvalue, hrest⟩ := allFieldsExact_cons.mp h
    rw [compactFields_cons_cons]
    exact .cons (writtenName_quote name) (written_compactChars value hvalue).padded
      (writtenFields_compactFields (next :: rest) (by simp) hrest)

end

/-- Compact text is read as the value it writes. -/
theorem read?_compact {value : Json} (h : value.isExact = true) :
    read? value.compact = some value := by
  apply Padded.read?
  rw [compact, String.toList_ofList]
  exact (written_compactChars value h).padded

/-! ## Compact text is packed

Compact text is made of the visible characters of ASCII and the space, and a space stands only
inside of a string: between two tokens there is nothing. What stands outside of the strings of a
text is found by going through it once, with an eye on quotes and escapes. -/

/-! ## Visible characters -/

/-- A text of the characters that ASCII shows, the space among them. -/
def Visible (cs : List Char) : Prop :=
  ∀ c ∈ cs, 0x20 ≤ c.toNat ∧ c.toNat < 0x7f

namespace Visible

variable {c : Char} {cs cs' : List Char}

theorem nil : Visible [] := by
  intro c hc
  simp at hc

theorem cons (hc : 0x20 ≤ c.toNat ∧ c.toNat < 0x7f) (h : Visible cs) : Visible (c :: cs) :=
  List.forall_mem_cons.mpr ⟨hc, h⟩

theorem append (h : Visible cs) (h' : Visible cs') : Visible (cs ++ cs') :=
  List.forall_mem_append.mpr ⟨h, h'⟩

end Visible

theorem visible_hexDigits (width value : Nat) : Visible (Text.hexDigits width value) := by
  have hdigit : ∀ d < 16, 0x20 ≤ (Text.hexDigit d).toNat ∧ (Text.hexDigit d).toNat < 0x7f := by
    decide
  induction width generalizing value with
  | zero => exact .nil
  | succ width ih =>
    have hlast := hdigit (value % 16) (Nat.mod_lt value (by decide))
    exact (ih (value / 16)).append (.cons hlast .nil)

theorem visible_unitEscape (unit : Nat) : Visible (unitEscape unit) :=
  .cons (by decide) (.cons (by decide) (visible_hexDigits 4 unit))

theorem visible_escapeChar (c : Char) : Visible (escapeChar c) := by
  by_cases hshort : c ∈ ['"', '\\', '\n', '\r', '\t', '\x0c', '\x08']
  · simp only [List.mem_cons, List.not_mem_nil, or_false] at hshort
    rcases hshort with rfl | rfl | rfl | rfl | rfl | rfl | rfl <;>
      exact .cons (by decide) (.cons (by decide) .nil)
  · simp only [List.mem_cons, List.not_mem_nil, or_false, not_or] at hshort
    simp only [escapeChar, hshort, or_self, if_false]
    split
    · rename_i hprint
      exact .cons hprint .nil
    · split
      · exact visible_unitEscape _
      · exact (visible_unitEscape _).append (visible_unitEscape _)

theorem visible_quote (text : String) : Visible (quote text) := by
  have hinner : Visible (text.toList.flatMap escapeChar) := by
    intro c hc
    obtain ⟨c', -, hc'⟩ := List.mem_flatMap.mp hc
    exact visible_escapeChar c' c hc'
  exact .cons (by decide) (hinner.append (.cons (by decide) .nil))

/-! ## Outside of strings -/

/-- What stands outside of the strings of a text, with their quotes. `inside` says whether the
text starts inside of a string. -/
def outside : Bool → List Char → List Char
  | _, [] => []
  | false, c :: cs => c :: outside (c = '"') cs
  | true, '\\' :: _ :: cs => outside true cs
  | true, c :: cs => if c = '"' then c :: outside false cs else outside true cs

theorem outside_false_cons {c : Char} (hc : c ≠ '"') (cs : List Char) :
    outside false (c :: cs) = c :: outside false cs := by
  simp [outside, hc]

theorem outside_false_quote (cs : List Char) :
    outside false ('"' :: cs) = '"' :: outside true cs := by
  simp [outside]

theorem outside_true_quote (cs : List Char) :
    outside true ('"' :: cs) = '"' :: outside false cs := by
  simp [outside]

theorem outside_true_escape (c : Char) (cs : List Char) :
    outside true ('\\' :: c :: cs) = outside true cs := by
  simp [outside]

theorem outside_true_cons {c : Char} (hquote : c ≠ '"') (hslash : c ≠ '\\') (cs : List Char) :
    outside true (c :: cs) = outside true cs := by
  rw [outside]
  · rw [if_neg hquote]
  · intro _ _ h
    exact absurd h hslash

/-- The digits of an escape end no string and start no other escape. -/
theorem outside_true_unit {a b d e : Char} {unit : Nat} (h : unitOf? a b d e = some unit)
    (cs : List Char) :
    outside true ('\\' :: 'u' :: a :: b :: d :: e :: cs) = outside true cs := by
  have hdigits : ∀ c ∈ [a, b, d, e], Numeral.digitIn? 16 c ≠ none := by
    intro c hc hnone
    simp only [unitOf?, List.foldlM_cons, List.foldlM_nil] at h
    simp only [List.mem_cons, List.not_mem_nil, or_false] at hc
    rcases hc with rfl | rfl | rfl | rfl <;> simp_all
  have hplain : ∀ c ∈ [a, b, d, e], c ≠ '"' ∧ c ≠ '\\' := by
    intro c hc
    refine ⟨?_, ?_⟩
    · rintro rfl
      exact hdigits '"' hc rfl
    · rintro rfl
      exact hdigits '\\' hc rfl
  simp only [List.forall_mem_cons, List.not_mem_nil, false_imp_iff, implies_true, and_true]
    at hplain
  obtain ⟨ha, hb, hd, he⟩ := hplain
  rw [outside_true_escape, outside_true_cons ha.1 ha.2, outside_true_cons hb.1 hb.2,
    outside_true_cons hd.1 hd.2, outside_true_cons he.1 he.2]

/-- However a character is spelled, nothing of it stands outside of the string. -/
theorem CharSpelling.outside_eq {c : Char} {here : List Char} (h : CharSpelling c here)
    (cs : List Char) : outside true (here ++ cs) = outside true cs := by
  cases h with
  | plain hquote hslash _ => exact outside_true_cons hquote hslash cs
  | short _ => exact outside_true_escape _ cs
  | unit h => exact outside_true_unit h cs
  | halves hfirst hsecond _ _ _ =>
    exact (outside_true_unit hfirst _).trans (outside_true_unit hsecond cs)

/-- All of what spells a string is inside of it: a quote there is escaped, so that it does not
end the string. -/
theorem TextSpelling.outside_eq {text inner : List Char} (h : TextSpelling text inner)
    (cs : List Char) : outside true (inner ++ cs) = outside true cs := by
  induction h with
  | nil => rfl
  | cons h _ ih => rw [List.append_assoc, h.outside_eq, ih]

/-! ## Packed text -/

/-- A stretch of text, from outside of a string to outside of one, in visible characters and with
no blank between its tokens. -/
structure Packed (cs : List Char) : Prop where
  visible : Visible cs
  tight : ∃ bare, (∀ c ∈ bare, isGap c = false) ∧
    ∀ rest, outside false (cs ++ rest) = bare ++ outside false rest

namespace Packed

variable {cs cs' : List Char}

theorem nil : Packed [] :=
  ⟨.nil, [], by simp, fun _ => rfl⟩

/-- Packed stretches make a packed one, as each ends outside of strings. -/
theorem append (h : Packed cs) (h' : Packed cs') : Packed (cs ++ cs') := by
  obtain ⟨bare, hbare, hcs⟩ := h.tight
  obtain ⟨bare', hbare', hcs'⟩ := h'.tight
  refine ⟨h.visible.append h'.visible, bare ++ bare',
    List.forall_mem_append.mpr ⟨hbare, hbare'⟩, ?_⟩
  intro rest
  rw [List.append_assoc, hcs, hcs', List.append_assoc]

/-- A character of a token that is no string. -/
theorem single {c : Char} (hc : 0x21 ≤ c.toNat ∧ c.toNat < 0x7f) (hquote : c ≠ '"') :
    Packed [c] := by
  refine ⟨.cons (by omega) .nil, [c], ?_, fun rest => outside_false_cons hquote rest⟩
  intro c' hc'
  rw [List.mem_singleton.mp hc']
  by_contra hgap
  simp only [isGap, Bool.not_eq_false, Bool.or_eq_true, decide_eq_true_eq] at hgap
  rcases hgap with ((rfl | rfl) | rfl) | rfl <;> simp at hc

theorem of_forall (h : ∀ c ∈ cs, (0x21 ≤ c.toNat ∧ c.toNat < 0x7f) ∧ c ≠ '"') : Packed cs := by
  induction cs with
  | nil => exact .nil
  | cons c cs ih =>
    obtain ⟨hc, hcs⟩ := List.forall_mem_cons.mp h
    exact (single hc.1 hc.2).append (ih hcs)

/-- The characters of a fixed text are checked one by one. -/
theorem of_all (h : cs.all (fun c => 0x21 ≤ c.toNat ∧ c.toNat < 0x7f ∧ c ≠ '"') = true) :
    Packed cs := by
  apply of_forall
  intro c hc
  have hchar := of_decide_eq_true (List.all_eq_true.mp h c hc)
  exact ⟨⟨hchar.1, hchar.2.1⟩, hchar.2.2⟩

theorem not_gap (h : Packed cs) : ∀ c ∈ outside false cs, isGap c = false := by
  obtain ⟨bare, hbare, hcs⟩ := h.tight
  have hall := hcs []
  rw [List.append_nil, outside, List.append_nil] at hall
  rw [hall]
  exact hbare

end Packed

theorem packed_quote (text : String) : Packed (quote text) := by
  refine ⟨visible_quote text, ['"', '"'], by simp [isGap], ?_⟩
  intro rest
  rw [quote, List.cons_append, outside_false_quote, List.append_assoc,
    (textSpelling_flatMap_escapeChar text.toList).outside_eq, List.singleton_append,
    outside_true_quote]
  rfl

theorem packed_toString (n : Int) : Packed (toString n).toList := by
  apply Packed.of_forall
  rw [Numeral.toList_toString_int]
  apply Numeral.forall_mem_withSign
  · decide
  · intro c hc
    have hdigit := (digits_of_isWhole (isWhole_toDigits n.natAbs)).2 c hc
    have hbounds := Numeral.toNat_of_isDigit hdigit
    refine ⟨by omega, ?_⟩
    intro hquote
    simp [hquote] at hdigit

theorem packed_null : Packed "null".toList := .of_all rfl

theorem packed_bool (value : Bool) : Packed (if value then "true" else "false").toList := by
  cases value <;> exact .of_all rfl

/-- The comma before each item that is not the first. -/
theorem packed_comma (first : Bool) : Packed (if first then [] else [',']) := by
  cases first
  · exact .single (by decide) (by decide)
  · exact .nil

mutual

/-- The compact text of a value that text keeps exactly is packed. Items and fields follow in
one recursion with it. -/
theorem packed_compactChars : ∀ value : Json, value.isExact = true → Packed value.compactChars
  | .null => fun _ => packed_null
  | .bool value => fun _ => packed_bool value
  | .int n => fun _ => packed_toString n
  | .real _ => fun h => by
    rw [isExact] at h
    exact Bool.noConfusion h
  | .str text => fun _ => packed_quote text
  | .arr items => fun h => by
    rw [isExact] at h
    have hitems := packed_compactItems true items h
    exact (Packed.single (by decide) (by decide)).append
      (hitems.append (.single (by decide) (by decide)))
  | .obj fields => fun h => by
    have hfields := packed_compactFields true fields (isExact_obj.mp h).2
    exact (Packed.single (by decide) (by decide)).append
      (hfields.append (.single (by decide) (by decide)))

theorem packed_compactItems (first : Bool) : ∀ items : List Json, allExact items = true →
    Packed (compactItems first items)
  | [] => fun _ => .nil
  | value :: rest => fun h => by
    obtain ⟨hvalue, hrest⟩ := allExact_cons.mp h
    rw [compactItems]
    exact ((packed_comma first).append (packed_compactChars value hvalue)).append
      (packed_compactItems false rest hrest)

theorem packed_compactFields (first : Bool) : ∀ fields : List (String × Json),
    allFieldsExact fields = true → Packed (compactFields first fields)
  | [] => fun _ => .nil
  | (name, value) :: rest => fun h => by
    obtain ⟨hvalue, hrest⟩ := allFieldsExact_cons.mp h
    have hname := (packed_comma first).append (packed_quote name)
    have hcolon : Packed [':'] := .single (by decide) (by decide)
    rw [compactFields]
    exact ((hname.append hcolon).append (packed_compactChars value hvalue)).append
      (packed_compactFields false rest hrest)

end

end Json

end CodeOutline
