import CodeOutline.Proofs.Literal.Kept
import CodeOutline.Proofs.Number.Spelling

/-!
# Arrays of whole numbers

A whole number keeps its value however it is spelled, and an array of such numbers is kept as
their decimal numerals. An array in which nothing stands at all is kept as its own text.
-/

namespace CodeOutline

/-! ## Lists of whole numbers as text -/

theorem Json.compactItems_eq_intercalate (items : List Json) :
    compactItems true items = [','].intercalate (items.map compactChars) := by
  induction items with
  | nil => rfl
  | cons value rest ih =>
    cases rest with
    | nil => simp [compactItems]
    | cons next rest =>
      rw [compactItems_cons_cons, ih]
      simp [List.intercalate_cons_cons]

theorem Json.compact_ints (ks : List Int) :
    (Json.arr (ks.map Json.int)).compact = "[" ++ ",".intercalate (ks.map toString) ++ "]" := by
  have hitems : (ks.map Json.int).map compactChars = (ks.map toString).map String.toList := by
    simp [Function.comp_def, compactChars]
  apply String.toList_inj.mp
  rw [compact, String.toList_ofList, compactChars, compactItems_eq_intercalate, hitems,
    String.toList_append, String.toList_append, String.toList_intercalate]
  rfl

theorem Literal.ofJsonItems_ints (ks : List Int) :
    Literal.ofJsonItems (ks.map Json.int) = ks.map Literal.int := by
  induction ks with
  | nil => rfl
  | cons k ks ih =>
    rw [List.map_cons, List.map_cons, Literal.ofJsonItems, ih]
    rfl

theorem Json.allExact_ints {ks : List Int} (h : ∀ k ∈ ks, Numeral.isWritable k = true) :
    Json.allExact (ks.map Json.int) = true := by
  induction ks with
  | nil => rfl
  | cons k ks ih =>
    obtain ⟨hk, hks⟩ := List.forall_mem_cons.mp h
    rw [List.map_cons, Json.allExact_cons, Json.isExact]
    exact ⟨hk, ih hks⟩

/-- The canonical text of several whole numbers is their decimal numerals. -/
theorem Literal.normalize_ints {ks : List Int} (h : ∀ k ∈ ks, Numeral.isWritable k = true) :
    (Literal.entries ((ks.map Literal.int).map fun item => (none, item))).normalize (some "array") =
      .ok ("[" ++ ",".intercalate (ks.map toString) ++ "]") := by
  have hlist : Literal.ofEntries ((ks.map Literal.int).map fun item => (none, item)) =
      Literal.ofJson (.arr (ks.map Json.int)) := by
    rw [Literal.ofEntries_positional, Literal.ofJson, Literal.ofJsonItems_ints]
  have hexact : (Json.arr (ks.map Json.int)).isExact = true := by
    rw [Json.isExact]
    exact Json.allExact_ints h
  rw [Literal.normalize_entries_of_exact hlist hexact, Json.compact_ints]

namespace Node

/-! ## Nodes that spell whole numbers -/

/-- A numeral spells a whole number, by itself or right after a minus sign. -/
inductive SpellsInteger (s : SourceText) : Node → Int → Prop where
  | number {n : Node} {value : Nat} {cs : List Char} (hkind : n.kind = "number")
      (hchars : s.charsOf n = .ok cs) (h : Numeral.WholeSpelling value cs) :
      SpellsInteger s n value
  | minus {n argument : Node} {value : Nat} {cs : List Char} (hkind : n.kind = "unary_expression")
      (hargument : n.child? "argument" = some argument) (hnumber : argument.kind = "number")
      (hchars : s.charsOf n = .ok ('-' :: cs)) (h : Numeral.WholeSpelling value cs) :
      SpellsInteger s n (-value)

variable {s : SourceText} {n : Node} {k : Int}

theorem SpellsInteger.isLiteral (h : n.SpellsInteger s k) : n.isLiteral = .ok true := by
  cases h with
  | number hkind _ _ => exact isLiteral_of_plainKinds (by simp [hkind, plainKinds])
  | minus hkind hargument hnumber _ _ => exact isLiteral_minus hkind hargument hnumber

/-- A node that spells a whole number is read as that number, in any base. -/
theorem SpellsInteger.scalar (h : n.SpellsInteger s k) (hwritable : Numeral.isWritable k = true) :
    scalar s n = .ok (.int k) := by
  cases h with
  | number hkind hchars h =>
    rw [scalar_numeral (.inl hkind) hchars]
    exact congrArg Except.ok (Literal.ofNumeral_spelling h false hwritable)
  | minus hkind _ _ hchars h =>
    rw [scalar_numeral (.inr hkind) hchars]
    exact congrArg Except.ok (Literal.ofNumeral_spelling h true hwritable)

/-- Nodes among which the elements spell whole numbers are read as these numbers. -/
theorem elements_of_spellsInteger {nodes : List Node} {ks : List Int}
    (h : List.Forall₂ (SpellsInteger s) (nodes.filter isElement) ks)
    (hwritable : ∀ k ∈ ks, Numeral.isWritable k = true) :
    allLiteral nodes = .ok true ∧ elements s nodes = .ok (ks.map Literal.int) := by
  induction nodes generalizing ks with
  | nil =>
    cases h
    exact ⟨rfl, rfl⟩
  | cons n rest ih =>
    cases helement : n.isElement with
    | false =>
      rw [List.filter_cons_of_neg (by simp [helement])] at h
      rw [allLiteral, elements, ← not_isElement, helement]
      exact ih h hwritable
    | true =>
      rw [List.filter_cons_of_pos helement] at h
      cases h with
      | @cons _ k _ ks hn hrest =>
        obtain ⟨hk, hks⟩ := List.forall_mem_cons.mp hwritable
        obtain ⟨hall, hitems⟩ := ih hrest hks
        have hnamed : n.named = true ∧ n.isComment = false := by simpa [isElement] using helement
        rw [allLiteral_cons hnamed.1 hnamed.2 hn.isLiteral, List.map_cons]
        exact ⟨hall, elements_cons hnamed.1 hnamed.2 (hn.scalar hk) hitems⟩

/-! ## Arrays of whole numbers -/

/-- An array of nodes that spell whole numbers is read as the entries of those numbers. -/
theorem initializer_of_spellsIntegers {ks : List Int} (hkind : n.kind = "array")
    (hne : n.namedChildren ≠ [])
    (h : List.Forall₂ (SpellsInteger s) n.elementNodes ks)
    (hwritable : ∀ k ∈ ks, Numeral.isWritable k = true) :
    initializer s (some n) =
      .ok ⟨.entries ((ks.map Literal.int).map fun item => (none, item)), some "array"⟩ := by
  obtain ⟨hall, hitems⟩ := elements_of_spellsInteger h hwritable
  have hliteral : n.isLiteral = .ok true := by
    rw [isLiteral_array hkind, namedChildren, allLiteral_filter_named]
    exact hall
  rw [initializer_of_isLiteral (.inl hkind) hliteral]
  apply containerInitializer_array hkind hne
  rw [namedChildren, elements_filter_named]
  exact hitems

/-- An array without items is read as an expression, which is kept as it stands. -/
theorem initializer_of_empty (hkind : n.kind = "array") (hempty : n.namedChildren = []) :
    initializer s (some n) = textInitializer s n "expression" := by
  have hliteral : n.isLiteral = .ok true := by
    rw [isLiteral_array hkind, hempty]
    rfl
  rw [initializer_of_isLiteral (.inl hkind) hliteral, containerInitializer, hempty]
  rfl

/-- A whole number of few enough digits is read as itself however it is spelled, and an array of
such numbers is kept as their decimal numerals, unless there is nothing in it, not even a comment:
then it is kept as its text. -/
theorem integers_keep_values (s : SourceText) (n : Node) :
    (∀ k, n.SpellsInteger s k → Numeral.digitCount k ≤ Numeral.maxDigits →
      scalar s n = .ok (.int k)) ∧
    (n.kind = "array" → ∀ ks, List.Forall₂ (SpellsInteger s) n.elementNodes ks →
      (∀ k ∈ ks, Numeral.digitCount k ≤ Numeral.maxDigits) → n.namedChildren ≠ [] →
        ∃ init, initializer s (some n) = .ok init ∧ init.kind = some "array" ∧
          init.value.normalize init.kind =
            .ok ("[" ++ ",".intercalate (ks.map toString) ++ "]")) ∧
    (n.kind = "array" → n.namedChildren = [] → ∀ text, s.textOf n = .ok text →
      ∃ init, initializer s (some n) = .ok init ∧ init.value.normalize init.kind = .ok text) := by
  refine ⟨?_, ?_, ?_⟩
  · intro k h hcount
    exact h.scalar (Numeral.isWritable_iff.mpr hcount)
  · intro hkind ks h hcount hne
    have hwritable : ∀ k ∈ ks, Numeral.isWritable k = true :=
      fun k hk => Numeral.isWritable_iff.mpr (hcount k hk)
    exact ⟨_, initializer_of_spellsIntegers hkind hne h hwritable, rfl,
      Literal.normalize_ints hwritable⟩
  · intro hkind hempty text htext
    refine ⟨⟨.str text, some "expression"⟩, ?_, rfl⟩
    rw [initializer_of_empty hkind hempty, textInitializer, htext]
    rfl

end Node

/-- Whole numbers in three bases. -/
def spelledArray : SourceText := .ofString "[0xfF, -1_0, 0B1]"

/-- The tree of the number with a sign and an underscore. -/
def spelledMinusTree : Node :=
  ⟨"unary_expression", true, 7, 11, none,
    [⟨"-", false, 7, 8, some "operator", []⟩,
     ⟨"number", true, 8, 11, some "argument", []⟩]⟩

/-- The tree of the array of whole numbers in three bases. -/
def spelledArrayTree : Node :=
  ⟨"array", true, 0, 17, none,
    [⟨"[", false, 0, 1, none, []⟩,
     ⟨"number", true, 1, 5, none, []⟩,
     ⟨",", false, 5, 6, none, []⟩,
     spelledMinusTree,
     ⟨",", false, 11, 12, none, []⟩,
     ⟨"number", true, 13, 16, none, []⟩,
     ⟨"]", false, 16, 17, none, []⟩]⟩

theorem spellsInteger_spelledMinus : spelledMinusTree.SpellsInteger spelledArray (-10) := by
  have hten : Numeral.GroupedDigits 10 (1 * 10 + 0) (['1'] ++ ['_', '0']) :=
    .group (.one (by decide)) (by decide)
  exact .minus rfl rfl rfl rfl (.decimal hten (by decide))

theorem spellsInteger_spelledArray :
    List.Forall₂ (Node.SpellsInteger spelledArray) spelledArrayTree.elementNodes [255, -10, 1] := by
  have hhex : Numeral.GroupedDigits 16 (15 * 16 + 15) (['f'] ++ ['F']) :=
    .digit (.one (by decide)) (by decide)
  have hbit : Numeral.GroupedDigits 2 1 ['1'] := .one (by decide)
  have hfirst : ('x', 16) ∈ Numeral.baseMarks := by decide
  have hlast : ('B', 2) ∈ Numeral.baseMarks := by decide
  exact .cons (.number rfl rfl (.marked hfirst hhex))
    (.cons spellsInteger_spelledMinus (.cons (.number rfl rfl (.marked hlast hbit)) .nil))

theorem integers_keep_values_spelledArray :
    (spelledMinusTree.SpellsInteger spelledArray (-10) ∧
      Node.scalar spelledArray spelledMinusTree = .ok (.int (-10))) ∧
    List.Forall₂ (Node.SpellsInteger spelledArray) spelledArrayTree.elementNodes [255, -10, 1] ∧
    (∀ k ∈ [255, -10, 1], Numeral.digitCount k ≤ Numeral.maxDigits) ∧
    spelledArrayTree.namedChildren ≠ [] ∧
    ∃ init, Node.initializer spelledArray (some spelledArrayTree) = .ok init ∧
      init.kind = some "array" ∧ init.value.normalize init.kind = .ok "[255,-10,1]" := by
  have hcount : ∀ k ∈ [255, -10, 1], Numeral.digitCount k ≤ Numeral.maxDigits := by decide
  have hne : spelledArrayTree.namedChildren ≠ [] := by decide
  have hminus := (Node.integers_keep_values spelledArray spelledMinusTree).1 _
    spellsInteger_spelledMinus (hcount (-10) (by decide))
  have harray := (Node.integers_keep_values spelledArray spelledArrayTree).2.1 rfl _
    spellsInteger_spelledArray hcount hne
  exact ⟨⟨spellsInteger_spelledMinus, hminus⟩, spellsInteger_spelledArray, hcount, hne, harray⟩

/-- An array in which only a blank stands. -/
def blankArray : SourceText := .ofString "[ ]"

/-- The tree of the array in which only a blank stands. -/
def blankArrayTree : Node :=
  ⟨"array", true, 0, 3, none,
    [⟨"[", false, 0, 1, none, []⟩,
     ⟨"]", false, 2, 3, none, []⟩]⟩

/-- An array of no numbers is kept with the blank in it. -/
theorem blankArray_keeps_blank :
    blankArrayTree.isLiteral = .ok true ∧
    List.Forall₂ (Node.SpellsInteger blankArray) blankArrayTree.elementNodes [] ∧
    ∃ init, Node.initializer blankArray (some blankArrayTree) = .ok init ∧
      init.value.normalize init.kind = .ok "[ ]" ∧
      "[ ]" ≠ "[" ++ ",".intercalate (([] : List Int).map toString) ++ "]" := by
  have hinit : Node.initializer blankArray (some blankArrayTree) =
      .ok ⟨.str "[ ]", some "expression"⟩ := rfl
  exact ⟨rfl, .nil, _, hinit, rfl, by simp⟩

end CodeOutline
