import CodeOutline.Literal.Basic
import CodeOutline.Proofs.Literal.Spelling

/-!
# Literal values survive

An array or object of JSON values is kept as the compact text of its value, and that text is
read back. Strings are kept as they stand between their quotes, so what is read back is the
value that was spelled exactly if none of its strings and names is escaped.
-/

namespace CodeOutline

/-! ## Taking strings as they stand -/

namespace Node

mutual

/-- What a tree spells with escapes, it spells in another value without them. -/
theorem Spells.exists_verbatim {s : SourceText} {value : Json} {n : Node}
    (h : n.Spells Json.TextSpelling s value) :
    value.isExact = true → ∃ kept, n.Spells Verbatim s kept ∧ kept.isExact = true := by
  match h with
  | .null hkind hchars =>
    intro hexact
    exact ⟨_, .null hkind hchars, hexact⟩
  | .bool value hkind hchars =>
    intro hexact
    exact ⟨_, .bool value hkind hchars, hexact⟩
  | .number hkind hchars h =>
    intro hexact
    exact ⟨_, .number hkind hchars h, hexact⟩
  | .minus hkind hargument hnumber hchars h =>
    intro hexact
    exact ⟨_, .minus hkind hargument hnumber hchars h, hexact⟩
  | @Spells.str _ _ _ _ inner hkind hchars _ =>
    intro _
    exact ⟨.str (String.ofList inner), .str hkind hchars String.toList_ofList.symm, rfl⟩
  | .arr hkind hchars h =>
    intro hexact
    rw [Json.isExact] at hexact
    obtain ⟨kept, hkept, hexact⟩ := h.exists_verbatim hexact
    exact ⟨.arr kept, .arr hkind hchars hkept, hexact⟩
  | .obj hkind hchars h =>
    intro hexact
    obtain ⟨hnames, hexact⟩ := Json.isExact_obj.mp hexact
    obtain ⟨kept, hkept, hexact, -, hdistinct⟩ := h.exists_verbatim hexact
    exact ⟨.obj kept, .obj hkind hchars hkept, Json.isExact_obj.mpr ⟨hdistinct hnames, hexact⟩⟩

/-- Trees that spell items with escapes spell, as they stand, other items that text keeps
exactly too. -/
theorem SpellsItems.exists_verbatim {s : SourceText} {items : List Json} {nodes : List Node}
    (h : SpellsItems Json.TextSpelling s items nodes) :
    Json.allExact items = true →
      ∃ kept, SpellsItems Verbatim s kept nodes ∧ Json.allExact kept = true := by
  match h with
  | .nil =>
    intro _
    exact ⟨[], .nil, rfl⟩
  | .cons h hrest =>
    intro hexact
    obtain ⟨hvalue, hitems⟩ := Json.allExact_cons.mp hexact
    obtain ⟨value, hvalue, hexact⟩ := h.exists_verbatim hvalue
    obtain ⟨rest, hrest, hexact'⟩ := hrest.exists_verbatim hitems
    exact ⟨value :: rest, .cons hvalue hrest, Json.allExact_cons.mpr ⟨hexact, hexact'⟩⟩

-- names that differ are spelled differently, so they still differ as they stand
/-- Trees that spell fields with escapes spell, as they stand, other fields that text keeps
exactly too. Their names stay distinct, as distinct texts are spelt differently. -/
theorem SpellsFields.exists_verbatim {s : SourceText} {fields : List (String × Json)}
    {nodes : List Node} (h : SpellsFields Json.TextSpelling s fields nodes) :
    Json.allFieldsExact fields = true →
      ∃ kept, SpellsFields Verbatim s kept nodes ∧ Json.allFieldsExact kept = true ∧
        (∀ name ∈ kept.map Prod.fst, ∃ spelled ∈ fields.map Prod.fst,
          Json.TextSpelling spelled.toList name.toList) ∧
        ((fields.map Prod.fst).Nodup → (kept.map Prod.fst).Nodup) := by
  match h with
  | .nil =>
    intro _
    exact ⟨[], .nil, rfl, by simp, by simp⟩
  | @SpellsFields.cons _ _ name _ fields _ _ _ _ inner hkind hkey hstring hchars hname hvalue h
      hrest =>
    intro hexact
    obtain ⟨hexactValue, hexactFields⟩ := Json.allFieldsExact_cons.mp hexact
    obtain ⟨value, hspells, hexactValue⟩ := h.exists_verbatim hexactValue
    obtain ⟨rest, hrest, hexactRest, hfrom, hdistinct⟩ := hrest.exists_verbatim hexactFields
    have hfirst : Json.TextSpelling name.toList (String.ofList inner).toList := by
      rwa [String.toList_ofList]
    refine ⟨(String.ofList inner, value) :: rest,
      .cons hkind hkey hstring hchars String.toList_ofList.symm hvalue hspells hrest,
      Json.allFieldsExact_cons.mpr ⟨hexactValue, hexactRest⟩, ?_, ?_⟩
    · rw [List.map_cons, List.map_cons, List.forall_mem_cons]
      refine ⟨⟨name, by simp, hfirst⟩, fun other hother => ?_⟩
      obtain ⟨spelled, hmem, hspelled⟩ := hfrom other hother
      exact ⟨spelled, List.mem_cons_of_mem _ hmem, hspelled⟩
    · rw [List.map_cons, List.map_cons, List.nodup_cons, List.nodup_cons]
      rintro ⟨hnew, hnodup⟩
      refine ⟨fun hmem => ?_, hdistinct hnodup⟩
      obtain ⟨spelled, hspelled, htext⟩ := hfrom _ hmem
      have hsame : spelled = name := String.toList_inj.mp (htext.unique hfirst)
      exact hnew (hsame ▸ hspelled)

end

end Node

/-! ## Containers of entries -/

namespace Literal

theorem slotsOf_positional (items : List Literal) :
    slotsOf (items.map fun item => (none, item)) = items := by
  have hfill : ∀ slots : List Literal,
      (items.map fun item => (none, item)).foldl
        (fun slots (entry : Option String × Literal) => fill slots (entry.1.bind slotOf?) entry.2)
        slots = slots ++ items := by
    induction items with
    | nil => simp
    | cons item rest ih =>
      intro slots
      rw [List.map_cons, List.foldl_cons, ih]
      simp [fill]
  exact hfill []

theorem ofEntries_positional (items : List Literal) :
    ofEntries (items.map fun item => (none, item)) = .list items := by
  cases items with
  | nil => rfl
  | cons item rest =>
    rw [ofEntries, slotsOf_positional]
    simp

/-- Entries with keys make a table, in which the last of a key wins. -/
theorem ofEntries_keyed {fields : List (String × Literal)} (hne : fields ≠ []) :
    ofEntries (fields.map fun field => (some field.1, field.2)) =
      .table (Fields.ofList fields) := by
  have hkeyed : (fields.map fun field => (some field.1, field.2)).any (·.1.isNone) = false := by
    simp
  have hfields : (fields.map fun field => (some field.1, field.2)).map
      (fun entry => (entry.1.getD "", entry.2)) = fields := by
    rw [List.map_map]
    exact List.map_id fields
  rw [ofEntries, if_neg (by simpa using hne), hkeyed, if_neg (by decide), hfields]

theorem normalize_entries (items : List (Option String × Literal)) :
    normalize (.entries items) (some "array") = (ofEntries items).toJson.map Json.compact :=
  rfl

/-- Entries that make the literal of an exact JSON value are written as the compact text of that
value. -/
theorem normalize_entries_of_exact {items : List (Option String × Literal)} {value : Json}
    (h : ofEntries items = ofJson value) (hexact : value.isExact = true) :
    normalize (.entries items) (some "array") = .ok value.compact := by
  rw [normalize_entries, h, toJson_ofJson value hexact]
  rfl

end Literal

/-! ## Initializers -/

namespace Node

variable {s : SourceText} {n : Node}

/-- A container that is a literal throughout is read as a container, and not as an
expression. -/
theorem initializer_of_isLiteral (hkind : n.kind = "array" ∨ n.kind = "object")
    (h : n.isLiteral = .ok true) : initializer s (some n) = containerInitializer s n := by
  have hstring : n.kind ≠ "string" := by
    rcases hkind with hkind | hkind <;> simp [hkind]
  have hscalar : scalarKind? n.kind = none := by
    rcases hkind with hkind | hkind <;> rw [hkind] <;> rfl
  rw [initializer, if_neg hstring, hscalar]
  dsimp only
  rw [if_pos hkind, h]
  rfl

theorem containerInitializer_array {items : List Literal} (hkind : n.kind = "array")
    (hne : n.namedChildren ≠ []) (h : elements s n.namedChildren = .ok items) :
    containerInitializer s n =
      .ok ⟨.entries (items.map fun item => (none, item)), some "array"⟩ := by
  rw [namedChildren, elements_filter_named] at h
  rw [containerInitializer, if_neg (by simpa using hne), if_pos hkind, h]
  rfl

theorem containerInitializer_object {fields : List (String × Literal)} (hkind : n.kind = "object")
    (hne : n.namedChildren ≠ []) (h : pairs s n.namedChildren = .ok fields) :
    containerInitializer s n =
      .ok ⟨.entries (fields.map fun field => (some field.1, field.2)), some "array"⟩ := by
  rw [namedChildren, pairs_filter_named] at h
  rw [containerInitializer, if_neg (by simpa using hne), if_neg (by simp [hkind]), h]
  rfl

section Inversion

variable {strings : List Char → List Char → Prop} {value : Json}

theorem Spells.of_array (h : n.Spells strings s value) (hkind : n.kind = "array") :
    ∃ items, value = .arr items ∧ SpellsItems strings s items n.namedChildren := by
  cases h with
  | arr _ _ h => exact ⟨_, rfl, h⟩
  | bool value hkind' _ => cases value <;> simp [hkind] at hkind'
  | _ => simp_all

theorem Spells.of_object (h : n.Spells strings s value) (hkind : n.kind = "object") :
    ∃ fields, value = .obj fields ∧ SpellsFields strings s fields n.namedChildren := by
  cases h with
  | obj _ _ h => exact ⟨_, rfl, h⟩
  | bool value hkind' _ => cases value <;> simp [hkind] at hkind'
  | _ => simp_all

theorem SpellsItems.eq_nil_iff {items : List Json} {nodes : List Node}
    (h : SpellsItems strings s items nodes) : items = [] ↔ nodes = [] := by
  cases h <;> simp

theorem SpellsFields.eq_nil_iff {fields : List (String × Json)} {nodes : List Node}
    (h : SpellsFields strings s fields nodes) : fields = [] ↔ nodes = [] := by
  cases h <;> simp

end Inversion

/-- A container that is spelled as it stands is kept as the compact text of its value. -/
theorem Spells.normalize_initializer {value : Json} (h : n.Spells Verbatim s value)
    (hexact : value.isExact = true) (hkind : n.kind = "array" ∨ n.kind = "object")
    (hne : n.namedChildren ≠ []) :
    ∃ init, initializer s (some n) = .ok init ∧
      init.value.normalize init.kind = .ok value.compact := by
  rw [initializer_of_isLiteral hkind (h.read hexact).1]
  have hnamed : ∀ m ∈ n.namedChildren, m.named = true := by simp [namedChildren]
  rcases hkind with hkind | hkind
  · obtain ⟨items, rfl, hitems⟩ := h.of_array hkind
    have hall : Json.allExact items = true := by rwa [Json.isExact] at hexact
    exact ⟨_, containerInitializer_array hkind hne (hitems.read hall hnamed).2,
      Literal.normalize_entries_of_exact (Literal.ofEntries_positional _) hexact⟩
  · obtain ⟨fields, rfl, hfields⟩ := h.of_object hkind
    obtain ⟨hnames, hall⟩ := Json.isExact_obj.mp hexact
    have hfilled : Literal.ofJsonFields fields ≠ [] := by
      have := mt hfields.eq_nil_iff.mp hne
      cases fields <;> simp_all [Literal.ofJsonFields]
    rw [← Literal.map_fst_ofJsonFields] at hnames
    have htable := Literal.ofEntries_keyed hfilled
    rw [Fields.ofList_of_nodup hnames] at htable
    exact ⟨_, containerInitializer_object hkind hne (hfields.read hall hnamed).2,
      Literal.normalize_entries_of_exact htable hexact⟩

end Node

/-- Whether a value is a container with something in it. -/
def Json.isFilled : Json → Bool
  | .arr items => !items.isEmpty
  | .obj fields => !fields.isEmpty
  | _ => false

theorem Node.Spells.of_isFilled {strings : List Char → List Char → Prop} {s : SourceText}
    {value : Json} {n : Node} (h : n.Spells strings s value) (hfilled : value.isFilled = true) :
    (n.kind = "array" ∨ n.kind = "object") ∧ n.namedChildren ≠ [] := by
  cases h with
  | arr hkind _ h =>
    refine ⟨.inl hkind, mt h.eq_nil_iff.mpr ?_⟩
    simpa [Json.isFilled] using hfilled
  | obj hkind _ h =>
    refine ⟨.inr hkind, mt h.eq_nil_iff.mpr ?_⟩
    simpa [Json.isFilled] using hfilled
  | _ => simp [Json.isFilled] at hfilled

/-- The text kept for an array or object that spells a value is read back as what the tree
spells when its strings are taken as they stand, which is that value exactly if none of them
is escaped. -/
theorem Node.readBack_iff_unescaped {s : SourceText} {n : Node} {value : Json}
    (h : n.Spells Json.TextSpelling s value) (hexact : value.isExact = true)
    (hfilled : value.isFilled = true) :
    ∃ init text kept, Node.initializer s (some n) = .ok init ∧
      init.value.normalize init.kind = .ok text ∧ Json.read? text = some kept ∧
      n.Spells Verbatim s kept ∧ (kept = value ↔ n.Spells Unescaped s value) := by
  obtain ⟨hkind, hne⟩ := h.of_isFilled hfilled
  obtain ⟨kept, hkept, hexactKept⟩ := h.exists_verbatim hexact
  obtain ⟨init, hinit, htext⟩ := hkept.normalize_initializer hexactKept hkind hne
  refine ⟨init, kept.compact, kept, hinit, htext, Json.read?_compact hexactKept, hkept, ?_, ?_⟩
  · rintro rfl
    refine h.both (fun text inner hspelled hverbatim => ?_) hkept
    exact ⟨hverbatim, hspelled.eq_iff.mp hverbatim⟩
  · intro hplain
    -- both values are kept as one text, which is read back as each of them
    have hvalue : n.Spells Verbatim s value := hplain.both (fun _ _ h _ => h.1) hplain
    obtain ⟨init', hinit', htext'⟩ := hvalue.normalize_initializer hexact hkind hne
    obtain rfl : init = init' := Except.ok.inj (hinit.symm.trans hinit')
    have hsame : kept.compact = value.compact := Except.ok.inj (htext.symm.trans htext')
    have hread := Json.read?_compact hexactKept
    rw [hsame, Json.read?_compact hexact] at hread
    exact (Option.some.inj hread).symm

/-- An object whose only name is escaped. -/
def escapedName : SourceText := .ofString "\x7b\"\\u0061\":[-12,true]\x7d"

/-- The tree of the object whose only name is escaped. -/
def escapedNameTree : Node :=
  ⟨"object", true, 0, 21, none,
    [⟨"\x7b", false, 0, 1, none, []⟩,
     ⟨"pair", true, 1, 20, none,
      [⟨"string", true, 1, 9, some "key", []⟩,
       ⟨":", false, 9, 10, none, []⟩,
       ⟨"array", true, 10, 20, some "value",
        [⟨"[", false, 10, 11, none, []⟩,
         ⟨"unary_expression", true, 11, 14, none,
          [⟨"-", false, 11, 12, some "operator", []⟩,
           ⟨"number", true, 12, 14, some "argument", []⟩]⟩,
         ⟨",", false, 14, 15, none, []⟩,
         ⟨"true", true, 15, 19, none, []⟩,
         ⟨"]", false, 19, 20, none, []⟩]⟩]⟩,
     ⟨"\x7d", false, 20, 21, none, []⟩]⟩

/-- The value of the object whose only name is escaped. -/
def escapedNameValue : Json := .obj [("a", .arr [.int (-12), .bool true])]

theorem spells_escapedName :
    escapedNameTree.Spells Json.TextSpelling escapedName escapedNameValue := by
  have hname : Json.TextSpelling "a".toList "\\u0061".toList := .cons (.unit rfl) .nil
  have hdigits : Json.isWhole "12".toList = true := by decide
  refine .obj rfl rfl (.cons rfl rfl rfl rfl hname rfl (.arr rfl rfl ?_) .nil)
  exact .cons (.minus rfl rfl rfl rfl hdigits) (.cons (.bool true rfl rfl) .nil)

theorem readBack_iff_unescaped_escapedName :
    escapedNameTree.Spells Json.TextSpelling escapedName escapedNameValue ∧
    escapedNameValue.isExact = true ∧ escapedNameValue.isFilled = true ∧
    ∃ init text kept, Node.initializer escapedName (some escapedNameTree) = .ok init ∧
      init.value.normalize init.kind = .ok text ∧ Json.read? text = some kept ∧
      escapedNameTree.Spells Verbatim escapedName kept ∧
      (kept = escapedNameValue ↔
        escapedNameTree.Spells Unescaped escapedName escapedNameValue) := by
  have hexact : escapedNameValue.isExact = true := by decide +kernel
  exact ⟨spells_escapedName, hexact, rfl,
    Node.readBack_iff_unescaped spells_escapedName hexact rfl⟩

/-- The tree of an array whose only item is an escaped line break. -/
def escapedNewline : Node :=
  ⟨"array", true, 0, 6, none,
    [⟨"[", false, 0, 1, none, []⟩,
     ⟨"string", true, 1, 5, none, [⟨"escape_sequence", true, 2, 4, none, []⟩]⟩,
     ⟨"]", false, 5, 6, none, []⟩]⟩

/-- An escaped line break is kept as a backslash and a letter. -/
theorem escapedNewline_not_readBack :
    escapedNewline.Spells Json.TextSpelling (.ofString "[\"\\n\"]") (.arr [.str "\n"]) ∧
    (Json.arr [.str "\n"]).isExact = true ∧ (Json.arr [.str "\n"]).isFilled = true ∧
    ∃ init text, Node.initializer (.ofString "[\"\\n\"]") (some escapedNewline) = .ok init ∧
      init.value.normalize init.kind = .ok text ∧
      Json.read? text = some (.arr [.str "\\n"]) ∧ Json.read? text ≠ some (.arr [.str "\n"]) := by
  have hstring : Json.TextSpelling "\n".toList "\\n".toList := .cons (.short rfl) .nil
  have hkept : escapedNewline.Spells Verbatim (.ofString "[\"\\n\"]") (.arr [.str "\\n"]) :=
    .arr rfl rfl (.cons (.str rfl rfl rfl) .nil)
  obtain ⟨init, hinit, htext⟩ := hkept.normalize_initializer rfl (.inl rfl) (by decide)
  have hread := Json.read?_compact (rfl : (Json.arr [.str "\\n"]).isExact = true)
  refine ⟨.arr rfl rfl (.cons (.str rfl rfl hstring) .nil), rfl, rfl, init, _, hinit, htext,
    hread, ?_⟩
  rw [hread]
  simp

end CodeOutline
