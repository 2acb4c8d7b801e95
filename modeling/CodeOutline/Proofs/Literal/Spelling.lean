import CodeOutline.Literal.Basic
import CodeOutline.Literal.OfNode
import CodeOutline.Proofs.Json.Compact
import CodeOutline.Proofs.Number.Spelling

/-!
# Trees that spell JSON values

A syntax tree spells a JSON value by its kinds and by the text of its leaves. A tree whose
strings stand for their own text is read as the literal of the value it spells.
-/

namespace CodeOutline

/-! ## JSON values as literals -/

namespace Literal

theorem map_fst_ofJsonFields (fields : List (String × Json)) :
    (ofJsonFields fields).map Prod.fst = fields.map Prod.fst := by
  induction fields with
  | nil => rfl
  | cons field rest ih => rw [ofJsonFields, List.map_cons, List.map_cons, ih]

mutual

/-- A JSON value that text keeps exactly is the JSON value of the literal it is taken for. -/
theorem toJson_ofJson : ∀ value : Json, value.isExact = true → (ofJson value).toJson = .ok value
  | .null => fun _ => rfl
  | .bool _ => fun _ => rfl
  | .int n => fun h => by
    rw [Json.isExact] at h
    rw [ofJson, toJson, if_pos h]
  | .real _ => fun _ => rfl
  | .str _ => fun _ => rfl
  | .arr items => fun h => by
    rw [Json.isExact] at h
    rw [ofJson, toJson, toJsonItems_ofJsonItems items h]
    rfl
  | .obj fields => fun h => by
    rw [ofJson, toJson, toJsonFields_ofJsonFields fields (Json.isExact_obj.mp h).2]
    rfl

theorem toJsonItems_ofJsonItems : ∀ items : List Json, Json.allExact items = true →
    toJsonItems (ofJsonItems items) = .ok items
  | [] => fun _ => rfl
  | value :: rest => fun h => by
    obtain ⟨hvalue, hrest⟩ := Json.allExact_cons.mp h
    rw [ofJsonItems, toJsonItems, toJson_ofJson value hvalue, toJsonItems_ofJsonItems rest hrest]
    rfl

theorem toJsonFields_ofJsonFields : ∀ fields : List (String × Json),
    Json.allFieldsExact fields = true → toJsonFields (ofJsonFields fields) = .ok fields
  | [] => fun _ => rfl
  | (name, value) :: rest => fun h => by
    obtain ⟨hvalue, hrest⟩ := Json.allFieldsExact_cons.mp h
    rw [ofJsonFields, toJsonFields, toJson_ofJson value hvalue,
      toJsonFields_ofJsonFields rest hrest]
    rfl

end

end Literal

/-! ## Trees that spell values -/

/-- What stands between the quotes of a string is its text. -/
def Verbatim (text inner : List Char) : Prop := inner = text

/-- What stands between the quotes of a string is its text, and nothing in it is escaped. -/
def Unescaped (text inner : List Char) : Prop := inner = text ∧ '\\' ∉ inner

namespace Node

mutual

/-- A tree spells a JSON value. By `strings` the text of a string is related to what stands
between its quotes. -/
inductive Spells (strings : List Char → List Char → Prop) (s : SourceText) :
    Json → Node → Prop where
  | null {n : Node} (hkind : n.kind = "null") (hchars : s.charsOf n = .ok "null".toList) :
      Spells strings s .null n
  | bool (value : Bool) {n : Node} (hkind : n.kind = if value then "true" else "false")
      (hchars : s.charsOf n = .ok (if value then "true" else "false").toList) :
      Spells strings s (.bool value) n
  | number {n : Node} {ds : List Char} (hkind : n.kind = "number") (hchars : s.charsOf n = .ok ds)
      (h : Json.isWhole ds = true) :
      Spells strings s (.int (Numeral.signed false (Numeral.digitsValue ds))) n
  | minus {n argument : Node} {ds : List Char} (hkind : n.kind = "unary_expression")
      (hargument : n.child? "argument" = some argument) (hnumber : argument.kind = "number")
      (hchars : s.charsOf n = .ok ('-' :: ds)) (h : Json.isWhole ds = true) :
      Spells strings s (.int (Numeral.signed true (Numeral.digitsValue ds))) n
  | str {n : Node} {text : String} {inner : List Char} (hkind : n.kind = "string")
      (hchars : s.charsOf n = .ok ('"' :: (inner ++ ['"']))) (h : strings text.toList inner) :
      Spells strings s (.str text) n
  | arr {n : Node} {items : List Json} {cs : List Char} (hkind : n.kind = "array")
      (hchars : s.charsOf n = .ok cs) (h : SpellsItems strings s items n.namedChildren) :
      Spells strings s (.arr items) n
  | obj {n : Node} {fields : List (String × Json)} {cs : List Char} (hkind : n.kind = "object")
      (hchars : s.charsOf n = .ok cs) (h : SpellsFields strings s fields n.namedChildren) :
      Spells strings s (.obj fields) n

/-- Trees spell the items of an array. -/
inductive SpellsItems (strings : List Char → List Char → Prop) (s : SourceText) :
    List Json → List Node → Prop where
  | nil : SpellsItems strings s [] []
  | cons {value : Json} {items : List Json} {n : Node} {nodes : List Node}
      (h : Spells strings s value n) (hrest : SpellsItems strings s items nodes) :
      SpellsItems strings s (value :: items) (n :: nodes)

/-- Trees spell the fields of an object: each is a pair of a string and a value. -/
inductive SpellsFields (strings : List Char → List Char → Prop) (s : SourceText) :
    List (String × Json) → List Node → Prop where
  | nil : SpellsFields strings s [] []
  | cons {name : String} {value : Json} {fields : List (String × Json)} {pair key valueNode : Node}
      {nodes : List Node} {inner : List Char} (hkind : pair.kind = "pair")
      (hkey : pair.child? "key" = some key) (hstring : key.kind = "string")
      (hchars : s.charsOf key = .ok ('"' :: (inner ++ ['"']))) (hname : strings name.toList inner)
      (hvalue : pair.child? "value" = some valueNode) (h : Spells strings s value valueNode)
      (hrest : SpellsFields strings s fields nodes) :
      SpellsFields strings s ((name, value) :: fields) (pair :: nodes)

end

/-! ## What is read of a tree -/

section Lists

variable {β : Type} {f : List Node → β}

/-- What skips the nodes without name is decided by the named ones. -/
theorem filter_named_of_skips (hskip : ∀ n rest, n.named = false → f (n :: rest) = f rest)
    (hkeep : ∀ n rest rest', f rest = f rest' → f (n :: rest) = f (n :: rest'))
    (nodes : List Node) : f (nodes.filter (·.named)) = f nodes := by
  induction nodes with
  | nil => rfl
  | cons n rest ih =>
    cases hn : n.named with
    | true =>
      rw [List.filter_cons_of_pos hn]
      exact hkeep n _ _ ih
    | false =>
      rw [List.filter_cons_of_neg (by simp [hn]), hskip n rest hn]
      exact ih

/-- What looks for the first value among parts finds the one by that field name. -/
theorem of_withField?_value {g : Node → β}
    (hcons : ∀ n rest, f (n :: rest) = if n.field = some "value" then g n else f rest)
    {parts : List Node} {n : Node} (h : withField? "value" parts = some n) : f parts = g n := by
  induction parts with
  | nil => simp [withField?] at h
  | cons part rest ih =>
    rw [withField?, List.find?_cons] at h
    rw [hcons]
    split at h <;> rename_i hfield
    · rw [if_pos (of_decide_eq_true hfield), Option.some.inj h]
    · rw [if_neg (of_decide_eq_false hfield), ih h]

end Lists

/-- Nodes without a name, such as brackets and commas, have no say in whether the others are
literals. -/
theorem allLiteral_filter_named (nodes : List Node) :
    allLiteral (nodes.filter (·.named)) = allLiteral nodes := by
  refine filter_named_of_skips ?_ ?_ nodes
  · intro n rest hn
    simp [allLiteral, hn]
  · intro n rest rest' h
    simp only [allLiteral, h]

theorem allPlainPairs_filter_named (nodes : List Node) :
    allPlainPairs (nodes.filter (·.named)) = allPlainPairs nodes := by
  refine filter_named_of_skips ?_ ?_ nodes
  · rintro ⟨kind, named, start, stop, field, children⟩ rest rfl
    simp [allPlainPairs]
  · rintro ⟨kind, named, start, stop, field, children⟩ rest rest' h
    simp only [allPlainPairs, h]

theorem elements_filter_named (s : SourceText) (nodes : List Node) :
    elements s (nodes.filter (·.named)) = elements s nodes := by
  refine filter_named_of_skips ?_ ?_ nodes
  · intro n rest hn
    simp [elements, hn]
  · intro n rest rest' h
    simp only [elements, h]

theorem pairs_filter_named (s : SourceText) (nodes : List Node) :
    pairs s (nodes.filter (·.named)) = pairs s nodes := by
  refine filter_named_of_skips ?_ ?_ nodes
  · rintro ⟨kind, named, start, stop, field, children⟩ rest rfl
    simp [pairs]
  · rintro ⟨kind, named, start, stop, field, children⟩ rest rest' h
    simp only [pairs, h]

theorem valueIsLiteral_eq {parts : List Node} {n : Node}
    (h : withField? "value" parts = some n) : valueIsLiteral parts = n.isLiteral :=
  of_withField?_value (fun n rest => by rw [valueIsLiteral]) h

theorem pairValue_eq (s : SourceText) {parts : List Node} {n : Node}
    (h : withField? "value" parts = some n) : pairValue s parts = scalar s n :=
  of_withField?_value (fun n rest => by rw [pairValue]) h

/-! ### By kind -/

section Kinds

variable {n : Node}

theorem isLiteral_of_plainKinds (h : n.kind ∈ plainKinds) : n.isLiteral = .ok true := by
  obtain ⟨kind, named, start, stop, field, children⟩ := n
  rw [isLiteral, if_pos (List.contains_iff_mem.mpr h)]

theorem isLiteral_minus {argument : Node} (hkind : n.kind = "unary_expression")
    (hargument : n.child? "argument" = some argument) (hnumber : argument.kind = "number") :
    n.isLiteral = .ok true := by
  obtain ⟨kind, named, start, stop, field, children⟩ := n
  obtain rfl : kind = "unary_expression" := hkind
  rw [isLiteral, if_neg (by decide), if_pos rfl,
    show withField? "argument" children = _ from hargument]
  simp [hnumber]

theorem isLiteral_array (hkind : n.kind = "array") : n.isLiteral = allLiteral n.namedChildren := by
  obtain ⟨kind, named, start, stop, field, children⟩ := n
  obtain rfl : kind = "array" := hkind
  rw [isLiteral, namedChildren, allLiteral_filter_named]
  rfl

theorem isLiteral_object (hkind : n.kind = "object") :
    n.isLiteral = allPlainPairs n.namedChildren := by
  obtain ⟨kind, named, start, stop, field, children⟩ := n
  obtain rfl : kind = "object" := hkind
  rw [isLiteral, namedChildren, allPlainPairs_filter_named]
  rfl

variable {s : SourceText} {cs : List Char}

theorem scalar_null (hkind : n.kind = "null") (hchars : s.charsOf n = .ok cs) :
    scalar s n = .ok .null := by
  obtain ⟨kind, named, start, stop, field, children⟩ := n
  obtain rfl : kind = "null" := hkind
  rw [scalar, hchars]
  rfl

theorem scalar_bool {value : Bool} (hkind : n.kind = if value then "true" else "false")
    (hchars : s.charsOf n = .ok cs) : scalar s n = .ok (.bool value) := by
  obtain ⟨kind, named, start, stop, field, children⟩ := n
  obtain rfl : kind = if value then "true" else "false" := hkind
  rw [scalar, hchars]
  cases value <;> rfl

theorem scalar_numeral (hkind : n.kind = "number" ∨ n.kind = "unary_expression")
    (hchars : s.charsOf n = .ok cs) : scalar s n = .ok (.ofNumeral (String.ofList cs)) := by
  obtain ⟨kind, named, start, stop, field, children⟩ := n
  rw [scalar, hchars]
  rcases hkind with hkind | hkind
  · obtain rfl : kind = "number" := hkind
    rfl
  · obtain rfl : kind = "unary_expression" := hkind
    rfl

/-- A string is read as what stands between its quotes, with escapes left as they are. -/
theorem scalar_string {inner : List Char} (hkind : n.kind = "string")
    (hchars : s.charsOf n = .ok ('"' :: (inner ++ ['"']))) :
    scalar s n = .ok (.str (String.ofList inner)) := by
  obtain ⟨kind, named, start, stop, field, children⟩ := n
  obtain rfl : kind = "string" := hkind
  rw [scalar, hchars]
  show Except.ok (Literal.str (String.ofList (inner ++ ['"']).dropLast)) = _
  rw [List.dropLast_concat]

theorem scalar_array (hkind : n.kind = "array") (hchars : s.charsOf n = .ok cs) :
    scalar s n = (elements s n.namedChildren).map Literal.list := by
  obtain ⟨kind, named, start, stop, field, children⟩ := n
  obtain rfl : kind = "array" := hkind
  rw [scalar, hchars, namedChildren, elements_filter_named]
  show (do let items ← elements s children; pure (Literal.list items)) = _
  cases elements s children <;> rfl

theorem scalar_object (hkind : n.kind = "object") (hchars : s.charsOf n = .ok cs) :
    scalar s n =
      (pairs s n.namedChildren).map fun fields => Literal.table (Fields.ofList fields) := by
  obtain ⟨kind, named, start, stop, field, children⟩ := n
  obtain rfl : kind = "object" := hkind
  rw [scalar, hchars, namedChildren, pairs_filter_named]
  show (do let fields ← pairs s children; pure (Literal.table (Fields.ofList fields))) = _
  cases pairs s children <;> rfl

end Kinds

/-! ### Item by item -/

theorem allLiteral_cons {n : Node} (hnamed : n.named = true) (hcomment : n.isComment = false)
    (h : n.isLiteral = .ok true) (rest : List Node) :
    allLiteral (n :: rest) = allLiteral rest := by
  rw [allLiteral, hnamed, hcomment, h]
  rfl

theorem elements_cons {s : SourceText} {n : Node} {item : Literal} {rest : List Node}
    {items : List Literal} (hnamed : n.named = true) (hcomment : n.isComment = false)
    (h : scalar s n = .ok item) (hrest : elements s rest = .ok items) :
    elements s (n :: rest) = .ok (item :: items) := by
  rw [elements, hnamed, hcomment, h, hrest]
  rfl

section Pairs

variable {s : SourceText} {pair key value : Node}

theorem allPlainPairs_cons (hnamed : pair.named = true) (hkind : pair.kind = "pair")
    (hkey : pair.child? "key" = some key) (hstring : key.kind = "string")
    (hvalue : pair.child? "value" = some value) (h : value.isLiteral = .ok true)
    (rest : List Node) : allPlainPairs (pair :: rest) = allPlainPairs rest := by
  obtain ⟨kind, named, start, stop, field, children⟩ := pair
  obtain rfl : kind = "pair" := hkind
  obtain rfl : named = true := hnamed
  rw [child?] at hkey hvalue
  rw [allPlainPairs, hkey, valueIsLiteral_eq hvalue, h]
  simp only [hstring]
  rfl

/-- A pair with a string for its key is read as a field under what stands between the quotes of
the key. -/
theorem pairs_cons {inner : List Char} {literal : Literal} {rest : List Node}
    {fields : List (String × Literal)} (hnamed : pair.named = true) (hkind : pair.kind = "pair")
    (hkey : pair.child? "key" = some key) (hstring : key.kind = "string")
    (hchars : s.charsOf key = .ok ('"' :: (inner ++ ['"'])))
    (hvalue : pair.child? "value" = some value) (h : scalar s value = .ok literal)
    (hrest : pairs s rest = .ok fields) :
    pairs s (pair :: rest) = .ok ((String.ofList inner, literal) :: fields) := by
  obtain ⟨kind, named, start, stop, field, children⟩ := pair
  obtain rfl : kind = "pair" := hkind
  obtain rfl : named = true := hnamed
  rw [child?] at hkey hvalue
  have hname : keyText s children = .ok (String.ofList inner) := by
    simp only [keyText, hkey, hstring, if_true, SourceText.innerTextOf, hchars, Except.map]
    simp
  rw [pairs, hname, pairValue_eq s hvalue, h, hrest]
  rfl

end Pairs

/-! ## Reading what a tree spells -/

theorem Spells.not_isComment {strings : List Char → List Char → Prop} {s : SourceText}
    {value : Json} {n : Node} (h : n.Spells strings s value) : n.isComment = false := by
  cases h with
  | bool value hkind _ => cases value <;> simp [isComment, hkind]
  | _ => simp [isComment, *]

mutual

/-- A tree with its strings taken as they stand is built of literals alone, and is read as
the literal of the value that it spells. -/
theorem Spells.read {s : SourceText} {value : Json} {n : Node} (h : n.Spells Verbatim s value) :
    value.isExact = true →
      n.isLiteral = .ok true ∧ scalar s n = .ok (Literal.ofJson value) := by
  match h with
  | .null hkind hchars =>
    intro _
    exact ⟨isLiteral_of_plainKinds (by simp [hkind, plainKinds]), scalar_null hkind hchars⟩
  | .bool value hkind hchars =>
    intro _
    refine ⟨isLiteral_of_plainKinds ?_, scalar_bool hkind hchars⟩
    cases value <;> simp [hkind, plainKinds]
  | .number hkind hchars h =>
    intro hexact
    rw [Json.isExact] at hexact
    refine ⟨isLiteral_of_plainKinds (by simp [hkind, plainKinds]), ?_⟩
    rw [scalar_numeral (.inl hkind) hchars]
    have hspelling := Numeral.wholeSpelling_of_isWhole h
    exact congrArg Except.ok (Literal.ofNumeral_spelling hspelling false hexact)
  | .minus hkind hargument hnumber hchars h =>
    intro hexact
    rw [Json.isExact] at hexact
    refine ⟨isLiteral_minus hkind hargument hnumber, ?_⟩
    rw [scalar_numeral (.inr hkind) hchars]
    have hspelling := Numeral.wholeSpelling_of_isWhole h
    exact congrArg Except.ok (Literal.ofNumeral_spelling hspelling true hexact)
  | .str hkind hchars h =>
    intro _
    refine ⟨isLiteral_of_plainKinds (by simp [hkind, plainKinds]), ?_⟩
    rw [scalar_string hkind hchars, h, String.ofList_toList]
    rfl
  | .arr hkind hchars h =>
    intro hexact
    rw [Json.isExact] at hexact
    obtain ⟨hliteral, hitems⟩ := h.read hexact (by simp [namedChildren])
    rw [isLiteral_array hkind, scalar_array hkind hchars, hliteral, hitems]
    exact ⟨rfl, rfl⟩
  | .obj hkind hchars h =>
    intro hexact
    obtain ⟨hnames, hexact⟩ := Json.isExact_obj.mp hexact
    obtain ⟨hliteral, hfields⟩ := h.read hexact (by simp [namedChildren])
    rw [isLiteral_object hkind, scalar_object hkind hchars, hliteral, hfields]
    refine ⟨rfl, ?_⟩
    rw [Except.map, Fields.ofList_of_nodup (by rwa [Literal.map_fst_ofJsonFields])]
    rfl

/-- Trees that spell items as they stand are literals and are read as those items, in order. -/
theorem SpellsItems.read {s : SourceText} {items : List Json} {nodes : List Node}
    (h : SpellsItems Verbatim s items nodes) : Json.allExact items = true →
      (∀ n ∈ nodes, n.named = true) →
        allLiteral nodes = .ok true ∧ elements s nodes = .ok (Literal.ofJsonItems items) := by
  match h with
  | .nil =>
    intro _ _
    exact ⟨rfl, rfl⟩
  | .cons h hrest =>
    intro hexact hnamed
    obtain ⟨hvalue, hitems⟩ := Json.allExact_cons.mp hexact
    obtain ⟨hn, hnodes⟩ := List.forall_mem_cons.mp hnamed
    obtain ⟨hliteral, hscalar⟩ := h.read hvalue
    obtain ⟨hall, helements⟩ := hrest.read hitems hnodes
    refine ⟨?_, elements_cons hn h.not_isComment hscalar helements⟩
    rw [allLiteral_cons hn h.not_isComment hliteral, hall]

/-- Trees that spell fields as they stand are plain pairs and are read as those fields, in
order. -/
theorem SpellsFields.read {s : SourceText} {fields : List (String × Json)} {nodes : List Node}
    (h : SpellsFields Verbatim s fields nodes) : Json.allFieldsExact fields = true →
      (∀ n ∈ nodes, n.named = true) →
        allPlainPairs nodes = .ok true ∧ pairs s nodes = .ok (Literal.ofJsonFields fields) := by
  match h with
  | .nil =>
    intro _ _
    exact ⟨rfl, rfl⟩
  | .cons hkind hkey hstring hchars hname hvalue h hrest =>
    intro hexact hnamed
    obtain ⟨hexactValue, hfields⟩ := Json.allFieldsExact_cons.mp hexact
    obtain ⟨hpair, hnodes⟩ := List.forall_mem_cons.mp hnamed
    obtain ⟨hliteral, hscalar⟩ := h.read hexactValue
    obtain ⟨hall, hpairs⟩ := hrest.read hfields hnodes
    constructor
    · rw [allPlainPairs_cons hpair hkind hkey hstring hvalue hliteral, hall]
    · rw [pairs_cons hpair hkind hkey hstring hchars hvalue hscalar hpairs, hname,
        String.ofList_toList]
      rfl

end

/-! ## Escapes -/

section Strings

variable {P Q R : List Char → List Char → Prop} {s : SourceText}

mutual

/-- A tree spells a value under what two ways of spelling strings have in common. -/
theorem Spells.both (hstrings : ∀ text inner, P text inner → Q text inner → R text inner)
    {value : Json} {n : Node} (h : n.Spells P s value) (h' : n.Spells Q s value) :
    n.Spells R s value := by
  match h with
  | .null hkind hchars => exact .null hkind hchars
  | .bool value hkind hchars => exact .bool value hkind hchars
  | .number hkind hchars h => exact .number hkind hchars h
  | .minus hkind hargument hnumber hchars h => exact .minus hkind hargument hnumber hchars h
  | .str hkind hchars h =>
    cases h' with
    | str _ hchars' h' =>
      rw [hchars] at hchars'
      obtain rfl : _ = _ := by simpa using hchars'
      exact .str hkind hchars (hstrings _ _ h h')
  | .arr hkind hchars h =>
    cases h' with
    | arr _ _ h' => exact .arr hkind hchars (h.both hstrings h')
  | .obj hkind hchars h =>
    cases h' with
    | obj _ _ h' => exact .obj hkind hchars (h.both hstrings h')

theorem SpellsItems.both (hstrings : ∀ text inner, P text inner → Q text inner → R text inner)
    {items : List Json} {nodes : List Node} (h : SpellsItems P s items nodes)
    (h' : SpellsItems Q s items nodes) : SpellsItems R s items nodes := by
  match h with
  | .nil => exact .nil
  | .cons h hrest =>
    cases h' with
    | cons h' hrest' => exact .cons (h.both hstrings h') (hrest.both hstrings hrest')

theorem SpellsFields.both (hstrings : ∀ text inner, P text inner → Q text inner → R text inner)
    {fields : List (String × Json)} {nodes : List Node} (h : SpellsFields P s fields nodes)
    (h' : SpellsFields Q s fields nodes) : SpellsFields R s fields nodes := by
  match h with
  | .nil => exact .nil
  | .cons hkind hkey hstring hchars hname hvalue h hrest =>
    cases h' with
    | cons _ hkey' _ hchars' hname' hvalue' h' hrest' =>
      rw [hkey] at hkey'
      obtain rfl := Option.some.inj hkey'
      rw [hvalue] at hvalue'
      obtain rfl := Option.some.inj hvalue'
      rw [hchars] at hchars'
      obtain rfl : _ = _ := by simpa using hchars'
      exact .cons hkind hkey hstring hchars (hstrings _ _ hname hname') hvalue
        (h.both hstrings h') (hrest.both hstrings hrest')

end

end Strings

end Node
end CodeOutline
