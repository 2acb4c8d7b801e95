import CodeOutline.Proofs.Literal.Kept
import Mathlib.Data.List.Perm.Subperm

/-!
# Arrays and objects as text

An element of an array stands after as many commas as there are places before it. The list that
the array is kept as has each element at its place, and of its own kind, exactly if every place
before an element is taken and every numeral reads as a number. The text of an array is that of a
list, and the text of an object that of an object exactly if the object has members.
-/

namespace CodeOutline

/-! ## Kinds -/

/-- Whether a double is a number. -/
def Double.isFinite : Double → Bool
  | .finite _ _ _ => true
  | _ => false

/-- Whether a literal is a number. -/
def Literal.isNumber : Literal → Bool
  | .int _ => true
  | .real x => x.isFinite
  | _ => false

namespace Node

/-- A node and a JSON value are of one kind. -/
def SameKind (n : Node) : Json → Prop
  | .null => n.kind = "null"
  | .bool value => n.kind = if value then "true" else "false"
  | .int _ => n.isNumeral = true
  | .real x => n.isNumeral = true ∧ x.isFinite = true
  | .str _ => n.kind = "string"
  | .arr _ => n.kind = "array"
  | .obj _ => n.kind = "object"

/-- The text of a node reads as a number. -/
def ReadsNumber (s : SourceText) (n : Node) : Prop :=
  ∃ text, s.textOf n = .ok text ∧ (Literal.ofNumeral text).isNumber = true

variable {s : SourceText} {n : Node}

theorem isNumeral_eq_false {kind : String} (hkind : n.kind = kind)
    (h : (kind = "number" || kind = "unary_expression") = false) : n.isNumeral = false := by
  rw [isNumeral, hkind]
  exact h

theorem readsNumber_iff {text : String} (htext : s.textOf n = .ok text) :
    n.ReadsNumber s ↔ (Literal.ofNumeral text).isNumber = true := by
  constructor
  · rintro ⟨other, hother, hnumber⟩
    rwa [Except.ok.inj (htext.symm.trans hother)]
  · intro hnumber
    exact ⟨text, htext, hnumber⟩

instance (s : SourceText) (n : Node) : Decidable (n.ReadsNumber s) :=
  match h : s.textOf n with
  | .ok _ => decidable_of_iff _ (readsNumber_iff h).symm
  | .error _ => .isFalse fun ⟨_, htext, _⟩ => nomatch h.symm.trans htext

/-- Only numerals that do not read as numbers are kept as something of another kind. -/
theorem KeptAs.sameKind_iff {value : Json} (h : n.KeptAs s value) :
    n.SameKind value ↔ (n.isNumeral = true → n.ReadsNumber s) := by
  have hother : ∀ kind, n.kind = kind →
      (kind = "number" || kind = "unary_expression") = false → n.SameKind value →
      (n.SameKind value ↔ (n.isNumeral = true → n.ReadsNumber s)) := by
    intro kind hkind hne hsame
    rw [isNumeral_eq_false hkind hne]
    simp [hsame]
  cases h with
  | null hkind => exact hother _ hkind rfl hkind
  | bool value hkind => exact hother _ hkind (by cases value <;> rfl) hkind
  | str hkind _ => exact hother _ hkind rfl hkind
  | arr hkind _ => exact hother _ hkind rfl hkind
  | obj hkind _ _ => exact hother _ hkind rfl hkind
  | int hkind htext hread =>
    rw [readsNumber_iff htext, hread]
    simp [SameKind, Literal.isNumber, hkind]
  | real hkind htext hread =>
    rw [readsNumber_iff htext, hread]
    simp [SameKind, Literal.isNumber, hkind]
  | unread hkind htext hread =>
    have hstring : n.kind ≠ "string" := by
      intro hkind'
      simp [isNumeral, hkind'] at hkind
    rw [readsNumber_iff htext, hread]
    simp [SameKind, Literal.isNumber, hkind, hstring]

/-! ## Places -/

/-- Whether a node is a comma between elements. -/
def isComma (n : Node) : Bool := !n.named && n.kind = ","

/-- The number of commas before each element among nodes, `k` of them before the first node. -/
def placesFrom : Nat → List Node → List Nat
  | _, [] => []
  | k, n :: rest =>
      if n.isElement then k :: placesFrom k rest
      else placesFrom (if n.isComma then k + 1 else k) rest

/-- The place of each element of an array. -/
def places (n : Node) : List Nat := placesFrom 0 n.children

/-- Between any two elements of an array there is a comma. -/
def Separated (n : Node) : Prop := n.places.Pairwise (· < ·)

/-- Every place before an element of an array is taken by an element. -/
def Dense (n : Node) : Prop := n.places = List.range n.elementNodes.length

instance (n : Node) : Decidable n.Separated := inferInstanceAs (Decidable (List.Pairwise _ _))

instance (n : Node) : Decidable n.Dense := inferInstanceAs (Decidable (_ = _))

theorem length_placesFrom (k : Nat) (nodes : List Node) :
    (placesFrom k nodes).length = (nodes.filter isElement).length := by
  induction nodes generalizing k with
  | nil => rfl
  | cons n rest ih =>
    rw [placesFrom]
    cases helement : n.isElement with
    | true => simp [helement, ih]
    | false => simp [helement, ih]

/-- Places that differ and are all below their number are all there are. -/
theorem eq_range_of_pairwise_lt {l : List Nat} (h : l.Pairwise (· < ·))
    (hlt : ∀ i ∈ l, i < l.length) : l = List.range l.length := by
  have hsubset : l ⊆ List.range l.length := fun i hi => List.mem_range.mpr (hlt i hi)
  have hnodup : l.Nodup := h.imp Nat.ne_of_lt
  have hperm : l.Perm (List.range l.length) :=
    (List.Nodup.subperm hnodup hsubset).perm_of_length_le (by simp)
  exact hperm.eq_of_pairwise (fun _ _ _ _ hab hba => absurd hab (Nat.lt_asymm hba)) h
    List.pairwise_lt_range

/-! ## Arrays keep their elements -/

/-- Each element of an array is at its place in a list, kept as a value of its own kind. -/
def KeepsElements (s : SourceText) (n : Node) (items : List Json) : Prop :=
  List.Forall₂ (fun c i => ∃ item, items[i]? = some item ∧ c.KeptAs s item ∧ c.SameKind item)
    n.elementNodes n.places

theorem KeepsElements.readsNumber {items : List Json} (h : n.KeepsElements s items) :
    ∀ c ∈ n.elementNodes, c.isNumeral = true → c.ReadsNumber s := by
  intro c hc
  obtain ⟨j, hj, rfl⟩ := List.mem_iff_getElem.mp hc
  obtain ⟨hlength, hplaces⟩ := List.forall₂_iff_get.mp h
  obtain ⟨item, -, hkept, hkind⟩ := hplaces j hj (hlength ▸ hj)
  exact hkept.sameKind_iff.mp hkind

/-- Elements that are kept are in the list, so each of them has a place below their number. -/
theorem KeepsElements.dense {items : List Json} (h : n.KeepsElements s items)
    (hitems : ItemsKeptAs s n.elementNodes items) (hseparated : n.Separated) : n.Dense := by
  have hlength : n.places.length = n.elementNodes.length := length_placesFrom 0 n.children
  have hcount : n.elementNodes.length = items.length := (itemsKeptAs_iff.mp hitems).length_eq
  have hlt : ∀ i ∈ n.places, i < n.places.length := by
    intro i hi
    obtain ⟨j, hj, rfl⟩ := List.mem_iff_getElem.mp hi
    obtain ⟨-, hplaces⟩ := List.forall₂_iff_get.mp h
    obtain ⟨item, hitem, -⟩ := hplaces j (hlength ▸ hj) hj
    rw [hlength, hcount]
    exact (List.getElem?_eq_some_iff.mp hitem).1
  rw [Dense, ← hlength]
  exact eq_range_of_pairwise_lt hseparated hlt

theorem keepsElements_of_dense {items : List Json} (hitems : ItemsKeptAs s n.elementNodes items)
    (hdense : n.Dense) (hread : ∀ c ∈ n.elementNodes, c.isNumeral = true → c.ReadsNumber s) :
    n.KeepsElements s items := by
  obtain ⟨hlength, hkept⟩ := List.forall₂_iff_get.mp (itemsKeptAs_iff.mp hitems)
  rw [KeepsElements, show n.places = _ from hdense]
  refine List.forall₂_iff_get.mpr ⟨by simp, fun j hj hrange => ?_⟩
  have hj' : j < items.length := hlength ▸ hj
  have hplace : (List.range n.elementNodes.length).get ⟨j, hrange⟩ = j := List.getElem_range _
  rw [hplace]
  refine ⟨items[j], List.getElem?_eq_getElem hj', hkept j hj hj', ?_⟩
  exact (hkept j hj hj').sameKind_iff.mpr (hread _ (List.get_mem _ _))

/-- Elements with commas between them are kept exactly if they leave no place free and their
numerals read as numbers. -/
theorem separated_and_keepsElements_iff {items : List Json}
    (hitems : ItemsKeptAs s n.elementNodes items) :
    n.Separated ∧ n.KeepsElements s items ↔
      n.Dense ∧ ∀ c ∈ n.elementNodes, c.isNumeral = true → c.ReadsNumber s := by
  constructor
  · rintro ⟨hseparated, hkeeps⟩
    exact ⟨hkeeps.dense hitems hseparated, hkeeps.readsNumber⟩
  · rintro ⟨hdense, hread⟩
    refine ⟨?_, keepsElements_of_dense hitems hdense hread⟩
    rw [Separated, show n.places = _ from hdense]
    exact List.pairwise_lt_range

/-- An array of literals is written as the list of what its elements are kept as, unless a whole
number has too many digits. That list has each element at its place, and of its own kind, exactly
if every place before an element is taken and every numeral reads as a number. -/
theorem keepsElements_iff {init : Initializer} (hkind : n.kind = "array")
    (h : initializer s (some n) = .ok init) (hcontainer : init.kind = some "array") :
    ∃ items, ItemsKeptAs s n.elementNodes items ∧
      init.value.normalize init.kind =
        writtenIf (Json.allWritable items) (Json.arr items).compact ∧
      (n.Separated ∧ n.KeepsElements s items ↔
        n.Dense ∧ ∀ c ∈ n.elementNodes, c.isNumeral = true → c.ReadsNumber s) := by
  obtain ⟨items, hitems, htext⟩ := normalize_array h hcontainer hkind
  exact ⟨items, hitems, htext, separated_and_keepsElements_iff hitems⟩

end Node

/-- An array of a number, a string and an object, with a comment between them. -/
def mixedArray : SourceText := .ofString "[-1, /* c */ \"a\", \x7bb: null\x7d]"

/-- The tree of the array of a number, a string and an object. -/
def mixedArrayTree : Node :=
  ⟨"array", true, 0, 28, none,
    [⟨"[", false, 0, 1, none, []⟩,
     ⟨"unary_expression", true, 1, 3, none,
      [⟨"-", false, 1, 2, some "operator", []⟩, ⟨"number", true, 2, 3, some "argument", []⟩]⟩,
     ⟨",", false, 3, 4, none, []⟩,
     ⟨"comment", true, 5, 12, none, []⟩,
     ⟨"string", true, 13, 16, none, []⟩,
     ⟨",", false, 16, 17, none, []⟩,
     ⟨"object", true, 18, 27, none,
      [⟨"\x7b", false, 18, 19, none, []⟩,
       ⟨"pair", true, 19, 26, none,
        [⟨"property_identifier", true, 19, 20, some "key", []⟩,
         ⟨":", false, 20, 21, none, []⟩,
         ⟨"null", true, 22, 26, some "value", []⟩]⟩,
       ⟨"\x7d", false, 26, 27, none, []⟩]⟩,
     ⟨"]", false, 27, 28, none, []⟩]⟩

theorem keepsElements_iff_mixedArray :
    mixedArrayTree.kind = "array" ∧
    ∃ init, Node.initializer mixedArray (some mixedArrayTree) = .ok init ∧
      init.kind = some "array" ∧
      ∃ items, Node.ItemsKeptAs mixedArray mixedArrayTree.elementNodes items ∧
        init.value.normalize init.kind =
          writtenIf (Json.allWritable items) (Json.arr items).compact ∧
        mixedArrayTree.Separated ∧ mixedArrayTree.KeepsElements mixedArray items := by
  have hinit : Node.initializer mixedArray (some mixedArrayTree) =
      .ok ⟨.entries [(none, .int (-1)), (none, .str "a"), (none, .table [("b", .null)])],
        some "array"⟩ := rfl
  obtain ⟨items, hitems, htext, hiff⟩ := Node.keepsElements_iff rfl hinit rfl
  exact ⟨rfl, _, hinit, rfl, items, hitems, htext, hiff.mpr (by decide)⟩

/-- An array of a minus, a blank and a number. -/
def spacedMinus : SourceText := .ofString "[- 1]"

/-- The tree of the array of a minus, a blank and a number. -/
def spacedMinusTree : Node :=
  ⟨"array", true, 0, 5, none,
    [⟨"[", false, 0, 1, none, []⟩,
     ⟨"unary_expression", true, 1, 4, none,
      [⟨"-", false, 1, 2, some "operator", []⟩, ⟨"number", true, 3, 4, some "argument", []⟩]⟩,
     ⟨"]", false, 4, 5, none, []⟩]⟩

/-- A number with a blank after its sign is kept as a string. -/
theorem not_keepsElements_spacedMinus :
    spacedMinusTree.kind = "array" ∧
    ∃ init, Node.initializer spacedMinus (some spacedMinusTree) = .ok init ∧
      init.kind = some "array" ∧ init.value.normalize init.kind = .ok "[\"- 1\"]" ∧
      spacedMinusTree.Separated ∧ spacedMinusTree.Dense ∧
      ∀ items, ¬ spacedMinusTree.KeepsElements spacedMinus items := by
  have hinit : Node.initializer spacedMinus (some spacedMinusTree) =
      .ok ⟨.entries [(none, .str "- 1")], some "array"⟩ := rfl
  refine ⟨rfl, _, hinit, rfl, rfl, by decide, by decide, ?_⟩
  intro items hkeeps
  exact absurd hkeeps.readsNumber (by decide)

/-! ## Containers keep their shape -/

namespace Json

/-- A text is that of a list. -/
def IsListText (text : String) : Prop := ∃ items, text = (Json.arr items).compact

/-- A text is that of an object. -/
def IsObjectText (text : String) : Prop := ∃ fields, text = (Json.obj fields).compact

theorem not_isObjectText_emptyList : ¬ IsObjectText (Json.arr []).compact := by
  rintro ⟨fields, hsame⟩
  have hchars := congrArg String.toList hsame
  rw [compact, compact, String.toList_ofList, String.toList_ofList, compactChars,
    compactChars] at hchars
  exact absurd (List.cons.inj hchars).1 (by decide)

end Json

namespace Node

/-- The text of an array is that of a list, and the text of an object that of an object. -/
structure KeepsShape (n : Node) (text : String) : Prop where
  list : n.kind = "array" → Json.IsListText text
  object : n.kind = "object" → Json.IsObjectText text

/-- A container of literals is written as one JSON value, unless a whole number has too many
digits. Its text has its shape exactly if it is no object without members. If so it is the text
of what the container is kept as, at every depth, and else that of an empty list. -/
theorem keepsShape_iff {s : SourceText} {n : Node} {init : Initializer}
    (h : initializer s (some n) = .ok init) (hcontainer : init.kind = some "array") :
    (n.kind = "array" ∨ n.kind = "object") ∧
    ∃ value, init.value.normalize init.kind = writtenIf value.isWritable value.compact ∧
      (n.KeepsShape value.compact ↔ (n.kind = "object" → n.elementNodes ≠ [])) ∧
      (n.KeepsShape value.compact → n.KeptAs s value) ∧
      (¬ n.KeepsShape value.compact → value = .arr []) := by
  have hkind := (of_initializer h hcontainer).1
  refine ⟨hkind, ?_⟩
  rcases hkind with hkind | hkind
  · obtain ⟨items, hitems, htext⟩ := normalize_array h hcontainer hkind
    have hobject : n.kind ≠ "object" := by simp [hkind]
    have hshape : n.KeepsShape (Json.arr items).compact :=
      ⟨fun _ => ⟨items, rfl⟩, fun hother => absurd hother hobject⟩
    exact ⟨.arr items, htext, iff_of_true hshape fun hother => absurd hother hobject,
      fun _ => .arr hkind hitems, fun hnot => absurd hshape hnot⟩
  · have hlist : n.kind ≠ "array" := by simp [hkind]
    by_cases hnil : n.elementNodes = []
    · have hshape : ¬ n.KeepsShape (Json.arr []).compact :=
        fun hshape => Json.not_isObjectText_emptyList (hshape.object hkind)
      exact ⟨.arr [], normalize_memberless h hcontainer hkind hnil,
        iff_of_false hshape fun hfilled => hfilled hkind hnil,
        fun hkept => absurd hkept hshape, fun _ => rfl⟩
    · obtain ⟨fields, hfields, htext⟩ := normalize_object h hcontainer hkind hnil
      have hshape : n.KeepsShape (Json.obj fields).compact :=
        ⟨fun hother => absurd hother hlist, fun _ => ⟨fields, rfl⟩⟩
      exact ⟨.obj fields, htext, iff_of_true hshape fun _ => hnil, fun _ => hfields,
        fun hnot => absurd hshape hnot⟩

end Node

/-- An object in which a comment stands before a member whose value is an empty object. -/
def nestedObject : SourceText := .ofString "\x7b/* c */ b: \x7b\x7d\x7d"

/-- The tree of the object with a comment before its member. -/
def nestedObjectTree : Node :=
  ⟨"object", true, 0, 15, none,
    [⟨"\x7b", false, 0, 1, none, []⟩,
     ⟨"comment", true, 1, 8, none, []⟩,
     ⟨"pair", true, 9, 14, none,
      [⟨"property_identifier", true, 9, 10, some "key", []⟩,
       ⟨":", false, 10, 11, none, []⟩,
       ⟨"object", true, 12, 14, some "value",
        [⟨"\x7b", false, 12, 13, none, []⟩, ⟨"\x7d", false, 13, 14, none, []⟩]⟩]⟩,
     ⟨"\x7d", false, 14, 15, none, []⟩]⟩

theorem keepsShape_iff_nestedObject :
    ∃ init, Node.initializer nestedObject (some nestedObjectTree) = .ok init ∧
      init.kind = some "array" ∧
      ∃ value, init.value.normalize init.kind = writtenIf value.isWritable value.compact ∧
        nestedObjectTree.KeepsShape value.compact ∧ nestedObjectTree.KeptAs nestedObject value := by
  have hinit : Node.initializer nestedObject (some nestedObjectTree) =
      .ok ⟨.entries [(some "b", .table [])], some "array"⟩ := rfl
  obtain ⟨-, value, htext, hiff, hkept, -⟩ := Node.keepsShape_iff hinit rfl
  have hshape := hiff.mpr fun _ => List.cons_ne_nil _ _
  exact ⟨_, hinit, rfl, value, htext, hshape, hkept hshape⟩

/-- An object in which only a comment stands. -/
def commentOnly : SourceText := .ofString "\x7b/* c */\x7d"

/-- The tree of the object in which only a comment stands. -/
def commentOnlyTree : Node :=
  ⟨"object", true, 0, 9, none,
    [⟨"\x7b", false, 0, 1, none, []⟩,
     ⟨"comment", true, 1, 8, none, []⟩,
     ⟨"\x7d", false, 8, 9, none, []⟩]⟩

/-- An object in which only a comment stands is kept as an empty list. -/
theorem not_keepsShape_commentOnly :
    ∃ init, Node.initializer commentOnly (some commentOnlyTree) = .ok init ∧
      init.kind = some "array" ∧ init.value.normalize init.kind = .ok "[]" ∧
      ¬ commentOnlyTree.KeepsShape "[]" := by
  have hinit : Node.initializer commentOnly (some commentOnlyTree) =
      .ok ⟨.entries [], some "array"⟩ := rfl
  refine ⟨_, hinit, rfl, rfl, fun hshape => ?_⟩
  exact Json.not_isObjectText_emptyList (hshape.object rfl)

end CodeOutline
