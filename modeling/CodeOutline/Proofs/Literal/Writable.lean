import CodeOutline.Proofs.Declaration.Origin
import CodeOutline.Proofs.Fields
import CodeOutline.Proofs.Literal.LastWrite
import CodeOutline.Proofs.Literal.Parts
import CodeOutline.Proofs.Literal.Spelling
import CodeOutline.Proofs.SourceText
import Mathlib.Tactic.MkIffOfInductiveProp

/-!
# Default values that can be written

A node that starts and ends between characters has a text. If all nodes of a tree do,
and none lacks a part that its kind calls for, then each initializer in it is read, and
what is read has a canonical text: entries come with the declared type that has a place
for them, and inside of them there are only values that JSON has a place for.
-/

namespace CodeOutline

/-! ## Sound trees -/

instance {α : Type} {x : Except Fault α} {P : α → Prop} [DecidablePred P] :
    Decidable (∀ a, x = .ok a → P a) :=
  match x with
  | .ok a => decidable_of_iff (P a) (by simp)
  | .error _ => .isTrue (by simp)

instance {value : Literal} {P : Int → Prop} [DecidablePred P] :
    Decidable (∀ k, value = .int k → P k) :=
  match value with
  | .int k => decidable_of_iff (P k) (by simp)
  | .null | .bool _ | .real _ | .str _ | .list _ | .table _ | .entries _ => .isTrue (by simp)

namespace Node

/-- A node that starts and ends between characters and has what its kind calls for: a
pair its key and its value, an imported member its name, a modifier of access the name
of a visibility, and a numeral, if it is whole, few enough digits to be written. -/
@[mk_iff]
structure Sound (s : SourceText) (n : Node) : Prop where
  bounds : s.IsBoundary n.start ∧ s.IsBoundary n.stop
  pair : n.kind = "pair" → (n.child? "key").isSome ∧ (n.child? "value").isSome
  specifier : n.kind = "import_specifier" → (n.child? "name").isSome
  modifier : n.kind = "accessibility_modifier" →
    ∀ text, s.textOf n = .ok text → text ∈ Visibility.names
  numeral : n.kind = "number" ∨ n.kind = "unary_expression" →
    ∀ text, s.textOf n = .ok text →
      ∀ k, Literal.ofNumeral text = .int k → Numeral.isWritable k = true

instance (s : SourceText) (n : Node) : Decidable (n.Sound s) :=
  decidable_of_iff _ (sound_iff s n).symm

/-- A tree of sound nodes. Nodes of any kind may stand anywhere in it. -/
def SoundTree (s : SourceText) (tree : Node) : Prop :=
  ∀ n : Node, n.Within tree → n.Sound s

variable {s : SourceText} {n : Node}

theorem soundTree_mk_iff {kind : String} {named : Bool} {start stop : Nat}
    {field : Option String} {children : List Node} :
    SoundTree s ⟨kind, named, start, stop, field, children⟩ ↔
      Sound s ⟨kind, named, start, stop, field, children⟩ ∧ ∀ c ∈ children, c.SoundTree s := by
  constructor
  · intro h
    exact ⟨h _ (.self _), fun c hc n hn => h n (.child hc hn)⟩
  · rintro ⟨hself, hchildren⟩ n hn
    rcases within_mk_iff.mp hn with rfl | ⟨c, hc, hn⟩
    · exact hself
    · exact hchildren c hc n hn

theorem Sound.exists_pair (h : n.Sound s) (hkind : n.kind = "pair") :
    ∃ key value, n.child? "key" = some key ∧ n.child? "value" = some value := by
  obtain ⟨hkey, hvalue⟩ := h.pair hkind
  obtain ⟨key, hkey⟩ := Option.isSome_iff_exists.mp hkey
  obtain ⟨value, hvalue⟩ := Option.isSome_iff_exists.mp hvalue
  exact ⟨key, value, hkey, hvalue⟩

theorem SoundTree.sound (h : n.SoundTree s) : n.Sound s := h n (.self n)

theorem SoundTree.within {m : Node} (h : n.SoundTree s) (hm : m.Within n) : m.SoundTree s :=
  fun k hk => h k (hk.trans hm)

theorem SoundTree.of_mem {c : Node} (h : n.SoundTree s) (hc : c ∈ n.children) : c.SoundTree s :=
  h.within (.of_mem hc)

theorem SoundTree.of_child? {c : Node} {field : String} (h : n.SoundTree s)
    (hc : n.child? field = some c) : c.SoundTree s :=
  h.within (.of_child? hc)

theorem SoundTree.of_mem_namedChildren {c : Node} (h : n.SoundTree s) (hc : c ∈ n.namedChildren) :
    c.SoundTree s :=
  h.within (.of_mem_namedChildren hc)

/-! ## Texts -/

theorem yields_offset {byte : Nat} (h : s.IsBoundary byte) :
    Yields (s.offset byte) fun _ => True := by
  obtain ⟨k, hk, rfl⟩ := h
  exact ⟨k, s.offset_byteAt hk, trivial⟩

/-- The text of a node can be cut out of the source, as the node starts and ends between
characters. -/
theorem yields_charsOf (h : n.SoundTree s) :
    Yields (s.charsOf n) fun cs => s.textOf n = .ok (String.ofList cs) := by
  obtain ⟨⟨i, -, hi⟩, j, -, hj⟩ := h.sound.bounds
  have hchars : s.charsOf n = .ok ((s.chars.take j).drop i) := by
    rw [SourceText.charsOf, hi, hj, s.charsBetween_byteAt]
  refine ⟨_, hchars, ?_⟩
  rw [SourceText.textOf, hchars]
  rfl

theorem yields_textOf (h : n.SoundTree s) :
    Yields (s.textOf n) fun text => s.textOf n = .ok text := by
  obtain ⟨cs, -, htext⟩ := yields_charsOf h
  exact ⟨_, htext, htext⟩

theorem yields_innerTextOf (h : n.SoundTree s) : Yields (s.innerTextOf n) fun _ => True :=
  (yields_charsOf h).map fun _ _ => trivial

end Node

/-! ## Literals that JSON has a place for -/

namespace Literal

theorem ofNumeral_cases (text : String) :
    (∃ k, ofNumeral text = .int k) ∨ (∃ x, ofNumeral text = .real x) ∨
      ofNumeral text = .str text := by
  unfold ofNumeral
  split
  · exact .inl ⟨_, rfl⟩
  split
  · exact .inr (.inl ⟨_, rfl⟩)
  · exact .inr (.inr rfl)

/-- A numeral has a JSON value unless it is a whole number of too many digits: doubles have one,
and so has the text that is kept of the others. -/
theorem writable_ofNumeral {text : String}
    (h : ∀ k, ofNumeral text = .int k → Numeral.isWritable k = true) :
    (ofNumeral text).Writable := by
  rcases ofNumeral_cases text with ⟨k, hread⟩ | ⟨x, hread⟩ | hread
  · rw [hread, Writable, toJson, if_pos (h k hread)]
    exact .ok trivial
  · rw [hread]
    exact .ok trivial
  · rw [hread]
    exact .ok trivial

/-! ## Containers of values that JSON has a place for -/

/-- A container has a JSON value if all its entries do. Which entry takes which place does not
matter, as each of its values is that of some entry. -/
theorem writable_ofEntries {items : List (Option String × Literal)}
    (h : ∀ entry ∈ items, entry.2.Writable) : (ofEntries items).Writable := by
  rw [writable_iff_children]
  constructor
  · unfold ofEntries IsEntries IsLong
    split
    · simp
    split <;> simp
  · intro child hchild
    obtain ⟨entry, hentry, rfl⟩ := mem_of_mem_children_ofEntries hchild
    exact h entry hentry

/-! ## Values that have a canonical text -/

/-- A default value that has a canonical text by the kind of its literal, whatever type
is declared. -/
def HasText (value : Literal) (kind : Option String) : Prop :=
  ∀ type, Yields (value.normalize (valueTypeOr kind type)) fun _ => True

theorem hasText_null (kind : Option String) : Literal.null.HasText kind :=
  fun _ => .ok trivial

theorem hasText_str (text : String) (kind : Option String) : (Literal.str text).HasText kind :=
  fun _ => .ok trivial

theorem hasText_entries {items : List (Option String × Literal)}
    (h : ∀ entry ∈ items, entry.2.Writable) :
    (Literal.entries items).HasText (some "array") := by
  intro type
  show Yields ((ofEntries items).toJson.map Json.compact) fun _ => True
  exact (writable_ofEntries h).map fun _ _ => trivial

end Literal

/-! ## Literals of a tree -/

namespace Node

variable {s : SourceText} {n : Node}

/-- What holds of each node as soon as it holds of all nodes inside of it holds of all
nodes. -/
theorem withinInduction {motive : Node → Prop}
    (node : ∀ n : Node, (∀ c ∈ n.children, ∀ m : Node, m.Within c → motive m) → motive n)
    (n : Node) : motive n := by
  have hall : ∀ m : Node, m.Within n → motive m := by
    induction n using childrenInduction with
    | node n ih =>
      intro m hm
      cases hm with
      | self => exact node n ih
      | child hc hm => exact ih _ hc m hm
  exact hall n (.self n)

theorem yields_allLiteral {nodes : List Node}
    (h : ∀ n ∈ nodes, Yields n.isLiteral fun _ => True) :
    Yields (allLiteral nodes) fun _ => True := by
  induction nodes with
  | nil => exact .ok trivial
  | cons n rest ih =>
    have hrest := ih fun m hm => h m (List.mem_cons_of_mem n hm)
    rw [allLiteral]
    split
    · exact hrest
    · refine (h n (by simp)).bind fun literal _ => ?_
      cases literal with
      | true => exact hrest
      | false => exact .ok trivial

/-- Whether nodes are plain pairs throughout can be told if it can be told of the value of each:
a sound pair has its key and its value, so that neither is missed. -/
theorem yields_allPlainPairs {nodes : List Node} (hsound : ∀ n ∈ nodes, n.Sound s)
    (h : ∀ n ∈ nodes, ∀ value, n.child? "value" = some value →
      Yields value.isLiteral fun _ => True) :
    Yields (allPlainPairs nodes) fun _ => True := by
  induction nodes with
  | nil => exact .ok trivial
  | cons n rest ih =>
    have hrest := ih (fun m hm => hsound m (List.mem_cons_of_mem n hm))
      fun m hm => h m (List.mem_cons_of_mem n hm)
    have hpair := (hsound n (by simp)).exists_pair
    have hvalue := h n (by simp)
    obtain ⟨kind, named, start, stop, field, children⟩ := n
    rw [allPlainPairs]
    split
    · exact hrest
    split
    · exact .ok trivial
    · rename_i hkind
      obtain ⟨key, value, hkey, hvalueNode⟩ := hpair (not_not.mp hkind)
      rw [show withField? "key" children = some key from hkey]
      dsimp only
      split
      · exact .ok trivial
      · rw [valueIsLiteral_eq hvalueNode]
        refine (hvalue value hvalueNode).bind fun literal _ => ?_
        cases literal with
        | true => exact hrest
        | false => exact .ok trivial

/-- Whether a node of a sound tree is a literal can be told, by induction on the tree. -/
theorem yields_isLiteral (h : n.SoundTree s) : Yields n.isLiteral fun _ => True := by
  induction n using withinInduction with
  | node n ih =>
    have hchild : ∀ c ∈ n.children, ∀ m : Node, m.Within c → Yields m.isLiteral fun _ => True :=
      fun c hc m hm => ih c hc m hm (h.within (hm.trans (.of_mem hc)))
    have hsound : ∀ c ∈ n.children, c.Sound s := fun c hc => (h.of_mem hc).sound
    obtain ⟨kind, named, start, stop, field, children⟩ := n
    rw [isLiteral]
    split
    · exact .ok trivial
    split
    · exact .ok trivial
    split
    · exact yields_allLiteral fun c hc => hchild c hc c (.self c)
    split
    · exact yields_allPlainPairs hsound fun c hc value hvalue =>
        hchild c hc value (.of_child? hvalue)
    · exact .ok trivial

theorem yields_elements {nodes : List Node} (h : ∀ n ∈ nodes, Yields (scalar s n) (·.Writable)) :
    Yields (elements s nodes) fun items => ∀ item ∈ items, item.Writable := by
  induction nodes with
  | nil => exact .ok (by simp)
  | cons n rest ih =>
    have hrest := ih fun m hm => h m (List.mem_cons_of_mem n hm)
    rw [elements]
    split
    · exact hrest
    · refine (h n (by simp)).bind fun item hitem => ?_
      refine hrest.bind fun items hitems => ?_
      exact .ok (List.forall_mem_cons.mpr ⟨hitem, hitems⟩)

theorem yields_keyText {key : Node} (hn : n.SoundTree s) (hkey : n.child? "key" = some key) :
    Yields (keyText s n.children) fun _ => True := by
  rw [keyText, show withField? "key" n.children = some key from hkey]
  dsimp only
  split
  · exact yields_innerTextOf (hn.of_child? hkey)
  · exact (yields_textOf (hn.of_child? hkey)).imp fun _ _ => trivial

theorem yields_pairs {nodes : List Node} (hsound : ∀ n ∈ nodes, n.SoundTree s)
    (h : ∀ n ∈ nodes, ∀ value, n.child? "value" = some value →
      Yields (scalar s value) (·.Writable)) :
    Yields (pairs s nodes) fun fields => ∀ field ∈ fields, field.2.Writable := by
  induction nodes with
  | nil => exact .ok (by simp)
  | cons n rest ih =>
    have hrest := ih (fun m hm => hsound m (List.mem_cons_of_mem n hm))
      fun m hm => h m (List.mem_cons_of_mem n hm)
    have hn := hsound n (by simp)
    have hvalue := h n (by simp)
    obtain ⟨kind, named, start, stop, field, children⟩ := n
    rw [pairs]
    split
    · exact hrest
    · rename_i hkind
      have hpair : kind = "pair" := by
        by_contra hne
        simp [hne] at hkind
      obtain ⟨key, value, hkey, hvalueNode⟩ := hn.sound.exists_pair hpair
      refine (yields_keyText hn hkey).bind fun name _ => ?_
      rw [pairValue_eq s hvalueNode]
      refine (hvalue value hvalueNode).bind fun item hitem => ?_
      refine hrest.bind fun fields hfields => ?_
      exact .ok (List.forall_mem_cons.mpr ⟨hitem, hfields⟩)

/-- Each node of a sound tree stands for a literal that JSON has a place for, also one
that is not built of literals: that is kept as its text. -/
theorem yields_scalar (h : n.SoundTree s) : Yields (scalar s n) (·.Writable) := by
  induction n using withinInduction with
  | node n ih =>
    have hchild : ∀ c ∈ n.children, ∀ m : Node, m.Within c → Yields (scalar s m) (·.Writable) :=
      fun c hc m hm => ih c hc m hm (h.within (hm.trans (.of_mem hc)))
    have hsound : ∀ c ∈ n.children, c.SoundTree s := fun c hc => h.of_mem hc
    have hnumeral := h.sound.numeral
    have hchars := yields_charsOf h
    obtain ⟨kind, named, start, stop, field, children⟩ := n
    rw [scalar]
    refine hchars.bind fun cs htext => ?_
    split
    · exact .ok (.ok trivial)
    split
    · rename_i hkind
      exact .ok (Literal.writable_ofNumeral (hnumeral hkind _ htext))
    split
    · exact .ok (.ok trivial)
    split
    · exact .ok (.ok trivial)
    split
    · exact .ok (.ok trivial)
    split
    · refine (yields_elements fun c hc => hchild c hc c (.self c)).bind fun items hitems => ?_
      exact .ok (Literal.writable_list_iff.mpr hitems)
    split
    · refine (yields_pairs hsound fun c hc value hvalue =>
        hchild c hc value (.of_child? hvalue)).bind fun fields hfields => ?_
      exact .ok (Literal.writable_table_iff.mpr fun field hfield =>
        hfields field (Fields.mem_of_mem_ofList hfield))
    · exact .ok (.ok trivial)

/-! ## Initializers -/

theorem yields_textInitializer (h : n.SoundTree s) (kind : String) :
    Yields (textInitializer s n kind) fun init => init.value.HasText init.kind :=
  (yields_textOf h).bind fun text _ => .ok (Literal.hasText_str text _)

/-- A container is read as entries with JSON values, which have a canonical text. An empty one
is kept as its own text. -/
theorem yields_containerInitializer (h : n.SoundTree s) :
    Yields (containerInitializer s n) fun init => init.value.HasText init.kind := by
  rw [containerInitializer]
  split
  · exact yields_textInitializer h "expression"
  split
  · refine (yields_elements fun c hc => yields_scalar (h.of_mem hc)).bind fun items hitems => ?_
    refine .ok (Literal.hasText_entries ?_)
    intro entry hentry
    obtain ⟨item, hitem, rfl⟩ := List.mem_map.mp hentry
    exact hitems item hitem
  · refine (yields_pairs (fun c hc => h.of_mem hc) fun c hc value hvalue =>
      yields_scalar ((h.of_mem hc).of_child? hvalue)).bind fun fields hfields => ?_
    refine .ok (Literal.hasText_entries ?_)
    intro entry hentry
    obtain ⟨field, hfield, rfl⟩ := List.mem_map.mp hentry
    exact hfields field hfield

/-- What stands for a default value in a sound tree is read, and has a canonical text by the
kind of its literal; so has the null that stands for none. -/
theorem yields_initializer {value? : Option Node} (h : ∀ n ∈ value?, n.SoundTree s) :
    Yields (initializer s value?) fun init => init.value.HasText init.kind := by
  cases value? with
  | none => exact .ok (Literal.hasText_null none)
  | some n =>
    have hn := h n rfl
    rw [initializer]
    split
    · exact (yields_innerTextOf hn).bind fun text _ => .ok (Literal.hasText_str text _)
    split
    · exact yields_textInitializer hn _
    split
    · refine (yields_isLiteral hn).bind fun literal _ => ?_
      cases literal with
      | true => exact yields_containerInitializer hn
      | false => exact yields_textInitializer hn "expression"
    · exact yields_textInitializer hn "expression"

end Node

end CodeOutline
