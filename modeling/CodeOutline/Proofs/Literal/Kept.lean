import CodeOutline.Proofs.Literal.RoundTrip
import CodeOutline.Proofs.Literal.Writable

/-!
# What literals are kept as

A string, a truth value and null are kept as such, a numeral as the number that it reads as, and
an array or object as the list or object of what its parts are kept as, at every depth. A numeral
that reads as no number is kept as its text, and an object without members that is kept by itself
as an empty list. Nothing stands in the way of writing what is kept but a whole number with too
many digits.
-/

namespace CodeOutline

/-! ## Values that can be written -/

namespace Json

mutual

/-- Whether the whole numbers of a value have few enough digits to be written. -/
def isWritable : Json → Bool
  | .int n => Numeral.isWritable n
  | .arr items => allWritable items
  | .obj fields => allFieldsWritable fields
  | _ => true

/-- Whether the whole numbers of several values have few enough digits to be written. -/
def allWritable : List Json → Bool
  | [] => true
  | value :: rest => value.isWritable && allWritable rest

/-- Whether the whole numbers of several fields have few enough digits to be written. -/
def allFieldsWritable : List (String × Json) → Bool
  | [] => true
  | (_, value) :: rest => value.isWritable && allFieldsWritable rest

end

end Json

/-- What is written, unless a whole number has too many digits. -/
def writtenIf {α : Type} (writable : Bool) (value : α) : Except Fault α :=
  if writable then .ok value else .error .integerTooLong

section Written

variable {α β γ : Type}

theorem writtenIf_map (writable : Bool) (value : α) (f : α → β) :
    (writtenIf writable value).map f = writtenIf writable (f value) := by
  cases writable <;> rfl

theorem writtenIf_bind_pure (writable : Bool) (value : α) (f : α → β) :
    (do let value ← writtenIf writable value; pure (f value)) = writtenIf writable (f value) := by
  cases writable <;> rfl

theorem writtenIf_bind_bind (first rest : Bool) (value : α) (values : β) (f : α → β → γ) :
    (do
      let value ← writtenIf first value
      let values ← writtenIf rest values
      pure (f value values)) = writtenIf (first && rest) (f value values) := by
  cases first <;> cases rest <;> rfl

end Written

/-! ## Literals by their kinds -/

namespace Node

/-- Whether a node is an element of the array, or a member of the object, that it stands in. -/
def isElement (n : Node) : Bool := n.named && !n.isComment

/-- The elements of an array, or the members of an object. -/
def elementNodes (n : Node) : List Node := n.children.filter isElement

/-- Whether a node is a numeral, which may have an operator before it. -/
def isNumeral (n : Node) : Bool := n.kind = "number" || n.kind = "unary_expression"

/-- A member of an object gives a name to a value. -/
structure NamesValue (s : SourceText) (pair : Node) (member : String × Node) : Prop where
  kind : pair.kind = "pair"
  name : keyText s pair.children = .ok member.1
  value : pair.child? "value" = some member.2

mutual

/-- A literal is kept as a JSON value. Of the members of an object that have one name, the last
is kept. -/
inductive KeptAs (s : SourceText) : Node → Json → Prop where
  | null {n : Node} (hkind : n.kind = "null") : KeptAs s n .null
  | bool (value : Bool) {n : Node} (hkind : n.kind = if value then "true" else "false") :
      KeptAs s n (.bool value)
  | str {n : Node} {text : String} (hkind : n.kind = "string")
      (htext : s.innerTextOf n = .ok text) : KeptAs s n (.str text)
  | int {n : Node} {text : String} {k : Int} (hkind : n.isNumeral = true)
      (htext : s.textOf n = .ok text) (h : Literal.ofNumeral text = .int k) : KeptAs s n (.int k)
  | real {n : Node} {text : String} {x : Double} (hkind : n.isNumeral = true)
      (htext : s.textOf n = .ok text) (h : Literal.ofNumeral text = .real x) :
      KeptAs s n (.real x)
  | unread {n : Node} {text : String} (hkind : n.isNumeral = true)
      (htext : s.textOf n = .ok text) (h : Literal.ofNumeral text = .str text) :
      KeptAs s n (.str text)
  | arr {n : Node} {items : List Json} (hkind : n.kind = "array")
      (h : ItemsKeptAs s n.elementNodes items) : KeptAs s n (.arr items)
  | obj {n : Node} {members : List (String × Node)} {fields : List (String × Json)}
      (hkind : n.kind = "object")
      (hmembers : List.Forall₂ (NamesValue s) n.elementNodes members)
      (h : FieldsKeptAs s (Fields.ofList members) fields) : KeptAs s n (.obj fields)

/-- The elements of an array are kept as the items of a list. -/
inductive ItemsKeptAs (s : SourceText) : List Node → List Json → Prop where
  | nil : ItemsKeptAs s [] []
  | cons {n : Node} {nodes : List Node} {value : Json} {items : List Json}
      (h : KeptAs s n value) (hrest : ItemsKeptAs s nodes items) :
      ItemsKeptAs s (n :: nodes) (value :: items)

/-- Values under names are kept as the fields of an object. -/
inductive FieldsKeptAs (s : SourceText) : List (String × Node) → List (String × Json) → Prop where
  | nil : FieldsKeptAs s [] []
  | cons {name : String} {n : Node} {members : List (String × Node)} {value : Json}
      {fields : List (String × Json)} (h : KeptAs s n value)
      (hrest : FieldsKeptAs s members fields) :
      FieldsKeptAs s ((name, n) :: members) ((name, value) :: fields)

end

variable {s : SourceText} {n : Node}

theorem itemsKeptAs_iff {nodes : List Node} {items : List Json} :
    ItemsKeptAs s nodes items ↔ List.Forall₂ (KeptAs s) nodes items := by
  constructor
  · intro h
    induction nodes generalizing items with
    | nil =>
      cases h
      exact .nil
    | cons n rest ih =>
      cases h with
      | cons h hrest => exact .cons h (ih hrest)
  · intro h
    induction h with
    | nil => exact .nil
    | cons h _ ih => exact .cons h ih

/-! ## What is read of a literal is kept -/

theorem kind_of_isLiteral (h : n.isLiteral = .ok true) :
    n.kind ∈ plainKinds ∨ n.kind = "unary_expression" ∨ n.kind = "array" ∨ n.kind = "object" := by
  obtain ⟨kind, named, start, stop, field, children⟩ := n
  rw [isLiteral] at h
  split at h
  · rename_i hplain
    exact .inl (List.contains_iff_mem.mp hplain)
  split at h
  · rename_i hkind
    exact .inr (.inl hkind)
  split at h
  · rename_i hkind
    exact .inr (.inr (.inl hkind))
  split at h
  · rename_i hkind
    exact .inr (.inr (.inr hkind))
  · cases h

/-- A node stands for a literal that is written as what the node is kept as. -/
def StandsFor (s : SourceText) (n : Node) (literal : Literal) : Prop :=
  ∃ value, n.KeptAs s value ∧ literal.toJson = writtenIf value.isWritable value

/-- If a node is built of literals alone, it stands for what is read of it. -/
def IsKept (s : SourceText) (n : Node) : Prop :=
  ∀ literal, n.isLiteral = .ok true → scalar s n = .ok literal → n.StandsFor s literal

theorem not_isElement (n : Node) : (!n.isElement) = (!n.named || n.isComment) := by
  rw [isElement, Bool.not_and, Bool.not_not]

/-! ### Arrays -/

/-- Each element of an array is kept, in the order of the elements. -/
theorem exists_itemsKeptAs {nodes : List Node} {literals : List Literal}
    (hkept : ∀ c ∈ nodes, c.IsKept s) (hliteral : allLiteral nodes = .ok true)
    (h : elements s nodes = .ok literals) :
    ∃ items, ItemsKeptAs s (nodes.filter isElement) items ∧
      Literal.toJsonItems literals = writtenIf (Json.allWritable items) items := by
  induction nodes generalizing literals with
  | nil =>
    cases h
    exact ⟨[], .nil, rfl⟩
  | cons n rest ih =>
    rw [allLiteral, ← not_isElement] at hliteral
    rw [elements, ← not_isElement] at h
    cases helement : n.isElement with
    | false =>
      rw [if_pos (by simp [helement])] at hliteral h
      rw [List.filter_cons_of_neg (by simp [helement])]
      exact ih (fun c hc => hkept c (List.mem_cons_of_mem n hc)) hliteral h
    | true =>
      rw [if_neg (by simp [helement])] at hliteral h
      rw [List.filter_cons_of_pos helement]
      obtain ⟨literal, hn, hliteral⟩ := Fault.bind_eq_ok.mp hliteral
      cases literal with
      | false => cases hliteral
      | true =>
        obtain ⟨first, hfirst, h⟩ := Fault.bind_eq_ok.mp h
        obtain ⟨others, hothers, h⟩ := Fault.bind_eq_ok.mp h
        cases h
        obtain ⟨value, hvalue, hwritten⟩ := hkept n (by simp) first hn hfirst
        obtain ⟨items, hitems, hwritten'⟩ :=
          ih (fun c hc => hkept c (List.mem_cons_of_mem n hc)) hliteral hothers
        refine ⟨value :: items, .cons hvalue hitems, ?_⟩
        rw [Literal.toJsonItems, hwritten, hwritten']
        exact writtenIf_bind_bind _ _ value items List.cons

/-! ### Objects -/

theorem exists_value_of_valueIsLiteral {parts : List Node} {literal : Bool}
    (h : valueIsLiteral parts = .ok literal) : ∃ value, withField? "value" parts = some value := by
  cases hvalue : withField? "value" parts with
  | some value => exact ⟨value, rfl⟩
  | none =>
    exfalso
    induction parts with
    | nil => cases h
    | cons part rest ih =>
      rw [withField?, List.find?_cons] at hvalue
      rw [valueIsLiteral] at h
      split at hvalue
      · cases hvalue
      · rename_i hfield
        rw [if_neg (of_decide_eq_false hfield)] at h
        exact ih h hvalue

/-- A node among plain pairs is passed over, or it is a pair whose value is a literal. -/
theorem allPlainPairs_cons_eq_ok {pair : Node} {rest : List Node}
    (h : allPlainPairs (pair :: rest) = .ok true) :
    allPlainPairs rest = .ok true ∧
      (pair.isElement = true → pair.kind = "pair" ∧
        ∃ value, pair.child? "value" = some value ∧ value.isLiteral = .ok true) := by
  obtain ⟨kind, named, start, stop, field, children⟩ := pair
  rw [allPlainPairs] at h
  split at h
  · rename_i hskip
    refine ⟨h, fun helement => ?_⟩
    simp_all [isElement, isComment]
  split at h
  · cases h
  rename_i hkind
  split at h
  · cases h
  split at h
  · cases h
  obtain ⟨literal, hvalue, h⟩ := Fault.bind_eq_ok.mp h
  cases literal with
  | false => cases h
  | true =>
    obtain ⟨value, hfield⟩ := exists_value_of_valueIsLiteral hvalue
    rw [valueIsLiteral_eq hfield] at hvalue
    exact ⟨h, fun _ => ⟨not_not.mp hkind, value, hfield, hvalue⟩⟩

/-- Each member of an object is kept under its name, in the order of the members. -/
theorem exists_members {nodes : List Node} {fields : List (String × Literal)}
    (hkept : ∀ c ∈ nodes, ∀ value, c.child? "value" = some value → value.IsKept s)
    (hliteral : allPlainPairs nodes = .ok true) (h : pairs s nodes = .ok fields) :
    ∃ members, List.Forall₂ (NamesValue s) (nodes.filter isElement) members ∧
      List.Forall₂ (fun member field => member.1 = field.1 ∧ member.2.StandsFor s field.2)
        members fields := by
  induction nodes generalizing fields with
  | nil =>
    cases h
    exact ⟨[], .nil, .nil⟩
  | cons pair rest ih =>
    obtain ⟨hothersLiteral, hpair⟩ := allPlainPairs_cons_eq_ok hliteral
    have hvalues := hkept pair (by simp)
    cases helement : pair.isElement with
    | false =>
      rw [List.filter_cons_of_neg (by simp [helement])]
      refine ih (fun c hc => hkept c (List.mem_cons_of_mem pair hc)) hothersLiteral ?_
      obtain ⟨kind, named, start, stop, field, children⟩ := pair
      rw [pairs, if_pos ?_] at h
      · exact h
      · simp only [isElement, isComment, Bool.and_eq_false_iff] at helement
        rcases helement with hnamed | hcomment
        · simp [hnamed]
        · simp_all
    | true =>
      obtain ⟨hkind, value, hvalue, hvalueLiteral⟩ := hpair helement
      rw [List.filter_cons_of_pos helement]
      obtain ⟨kind, named, start, stop, field, children⟩ := pair
      obtain rfl : kind = "pair" := hkind
      obtain ⟨hnamed, -⟩ : named = true ∧ _ := by simpa [isElement] using helement
      rw [pairs, if_neg (by simp [hnamed]), pairValue_eq s hvalue] at h
      obtain ⟨name, hname, h⟩ := Fault.bind_eq_ok.mp h
      obtain ⟨literal, hscalar, h⟩ := Fault.bind_eq_ok.mp h
      obtain ⟨others, hothers, h⟩ := Fault.bind_eq_ok.mp h
      cases h
      obtain ⟨members, hmembers, hfields⟩ :=
        ih (fun c hc => hkept c (List.mem_cons_of_mem _ hc)) hothersLiteral hothers
      exact ⟨(name, value) :: members, .cons ⟨rfl, hname, hvalue⟩ hmembers,
        .cons ⟨rfl, hvalues value hvalue literal hvalueLiteral hscalar⟩ hfields⟩

theorem exists_fieldsKeptAs {members : List (String × Node)} {fields : List (String × Literal)}
    (h : List.Forall₂ (fun member field => member.1 = field.1 ∧ member.2.StandsFor s field.2)
      members fields) :
    ∃ values, FieldsKeptAs s members values ∧
      Literal.toJsonFields fields = writtenIf (Json.allFieldsWritable values) values := by
  induction h with
  | nil => exact ⟨[], .nil, rfl⟩
  | @cons member field members fields hmember _ ih =>
    obtain ⟨name, n⟩ := member
    obtain ⟨name', literal⟩ := field
    obtain ⟨hname, value, hvalue, hwritten⟩ := hmember
    obtain ⟨values, hvalues, hwritten'⟩ := ih
    obtain rfl : name = name' := hname
    refine ⟨(name, value) :: values, .cons hvalue hvalues, ?_⟩
    rw [Literal.toJsonFields, hwritten, hwritten']
    exact writtenIf_bind_bind _ _ value values fun value values => (name, value) :: values

/-! ### All literals -/

theorem exists_charsOf {literal : Literal} (h : scalar s n = .ok literal) :
    ∃ cs, s.charsOf n = .ok cs := by
  obtain ⟨kind, named, start, stop, field, children⟩ := n
  rw [scalar] at h
  obtain ⟨cs, hcs, -⟩ := Fault.bind_eq_ok.mp h
  exact ⟨cs, hcs⟩

theorem isKept_string (hkind : n.kind = "string") : n.IsKept s := by
  intro literal _ h
  obtain ⟨cs, hcs⟩ := exists_charsOf h
  obtain ⟨kind, named, start, stop, field, children⟩ := n
  obtain rfl : kind = "string" := hkind
  rw [scalar, hcs] at h
  cases h
  refine ⟨_, .str rfl ?_, rfl⟩
  rw [SourceText.innerTextOf, hcs]
  rfl

theorem isKept_numeral (hkind : n.kind = "number" ∨ n.kind = "unary_expression") :
    n.IsKept s := by
  intro literal _ h
  obtain ⟨cs, hcs⟩ := exists_charsOf h
  have hnumeral : n.isNumeral = true := by simpa [isNumeral] using hkind
  have htext : s.textOf n = .ok (String.ofList cs) := by
    rw [SourceText.textOf, hcs]
    rfl
  rw [scalar_numeral hkind hcs] at h
  obtain rfl := Except.ok.inj h
  rcases Literal.ofNumeral_cases (String.ofList cs) with ⟨k, hread⟩ | ⟨x, hread⟩ | hread
  · exact ⟨_, .int hnumeral htext hread, by rw [hread]; rfl⟩
  · exact ⟨_, .real hnumeral htext hread, by rw [hread]; rfl⟩
  · exact ⟨_, .unread hnumeral htext hread, by rw [hread]; rfl⟩

/-- Every literal that is read is kept. -/
theorem isKept (n : Node) : n.IsKept s := by
  induction n using withinInduction with
  | node n ih =>
    intro literal hliteral h
    obtain ⟨cs, hcs⟩ := exists_charsOf h
    rcases kind_of_isLiteral hliteral with hkind | hkind | hkind | hkind
    · simp only [plainKinds, List.mem_cons, List.not_mem_nil, or_false] at hkind
      rcases hkind with hkind | hkind | hkind | hkind | hkind
      · exact isKept_string hkind literal hliteral h
      · exact isKept_numeral (.inl hkind) literal hliteral h
      · have hbool : n.kind = if true then "true" else "false" := hkind
        rw [scalar_bool hbool hcs] at h
        cases h
        exact ⟨_, .bool true hbool, rfl⟩
      · have hbool : n.kind = if false then "true" else "false" := hkind
        rw [scalar_bool hbool hcs] at h
        cases h
        exact ⟨_, .bool false hbool, rfl⟩
      · rw [scalar_null hkind hcs] at h
        cases h
        exact ⟨_, .null hkind, rfl⟩
    · exact isKept_numeral (.inr hkind) literal hliteral h
    · rw [isLiteral_array hkind, namedChildren, allLiteral_filter_named] at hliteral
      rw [scalar_array hkind hcs, namedChildren, elements_filter_named] at h
      obtain ⟨literals, hliterals, rfl⟩ := Fault.map_eq_ok.mp h
      obtain ⟨items, hitems, hwritten⟩ :=
        exists_itemsKeptAs (fun c hc => ih c hc c (.self c)) hliteral hliterals
      refine ⟨.arr items, .arr hkind hitems, ?_⟩
      rw [Literal.toJson, hwritten]
      exact writtenIf_bind_pure _ items Json.arr
    · rw [isLiteral_object hkind, namedChildren, allPlainPairs_filter_named] at hliteral
      rw [scalar_object hkind hcs, namedChildren, pairs_filter_named] at h
      obtain ⟨fields, hfields, rfl⟩ := Fault.map_eq_ok.mp h
      obtain ⟨members, hmembers, hkept⟩ := exists_members
        (fun c hc value hvalue => ih c hc value (.of_child? hvalue)) hliteral hfields
      obtain ⟨values, hvalues, hwritten⟩ := exists_fieldsKeptAs (Fields.forall₂_ofList hkept)
      refine ⟨.obj values, .obj hkind hmembers hvalues, ?_⟩
      rw [Literal.toJson, hwritten]
      exact writtenIf_bind_pure _ values Json.obj

/-! ## Containers by themselves -/

variable {init : Initializer}

theorem textInitializer_ne_ok {kind : String} (hkind : kind ≠ "array")
    (hcontainer : init.kind = some "array") : textInitializer s n kind ≠ .ok init := by
  intro h
  obtain ⟨text, -, h⟩ := Fault.bind_eq_ok.mp h
  obtain rfl := Except.ok.inj h
  exact hkind (Option.some.inj hcontainer)

/-- Of the nodes that an initializer may be, only a container of literals is kept as one. -/
theorem of_initializer (h : initializer s (some n) = .ok init)
    (hcontainer : init.kind = some "array") :
    (n.kind = "array" ∨ n.kind = "object") ∧ n.isLiteral = .ok true ∧
      containerInitializer s n = .ok init := by
  rw [initializer] at h
  split at h
  · obtain ⟨text, -, h⟩ := Fault.bind_eq_ok.mp h
    obtain rfl := Except.ok.inj h
    simp at hcontainer
  split at h
  · rename_i kind hscalar
    refine absurd h (textInitializer_ne_ok ?_ hcontainer)
    rintro rfl
    unfold scalarKind? at hscalar
    split at hscalar <;> simp at hscalar
  split at h
  · rename_i hkind
    obtain ⟨literal, hliteral, h⟩ := Fault.bind_eq_ok.mp h
    cases literal with
    | true => exact ⟨hkind, hliteral, h⟩
    | false => exact absurd h (textInitializer_ne_ok (by decide) hcontainer)
  · exact absurd h (textInitializer_ne_ok (by decide) hcontainer)

/-- An array of literals is written as the list of what its elements are kept as. -/
theorem normalize_array (h : initializer s (some n) = .ok init)
    (hcontainer : init.kind = some "array") (hkind : n.kind = "array") :
    ∃ items, ItemsKeptAs s n.elementNodes items ∧
      init.value.normalize init.kind =
        writtenIf (Json.allWritable items) (Json.arr items).compact := by
  obtain ⟨-, hliteral, h⟩ := of_initializer h hcontainer
  rw [isLiteral_array hkind, namedChildren, allLiteral_filter_named] at hliteral
  rw [containerInitializer, if_pos hkind] at h
  split at h
  · exact absurd h (textInitializer_ne_ok (by decide) hcontainer)
  · obtain ⟨literals, hliterals, h⟩ := Fault.bind_eq_ok.mp h
    cases h
    obtain ⟨items, hitems, hwritten⟩ :=
      exists_itemsKeptAs (fun c _ => c.isKept) hliteral hliterals
    refine ⟨items, hitems, ?_⟩
    rw [Literal.normalize_entries, Literal.ofEntries_positional, Literal.toJson, hwritten,
      writtenIf_bind_pure, writtenIf_map]

/-- What is read of the members of an object of literals. -/
theorem exists_members_of_initializer (h : initializer s (some n) = .ok init)
    (hcontainer : init.kind = some "array") (hkind : n.kind = "object") :
    ∃ (members : List (String × Node)) (fields : List (String × Literal)),
      List.Forall₂ (NamesValue s) n.elementNodes members ∧
      List.Forall₂ (fun member field => member.1 = field.1 ∧ member.2.StandsFor s field.2)
        members fields ∧
      init = ⟨.entries (fields.map fun field => (some field.1, field.2)), some "array"⟩ := by
  obtain ⟨-, hliteral, h⟩ := of_initializer h hcontainer
  rw [isLiteral_object hkind, namedChildren, allPlainPairs_filter_named] at hliteral
  rw [containerInitializer, if_neg (by simp [hkind] : n.kind ≠ "array")] at h
  split at h
  · exact absurd h (textInitializer_ne_ok (by decide) hcontainer)
  · obtain ⟨fields, hfields, h⟩ := Fault.bind_eq_ok.mp h
    cases h
    obtain ⟨members, hmembers, hkept⟩ :=
      exists_members (fun _ _ value _ => value.isKept) hliteral hfields
    exact ⟨members, fields, hmembers, hkept, rfl⟩

/-- An object of literals that has members is written as the object that it is kept as. -/
theorem normalize_object (h : initializer s (some n) = .ok init)
    (hcontainer : init.kind = some "array") (hkind : n.kind = "object")
    (hne : n.elementNodes ≠ []) :
    ∃ fields, n.KeptAs s (.obj fields) ∧
      init.value.normalize init.kind =
        writtenIf (Json.allFieldsWritable fields) (Json.obj fields).compact := by
  obtain ⟨members, literals, hmembers, hkept, rfl⟩ :=
    exists_members_of_initializer h hcontainer hkind
  obtain ⟨fields, hfields, hwritten⟩ := exists_fieldsKeptAs (Fields.forall₂_ofList hkept)
  refine ⟨fields, .obj hkind hmembers hfields, ?_⟩
  have hfilled : literals ≠ [] := by
    rintro rfl
    cases hkept
    exact hne (List.forall₂_nil_right_iff.mp hmembers)
  rw [Literal.normalize_entries, Literal.ofEntries_keyed hfilled, Literal.toJson, hwritten,
    writtenIf_bind_pure, writtenIf_map]

/-- An object without members is written as an empty list. -/
theorem normalize_memberless (h : initializer s (some n) = .ok init)
    (hcontainer : init.kind = some "array") (hkind : n.kind = "object")
    (hnil : n.elementNodes = []) : init.value.normalize init.kind = .ok "[]" := by
  obtain ⟨members, literals, hmembers, hkept, rfl⟩ :=
    exists_members_of_initializer h hcontainer hkind
  rw [hnil] at hmembers
  cases hmembers
  cases hkept
  rfl

end Node

end CodeOutline
