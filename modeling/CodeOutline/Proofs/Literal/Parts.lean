import CodeOutline.Literal.Basic
import CodeOutline.Proofs.Literal.LastWrite
import CodeOutline.Proofs.Number.Digits
import CodeOutline.Proofs.Traced

/-!
# Parts of literals

The literals inside of a literal, at any depth. A literal has a JSON value exactly if none of its
parts is made of entries or is a whole number with too many digits, and it can be shown exactly if
none is such a number.
-/

namespace CodeOutline.Literal

/-! ## Literals inside of a literal -/

/-- The literals that a container is made of. -/
def children : Literal → List Literal
  | .list items => items
  | .table fields => fields.map Prod.snd
  | .entries items => items.map Prod.snd
  | _ => []

/-- The literals inside of a literal, itself among them. -/
inductive Part : Literal → Literal → Prop where
  | self (value : Literal) : Part value value
  | child {part child value : Literal} (hchild : child ∈ value.children) (h : Part part child) :
      Part part value

/-- What a literal has together with each literal inside of it. -/
def Everywhere (P : Literal → Prop) (value : Literal) : Prop :=
  ∀ part : Literal, part.Part value → P part

/-- What each literal has as soon as its children have it, all literals have. -/
@[elab_as_elim]
theorem childInduction {motive : Literal → Prop}
    (literal : ∀ value : Literal, (∀ child ∈ value.children, motive child) → motive value)
    (value : Literal) : motive value := by
  -- with the property of a list in which each literal has it, under keys or not
  refine @Literal.rec motive (fun items => ∀ child ∈ items, motive child)
    (fun fields => ∀ child ∈ fields.map Prod.snd, motive child)
    (fun items => ∀ child ∈ items.map Prod.snd, motive child)
    (fun field => motive field.2) (fun entry => motive entry.2)
    ?_ ?_ ?_ ?_ ?_ ?_ ?_ ?_ ?_ ?_ ?_ ?_ ?_ ?_ ?_ ?_ value
  · exact literal .null (by simp [children])
  · intro value
    exact literal (.bool value) (by simp [children])
  · intro value
    exact literal (.int value) (by simp [children])
  · intro value
    exact literal (.real value) (by simp [children])
  · intro value
    exact literal (.str value) (by simp [children])
  · intro items ih
    exact literal (.list items) ih
  · intro fields ih
    exact literal (.table fields) ih
  · intro items ih
    exact literal (.entries items) ih
  · simp
  · intro item rest hitem hrest
    simpa using ⟨hitem, hrest⟩
  · simp
  · intro field rest hfield hrest
    rw [List.map_cons, List.forall_mem_cons]
    exact ⟨hfield, hrest⟩
  · simp
  · intro entry rest hentry hrest
    rw [List.map_cons, List.forall_mem_cons]
    exact ⟨hentry, hrest⟩
  · intro name value hvalue
    exact hvalue
  · intro key value hvalue
    exact hvalue

section Everywhere

variable {P Q : Literal → Prop} {value : Literal}

theorem everywhere_iff :
    value.Everywhere P ↔ P value ∧ ∀ child ∈ value.children, child.Everywhere P := by
  constructor
  · intro h
    refine ⟨h value (.self value), ?_⟩
    intro child hchild part hpart
    exact h part (.child hchild hpart)
  · intro h part hpart
    cases hpart with
    | self => exact h.1
    | child hchild hpart => exact h.2 _ hchild part hpart

/-- A literal without children is its only part. -/
theorem Everywhere.leaf (h : P value) (hchildren : value.children = []) : value.Everywhere P := by
  rw [everywhere_iff, hchildren]
  exact ⟨h, by simp⟩

/-- What is decided by a literal itself and by its children is decided by its parts. -/
theorem iff_everywhere
    (h : ∀ value : Literal, Q value ↔ P value ∧ ∀ child ∈ value.children, Q child)
    (value : Literal) : Q value ↔ value.Everywhere P := by
  induction value using childInduction with
  | literal value ih =>
    rw [h, everywhere_iff]
    constructor
    · intro hvalue
      exact ⟨hvalue.1, fun child hchild => (ih child hchild).mp (hvalue.2 child hchild)⟩
    · intro hvalue
      exact ⟨hvalue.1, fun child hchild => (ih child hchild).mpr (hvalue.2 child hchild)⟩

end Everywhere

/-! ## Containers are made of the values of their entries -/

/-- The children of a container are the values of its entries, with keys or without. -/
theorem children_of_entries? {value : Literal} {items : List (Option String × Literal)}
    (h : value.entries? = some items) : value.children = items.map Prod.snd := by
  cases value with
  | list values =>
    obtain rfl := Option.some.inj h
    simp [children, Function.comp_def]
  | table fields =>
    obtain rfl := Option.some.inj h
    simp [children, Function.comp_def]
  | entries values =>
    obtain rfl := Option.some.inj h
    rfl
  | _ => simp [entries?] at h

theorem mem_of_mem_slotsOf {α : Type} {items : List (Option String × α)} {item : α}
    (h : item ∈ slotsOf items) : ∃ entry ∈ items, entry.2 = item := by
  obtain ⟨slot, hslot⟩ := List.mem_iff_getElem?.mp h
  obtain ⟨j, key, hj, -⟩ := (getElem?_slotsOf items slot item).mp hslot
  exact ⟨(key, item), List.mem_of_getElem? hj, rfl⟩

/-- What is in a container was the value of an entry. -/
theorem mem_of_mem_children_ofEntries {items : List (Option String × Literal)} {child : Literal}
    (h : child ∈ (ofEntries items).children) : ∃ entry ∈ items, entry.2 = child := by
  unfold ofEntries at h
  split at h
  · simp [children] at h
  split at h
  · exact mem_of_mem_slotsOf h
  · obtain ⟨field, hfield, rfl⟩ := List.mem_map.mp h
    obtain ⟨entry, hentry, rfl⟩ := List.mem_map.mp (Fields.mem_of_mem_ofList hfield)
    exact ⟨entry, hentry, rfl⟩

/-! ## Literals with a JSON value -/

/-- A literal that is a whole number with more digits than can be written. -/
def IsLong (value : Literal) : Prop :=
  ∃ n : Int, value = .int n ∧ Numeral.maxDigits < Numeral.digitCount n

/-- A literal that is made of entries. -/
def IsEntries (value : Literal) : Prop :=
  ∃ items, value = .entries items

/-- A literal that has a JSON value. -/
def Writable (value : Literal) : Prop :=
  Yields value.toJson fun _ => True

theorem isWritable_iff_not_isLong (n : Int) :
    Numeral.isWritable n = true ↔ ¬ (Literal.int n).IsLong := by
  rw [Numeral.isWritable_iff]
  constructor
  · intro h hlong
    obtain ⟨m, hm, hlt⟩ := hlong
    cases hm
    omega
  · intro h
    by_contra hlt
    exact h ⟨n, rfl, by omega⟩

theorem yields_toJsonItems {items : List Literal} :
    Yields (toJsonItems items) (fun _ => True) ↔ ∀ item ∈ items, item.Writable := by
  induction items with
  | nil => simp [toJsonItems, Yields]
  | cons item rest ih =>
    rw [toJsonItems, List.forall_mem_cons, ← ih]
    simp only [Yields.bind_iff, Yields.pure_iff, Writable, Yields.and_iff (p := Yields _ _)]

theorem yields_toJsonFields {fields : List (String × Literal)} :
    Yields (toJsonFields fields) (fun _ => True) ↔ ∀ field ∈ fields, field.2.Writable := by
  induction fields with
  | nil => simp [toJsonFields, Yields]
  | cons field rest ih =>
    rw [toJsonFields, List.forall_mem_cons, ← ih]
    simp only [Yields.bind_iff, Yields.pure_iff, Writable, Yields.and_iff (p := Yields _ _)]

theorem writable_list_iff {items : List Literal} :
    (Literal.list items).Writable ↔ ∀ item ∈ items, item.Writable := by
  rw [Writable, toJson]
  simp only [Yields.bind_iff, Yields.pure_iff, yields_toJsonItems]

theorem writable_table_iff {fields : List (String × Literal)} :
    (Literal.table fields).Writable ↔ ∀ field ∈ fields, field.2.Writable := by
  rw [Writable, toJson]
  simp only [Yields.bind_iff, Yields.pure_iff, yields_toJsonFields]

/-- A literal has a JSON value exactly if its children do and it is itself neither made of
entries nor a whole number of too many digits. -/
theorem writable_iff_children (value : Literal) :
    value.Writable ↔
      (¬ value.IsEntries ∧ ¬ value.IsLong) ∧ ∀ child ∈ value.children, child.Writable := by
  cases value with
  | int n =>
    have hlong := isWritable_iff_not_isLong n
    by_cases hn : Numeral.isWritable n = true
    · simp [Writable, toJson, hn, Yields, IsEntries, children, hlong.mp hn]
    · simp [Writable, toJson, hn, Yields, IsEntries, children, mt hlong.mpr hn]
  | list items => simp [writable_list_iff, IsEntries, IsLong, children]
  | table fields =>
    simp only [children, List.forall_mem_map]
    simp [writable_table_iff, IsEntries, IsLong]
  | entries items => simp [Writable, toJson, Yields, IsEntries]
  | _ => simp [Writable, toJson, Yields, IsEntries, IsLong, children]

/-- A literal has a JSON value exactly if JSON has a place for each of its parts. -/
theorem writable_iff (value : Literal) :
    value.Writable ↔ value.Everywhere fun part => ¬ part.IsEntries ∧ ¬ part.IsLong :=
  iff_everywhere writable_iff_children value

/-! ## Literals that can be shown -/

/-- A literal that can be shown inside a container. -/
def Showable (value : Literal) : Prop :=
  Yields value.shown fun _ => True

theorem yields_shownItems {items : List Literal} :
    Yields (shownItems items) (fun _ => True) ↔ ∀ item ∈ items, item.Showable := by
  induction items with
  | nil => simp [shownItems, Yields]
  | cons item rest ih =>
    rw [shownItems, List.forall_mem_cons, ← ih]
    simp only [Yields.bind_iff, Yields.pure_iff, Showable, Yields.and_iff (p := Yields _ _)]

theorem yields_shownFields {fields : List (String × Literal)} :
    Yields (shownFields fields) (fun _ => True) ↔ ∀ field ∈ fields, field.2.Showable := by
  induction fields with
  | nil => simp [shownFields, Yields]
  | cons field rest ih =>
    rw [shownFields, List.forall_mem_cons, ← ih]
    simp only [Yields.bind_iff, Yields.pure_iff, Showable, Yields.and_iff (p := Yields _ _)]

theorem yields_shownEntries {items : List (Option String × Literal)} :
    Yields (shownEntries items) (fun _ => True) ↔ ∀ entry ∈ items, entry.2.Showable := by
  induction items with
  | nil => simp [shownEntries, Yields]
  | cons entry rest ih =>
    rw [shownEntries, List.forall_mem_cons, ← ih]
    simp only [Yields.bind_iff, Yields.pure_iff, Showable, Yields.and_iff (p := Yields _ _)]

/-- A literal can be shown exactly if its children can and it is itself no whole number of too
many digits. -/
theorem showable_iff_children (value : Literal) :
    value.Showable ↔ ¬ value.IsLong ∧ ∀ child ∈ value.children, child.Showable := by
  cases value with
  | int n =>
    have hlong := isWritable_iff_not_isLong n
    by_cases hn : Numeral.isWritable n = true
    · simp [Showable, shown, integerText, hn, Yields, children, hlong.mp hn]
    · simp [Showable, shown, integerText, hn, Yields, children, mt hlong.mpr hn]
  | list items =>
    rw [Showable, shown]
    simp only [Yields.bind_iff, Yields.pure_iff, yields_shownItems]
    simp [IsLong, children]
  | table fields =>
    rw [Showable, shown]
    simp only [Yields.bind_iff, Yields.pure_iff, yields_shownFields, children, List.forall_mem_map]
    simp [IsLong]
  | entries items =>
    rw [Showable, shown]
    simp only [Yields.bind_iff, Yields.pure_iff, yields_shownEntries, children, List.forall_mem_map]
    simp [IsLong]
  | _ => simp [Showable, shown, Yields, IsLong, children]

/-- A literal can be shown exactly if each whole number in it can be. -/
theorem showable_iff (value : Literal) :
    value.Showable ↔ value.Everywhere fun part => ¬ part.IsLong :=
  iff_everywhere showable_iff_children value

end CodeOutline.Literal
