import CodeOutline.Json.Basic

/-!
# Parts of JSON values

What holds of a value and of each value inside of it, and what is left of an object whose null
fields are dropped: each other field is found under its name, without the null fields in it.
-/

namespace CodeOutline.Json

/-! ## Values inside of a value -/

/-- The values inside of a value, itself among them. -/
inductive Part : Json → Json → Prop where
  | self (value : Json) : Part value value
  | item {part value : Json} {items : List Json} (hitem : value ∈ items) (h : Part part value) :
      Part part (.arr items)
  | field {part value : Json} {name : String} {fields : List (String × Json)}
      (hfield : (name, value) ∈ fields) (h : Part part value) : Part part (.obj fields)

/-- What a value has together with each value inside of it. -/
def Everywhere (P : Json → Prop) (value : Json) : Prop :=
  ∀ part : Json, part.Part value → P part

/-- Whether a value is no container. -/
def isScalar : Json → Bool
  | .arr _ | .obj _ => false
  | _ => true

namespace Everywhere

variable {P Q : Json → Prop}

theorem self {value : Json} (h : Everywhere P value) : P value :=
  h value (.self value)

theorem imp {value : Json} (h : Everywhere P value) (hPQ : ∀ part, P part → Q part) :
    Everywhere Q value := by
  intro part hpart
  exact hPQ part (h part hpart)

theorem of_mem_items {value : Json} {items : List Json} (h : Everywhere P (.arr items))
    (hvalue : value ∈ items) : Everywhere P value := by
  intro part hpart
  exact h part (.item hvalue hpart)

theorem of_mem_fields {name : String} {value : Json} {fields : List (String × Json)}
    (h : Everywhere P (.obj fields)) (hvalue : (name, value) ∈ fields) : Everywhere P value := by
  intro part hpart
  exact h part (.field hvalue hpart)

theorem scalar {value : Json} (hscalar : value.isScalar = true) (h : P value) :
    Everywhere P value := by
  intro part hpart
  cases hpart with
  | self => exact h
  | item => cases hscalar
  | field => cases hscalar

theorem arr {items : List Json} (h : P (.arr items))
    (hitems : ∀ value ∈ items, Everywhere P value) : Everywhere P (.arr items) := by
  intro part hpart
  cases hpart with
  | self => exact h
  | item hvalue hpart => exact hitems _ hvalue part hpart

theorem obj {fields : List (String × Json)} (h : P (.obj fields))
    (hfields : ∀ field ∈ fields, Everywhere P field.2) : Everywhere P (.obj fields) := by
  intro part hpart
  cases hpart with
  | self => exact h
  | field hvalue hpart => exact hfields _ hvalue part hpart

end Everywhere

/-! ## Values that text keeps -/

/-- A value that is no double, and whose fields have distinct names if it is an object. -/
def IsKept : Json → Prop
  | .real _ => False
  | .obj fields => (fields.map Prod.fst).Nodup
  | _ => True

/-- A value that text keeps and that is not null. -/
def IsSet (value : Json) : Prop :=
  value ≠ .null ∧ value.IsKept

theorem isSet_obj {fields : List (String × Json)} (h : (fields.map Prod.fst).Nodup) :
    IsSet (.obj fields) :=
  ⟨nofun, h⟩

theorem everywhere_isSet_bool (value : Bool) : Everywhere IsSet (.bool value) :=
  .scalar rfl ⟨nofun, trivial⟩

theorem everywhere_isSet_int (value : Int) : Everywhere IsSet (.int value) :=
  .scalar rfl ⟨nofun, trivial⟩

theorem everywhere_isSet_str (value : String) : Everywhere IsSet (.str value) :=
  .scalar rfl ⟨nofun, trivial⟩

/-! ## Without null fields -/

theorem withoutNullsAll_eq_map (items : List Json) :
    withoutNullsAll items = items.map withoutNulls := by
  induction items with
  | nil => rfl
  | cons value rest ih => rw [withoutNullsAll, ih, List.map_cons]

theorem isNull_eq_true {value : Json} : value.isNull = true ↔ value = .null := by
  cases value <;> simp [isNull]

/-- A field that is left comes from a field of that name that was not null, with the null fields
inside of it dropped too. -/
theorem mem_withoutNullFields {field : String × Json} {fields : List (String × Json)}
    (h : field ∈ withoutNullFields fields) :
    ∃ value, (field.1, value) ∈ fields ∧ value ≠ .null ∧ field.2 = value.withoutNulls := by
  induction fields with
  | nil => simp [withoutNullFields] at h
  | cons first rest ih =>
    obtain ⟨name, value⟩ := first
    rw [withoutNullFields] at h
    by_cases hnull : value.isNull = true
    · rw [if_pos hnull] at h
      obtain ⟨value', hmem, hvalue'⟩ := ih h
      exact ⟨value', List.mem_cons_of_mem _ hmem, hvalue'⟩
    · rw [if_neg hnull] at h
      rcases List.mem_cons.mp h with rfl | h
      · exact ⟨value, by simp, fun hvalue => hnull (isNull_eq_true.mpr hvalue), rfl⟩
      · obtain ⟨value', hmem, hvalue'⟩ := ih h
        exact ⟨value', List.mem_cons_of_mem _ hmem, hvalue'⟩

/-- Dropping null fields keeps the names of the others, and their order. -/
theorem names_withoutNullFields (fields : List (String × Json)) :
    ((withoutNullFields fields).map Prod.fst).Sublist (fields.map Prod.fst) := by
  induction fields with
  | nil => exact .slnil
  | cons first rest ih =>
    obtain ⟨name, value⟩ := first
    rw [withoutNullFields]
    by_cases hnull : value.isNull = true
    · rw [if_pos hnull]
      exact ih.cons name
    · rw [if_neg hnull]
      exact ih.cons_cons name

/-- A value in which no null is left when its null fields are dropped, if it is not null itself
and so dropped with them. -/
def Cleared (value : Json) : Prop :=
  value = .null ∨ Everywhere IsSet value.withoutNulls

theorem cleared_bool (value : Bool) : Cleared (.bool value) :=
  .inr (everywhere_isSet_bool value)

theorem cleared_int (value : Int) : Cleared (.int value) :=
  .inr (everywhere_isSet_int value)

theorem cleared_str (value : String) : Cleared (.str value) :=
  .inr (everywhere_isSet_str value)

theorem everywhere_isSet_map {α : Type} {as : List α} {record : α → Json}
    (h : ∀ a ∈ as, Everywhere IsSet (record a)) : Everywhere IsSet (.arr (as.map record)) := by
  apply Everywhere.arr
  · exact ⟨nofun, trivial⟩
  · intro value hvalue
    obtain ⟨a, ha, rfl⟩ := List.mem_map.mp hvalue
    exact h a ha

theorem everywhere_isSet_withoutNulls_map {α : Type} {as : List α} {record : α → Json}
    (h : ∀ a ∈ as, Everywhere IsSet (record a).withoutNulls) :
    Everywhere IsSet (Json.arr (as.map record)).withoutNulls := by
  rw [withoutNulls, withoutNullsAll_eq_map, List.map_map]
  exact everywhere_isSet_map h

/-- A record has no null inside once its null fields are dropped: a field that is null goes, and
in any other no null is left. -/
theorem everywhere_isSet_withoutNulls {fields : List (String × Json)}
    (hnames : (fields.map Prod.fst).Nodup) (h : ∀ field ∈ fields, Cleared field.2) :
    Everywhere IsSet (Json.obj fields).withoutNulls := by
  rw [withoutNulls]
  apply Everywhere.obj
  · exact isSet_obj (hnames.sublist (names_withoutNullFields fields))
  · intro field hfield
    obtain ⟨value, hmem, hnull, hvalue⟩ := mem_withoutNullFields hfield
    rw [hvalue]
    exact (h _ hmem).resolve_left hnull

theorem field?_cons (name first : String) (value : Json) (rest : List (String × Json)) :
    (Json.obj ((first, value) :: rest)).field? name =
      if first = name then some value else (Json.obj rest).field? name := by
  by_cases h : first = name
  · simp [field?, h]
  · simp [field?, h]

theorem field?_eq_none {name : String} {fields : List (String × Json)}
    (h : name ∉ fields.map Prod.fst) : (Json.obj fields).field? name = none := by
  induction fields with
  | nil => rfl
  | cons first rest ih =>
    rw [List.map_cons, List.mem_cons, not_or] at h
    rw [field?_cons, if_neg (Ne.symm h.1)]
    exact ih h.2

/-- A value has a part under a name, without the null fields of the part, unless the part is
null. -/
def Shows (value : Json) (name : String) (part : Json) : Prop :=
  value.field? name = if part.isNull then none else some part.withoutNulls

/-- With its null fields dropped, an object still shows each of its fields. Names are distinct,
so that under the name of a dropped field there is nothing else. -/
theorem shows_withoutNullFields {fields : List (String × Json)}
    (hnames : (fields.map Prod.fst).Nodup) :
    ∀ field ∈ fields, (Json.obj (withoutNullFields fields)).Shows field.1 field.2 := by
  induction fields with
  | nil => simp
  | cons first rest ih =>
    obtain ⟨name, value⟩ := first
    rw [List.map_cons, List.nodup_cons] at hnames
    have hrest := ih hnames.2
    intro field hfield
    rw [withoutNullFields, Shows]
    rcases List.mem_cons.mp hfield with rfl | hfield
    · by_cases hnull : value.isNull = true
      · rw [if_pos hnull, if_pos hnull]
        exact field?_eq_none fun hmem => hnames.1 ((names_withoutNullFields rest).subset hmem)
      · rw [if_neg hnull, if_neg hnull, field?_cons, if_pos rfl]
    · by_cases hnull : value.isNull = true
      · rw [if_pos hnull]
        exact hrest field hfield
      · have hmem : field.1 ∈ rest.map Prod.fst := List.mem_map_of_mem hfield
        have hne : name ≠ field.1 := by
          intro heq
          exact hnames.1 (heq ▸ hmem)
        rw [if_neg hnull, field?_cons, if_neg hne]
        exact hrest field hfield

/-- Without its null fields, an object shows each of its fields. -/
theorem shows_withoutNulls (value : Json) {fields : List (String × Json)}
    (hvalue : value = .obj fields) (hnames : (fields.map Prod.fst).Nodup) :
    ∀ field ∈ fields, value.withoutNulls.Shows field.1 field.2 := by
  rw [hvalue, withoutNulls]
  exact shows_withoutNullFields hnames

end CodeOutline.Json
