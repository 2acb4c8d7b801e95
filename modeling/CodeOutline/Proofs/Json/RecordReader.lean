import CodeOutline.Proofs.Json.Parts
import CodeOutline.Token
import Mathlib.Data.List.Forall2

/-!
# Reading records

Records are read field by field, each field by its name. Such a reader gives the same for
values that are alike, that is for objects with the same fields in any order, and undoes what
dropping the null fields does to the fields that may be left out.
-/

namespace CodeOutline.Json

variable {α : Type}

/-! ## Readers -/

/-- The text that a value is. -/
def text? : Json → Option String
  | .str value => some value
  | _ => none

/-- The truth value that a value is. -/
def flag? : Json → Option Bool
  | .bool value => some value
  | _ => none

/-- The whole number that a value is. -/
def whole? : Json → Option Int
  | .int value => some value
  | _ => none

/-- The items of an array, if each of them can be read. -/
def items? (read : Json → Option α) : Json → Option (List α)
  | .arr items => items.mapM read
  | _ => none

/-- The field of a name, which has to be there. -/
def required (name : String) (read : Json → Option α) (value : Json) : Option α :=
  (value.field? name).bind read

/-- The field of a name, which may be left out. -/
def possible (name : String) (read : Json → Option α) (value : Json) : Option (Option α) :=
  match value.field? name with
  | some part => (read part).map some
  | none => some none

/-! ## The order of fields -/

/-- Values that are the same up to the order of the fields of objects. -/
inductive Alike : Json → Json → Prop where
  | same (value : Json) : Alike value value
  | arr {items items' : List Json} (h : List.Forall₂ Alike items items') :
      Alike (.arr items) (.arr items')
  | obj {fields fields' : List (String × Json)}
      (h : ∀ name, Option.Rel Alike ((Json.obj fields).field? name)
        ((Json.obj fields').field? name)) :
      Alike (.obj fields) (.obj fields')

/-- A reader to which the order of fields means nothing. -/
def Orderless (read : Json → Option α) : Prop :=
  ∀ ⦃value value' : Json⦄, Alike value value' → read value = read value'

theorem orderless_text? : Orderless text? := by
  intro value value' h
  cases h <;> rfl

theorem orderless_flag? : Orderless flag? := by
  intro value value' h
  cases h <;> rfl

theorem orderless_whole? : Orderless whole? := by
  intro value value' h
  cases h <;> rfl

/-- Values that are the same up to the order of fields have alike fields under each name. -/
theorem Alike.field? {value value' : Json} (h : Alike value value') (name : String) :
    Option.Rel Alike (value.field? name) (value'.field? name) := by
  cases h with
  | same =>
    cases value.field? name with
    | none => exact .none
    | some part => exact .some (.same part)
  | arr => exact .none
  | obj h => exact h name

namespace Orderless

variable {read : Json → Option α}

theorem items? (h : Orderless read) : Orderless (items? read) := by
  intro value value' halike
  cases halike with
  | same => rfl
  | obj => rfl
  | arr hitems =>
    simp only [Json.items?]
    induction hitems with
    | nil => rfl
    | cons hitem _ ih => rw [List.mapM_cons, List.mapM_cons, h hitem, ih]

/-- A reader of a field that has to be there minds the order of fields no more than the reader
of its value does. -/
theorem required (h : Orderless read) (name : String) : Orderless (required name read) := by
  intro value value' halike
  have hfield := halike.field? name
  simp only [Json.required]
  generalize value.field? name = part, value'.field? name = part' at hfield ⊢
  cases hfield with
  | none => rfl
  | some hpart => exact h hpart

theorem possible (h : Orderless read) (name : String) : Orderless (possible name read) := by
  intro value value' halike
  have hfield := halike.field? name
  simp only [Json.possible]
  generalize value.field? name = part, value'.field? name = part' at hfield ⊢
  cases hfield with
  | none => rfl
  | some hpart => exact congrArg (Option.map some) (h hpart)

end Orderless

/-! ## Records without null fields -/

namespace Shows

variable {value : Json} {name : String} {record : α → Json} {read : Json → Option α}

theorem text {s : String} (h : Shows value name (.str s)) : required name text? value = some s := by
  rw [required, h]
  rfl

theorem textOrNull {s : Option String} (h : Shows value name (ofString? s)) :
    possible name text? value = some s := by
  rw [possible, h]
  cases s <;> rfl

theorem flag {b : Bool} (h : Shows value name (.bool b)) : required name flag? value = some b := by
  rw [required, h]
  rfl

theorem whole {n : Int} (h : Shows value name (.int n)) : required name whole? value = some n := by
  rw [required, h]
  rfl

theorem part {part : Json} {a : α} (h : Shows value name part) (hset : part.isNull = false)
    (hread : read part.withoutNulls = some a) : required name read value = some a := by
  rw [required, h, hset]
  exact hread

/-- A part that may not be set is read as it was. -/
theorem part? {a : Option α} (h : Shows value name (recordOr record a))
    (hset : ∀ a, (record a).isNull = false)
    (hread : ∀ a, read (record a).withoutNulls = some a) : possible name read value = some a := by
  rw [possible, h]
  cases a with
  | none => rfl
  | some a =>
    rw [recordOr, hset]
    exact congrArg (Option.map some) (hread a)

end Shows

theorem cleared_recordOr {record : α → Json}
    (h : ∀ a, Everywhere IsSet (record a).withoutNulls) (a : Option α) :
    Cleared (recordOr record a) := by
  cases a with
  | none => exact .inl rfl
  | some a => exact .inr (h a)

theorem cleared_recordOr_map {record : α → Json}
    (h : ∀ a, Everywhere IsSet (record a).withoutNulls) (as : Option (List α)) :
    Cleared (recordOr (fun as => .arr (as.map record)) as) :=
  cleared_recordOr (fun _ => everywhere_isSet_withoutNulls_map fun a _ => h a) as

theorem cleared_ofString? (s : Option String) : Cleared (ofString? s) := by
  cases s with
  | none => exact .inl rfl
  | some s => exact cleared_str s

/-- The records of a list are read as the list. -/
theorem items?_map {record : α → Json} {read : Json → Option α} {as : List α}
    (hread : ∀ a ∈ as, read (record a).withoutNulls = some a) :
    items? read (Json.arr (as.map record)).withoutNulls = some as := by
  rw [withoutNulls, withoutNullsAll_eq_map, List.map_map, items?]
  induction as with
  | nil => rfl
  | cons a as ih =>
    have hfirst := hread a (by simp)
    have hrest := ih fun b hb => hread b (by simp [hb])
    rw [List.map_cons, List.mapM_cons, hrest]
    simp [hfirst]

end CodeOutline.Json
