import CodeOutline.Literal.Basic
import CodeOutline.Proofs.Literal.Parts

/-!
# Default values without text

A default value has no canonical text in three cases: it is to be a container and is none, the
container that it makes has a part that JSON has no place for, or it is shown and a whole number
in it has too many digits. In all other cases it has one, which is empty only for no value and for
an empty string that is not put between quotes.
-/

namespace CodeOutline

/-! ## Texts that are not empty -/

namespace Double

theorem magnitudeText_ne_empty (m : Nat) (q : Int) : magnitudeText m q ≠ "" := by
  unfold magnitudeText positional scientific
  split
  · simp
  dsimp only
  split
  · split
    · simp
    split
    · simp
    · simp
  · simp

theorem text_ne_empty {names : SpecialNames} (hnan : names.nan ≠ "") (hinf : names.infinity ≠ "")
    (x : Double) : x.text names ≠ "" := by
  cases x with
  | nan => exact hnan
  | infinite negative => simp [text, hinf]
  | finite negative m q => simp [text, magnitudeText_ne_empty]

end Double

namespace Literal

theorem integerText_ne_empty {n : Int} {text : String} (h : integerText n = .ok text) :
    text ≠ "" := by
  unfold integerText at h
  split at h
  · cases h
    intro hempty
    have hdigits := Numeral.toList_toString_int n
    rw [hempty] at hdigits
    by_cases hn : n < 0
    · simp [Numeral.withSign, hn] at hdigits
    · simp [Numeral.withSign, hn, Nat.toDigits_ne_nil] at hdigits
  · cases h

/-- No literal is shown as nothing: strings have quotes, containers have brackets, and names and
numbers have characters. -/
theorem shown_ne_empty {value : Literal} {text : String} (h : value.shown = .ok text) :
    text ≠ "" := by
  cases value with
  | null =>
    cases h
    decide
  | bool value =>
    cases h
    cases value <;> decide
  | int n => exact integerText_ne_empty h
  | real x =>
    cases h
    exact x.text_ne_empty (by decide) (by decide)
  | str value =>
    cases h
    simp [Text.quotedString, Text.quoted]
  | list items =>
    obtain ⟨texts, -, h⟩ := Fault.bind_eq_ok.mp h
    cases h
    simp
  | table fields =>
    obtain ⟨texts, -, h⟩ := Fault.bind_eq_ok.mp h
    cases h
    simp
  | entries items =>
    obtain ⟨texts, -, h⟩ := Fault.bind_eq_ok.mp h
    cases h
    simp

theorem compact_ne_empty {items : List (Option String × Literal)} {json : Json}
    (h : (ofEntries items).toJson = .ok json) : json.compact ≠ "" := by
  unfold ofEntries at h
  split at h
  · cases h
    simp [Json.compact, Json.compactChars]
  split at h
  · obtain ⟨values, -, h⟩ := Fault.bind_eq_ok.mp h
    cases h
    simp [Json.compact, Json.compactChars]
  · obtain ⟨values, -, h⟩ := Fault.bind_eq_ok.mp h
    cases h
    simp [Json.compact, Json.compactChars]

/-! ## When there is no text -/

/-- Whether a literal is a truth value or a number. -/
def isPlain : Literal → Bool
  | .bool _ | .int _ | .real _ => true
  | _ => false

/-- A default value of a declared type has no canonical text. -/
inductive LacksText : Literal → Option String → Prop where
  /-- No container is made of a truth value or a number. -/
  | plain {value : Literal} (h : value.isPlain = true) : LacksText value (some "array")
  /-- JSON has no place for a part of the container. -/
  | container {value part : Literal} {items : List (Option String × Literal)}
      (hitems : value.entries? = some items) (hpart : part.Part (ofEntries items))
      (h : part.IsEntries ∨ part.IsLong) : LacksText value (some "array")
  /-- A whole number that is to be shown has too many digits. -/
  | shown {value part : Literal} {type : Option String} (htype : type ≠ some "array")
      (hpart : part.Part value) (h : part.IsLong) : LacksText value type

/-- Nothing is written: there is no value, or it is an empty string without quotes. -/
def IsBlank (value : Literal) (type : Option String) : Prop :=
  value = .null ∨ value = .str "" ∧ type ≠ some "string"

/-- Declared as an array, a value lacks a text if it is a truth value or a number, or if its
entries make a container without a JSON value. -/
theorem lacksText_array_iff {value : Literal} :
    value.LacksText (some "array") ↔
      value.isPlain = true ∨
        ∃ items, value.entries? = some items ∧ ¬ (ofEntries items).Writable := by
  constructor
  · intro h
    cases h with
    | plain h => exact .inl h
    | container hitems hpart h =>
      refine .inr ⟨_, hitems, ?_⟩
      intro hwritable
      have := (writable_iff _).mp hwritable _ hpart
      exact h.elim this.1 this.2
    | shown htype _ _ => exact absurd rfl htype
  · intro h
    rcases h with h | ⟨items, hitems, hnot⟩
    · exact .plain h
    · by_contra hlacks
      refine hnot ((writable_iff _).mpr ?_)
      intro part hpart
      constructor
      · intro h
        exact hlacks (.container hitems hpart (.inl h))
      · intro h
        exact hlacks (.container hitems hpart (.inr h))

theorem lacksText_iff_of_ne {value : Literal} {type : Option String}
    (htype : type ≠ some "array") : value.LacksText type ↔ ¬ value.Showable := by
  rw [showable_iff]
  constructor
  · intro h hall
    cases h with
    | plain _ => exact htype rfl
    | container _ _ _ => exact htype rfl
    | shown _ hpart h => exact hall _ hpart h
  · intro h
    by_contra hlacks
    refine h ?_
    intro part hpart hlong
    exact hlacks (.shown htype hpart hlong)

theorem not_lacksText {value : Literal} (h : value = .null ∨ ∃ text, value = .str text)
    (type : Option String) : ¬ value.LacksText type := by
  by_cases htype : type = some "array"
  · rw [htype, lacksText_array_iff]
    rcases h with rfl | ⟨text, rfl⟩
    · simp [isPlain, entries?]
    · simp [isPlain, entries?]
  · rw [lacksText_iff_of_ne htype, not_not]
    rcases h with rfl | ⟨text, rfl⟩
    · exact .ok trivial
    · exact .ok trivial

/-! ## How a default value ends -/

/-- A text as it is kept under a declared type. -/
def wrapped (type : Option String) (text : String) : String :=
  if type = some "string" then "\"" ++ text ++ "\"" else text

/-- The ways to make a canonical text: of nothing, of a string, of what is no container, of a
container, and of what is shown. -/
theorem normalize_cases (value : Literal) (type : Option String) :
    (value = .null ∧ value.normalize type = .ok "") ∨
    (∃ text, value = .str text ∧ value.normalize type = .ok (wrapped type text)) ∨
    (type = some "array" ∧ value.isPlain = true ∧
      value.normalize type = .error (.notIterable value.typeName)) ∨
    (type = some "array" ∧ ∃ items, value.entries? = some items ∧
      value.normalize type = (ofEntries items).toJson.map Json.compact) ∨
    (type ≠ some "array" ∧ value ≠ .null ∧ (∀ text, value ≠ .str text) ∧
      value.normalize type = value.shown.map (wrapped type)) := by
  by_cases htype : type = some "array"
  · subst htype
    cases value <;> simp [normalize, isPlain, entries?, containerText, wrapped]
  · have hshown : ∀ shown : Except Fault String,
        (if type = some "string" then shown.map fun text => "\"" ++ text ++ "\"" else shown) =
          shown.map (wrapped type) := by
      intro shown
      by_cases hstring : type = some "string"
      · cases shown <;> simp [hstring, wrapped, Except.map]
      · cases shown <;> simp [hstring, wrapped, Except.map]
    cases value <;> simp [normalize, display, htype, hshown, wrapped]

theorem wrapped_eq_empty_iff {type : Option String} {text : String} :
    wrapped type text = "" ↔ text = "" ∧ type ≠ some "string" := by
  by_cases hstring : type = some "string"
  · simp [wrapped, hstring]
  · simp [wrapped, hstring]

/-- A default value is written exactly if it does not lack a text. -/
theorem yields_normalize_iff (value : Literal) (type : Option String) :
    Yields (value.normalize type) (fun _ => True) ↔ ¬ value.LacksText type := by
  rcases normalize_cases value type with ⟨hvalue, h⟩ | ⟨text, hvalue, h⟩ | ⟨rfl, hplain, h⟩ |
    ⟨rfl, items, hitems, h⟩ | ⟨htype, -, -, h⟩
  · rw [h]
    exact iff_of_true (.ok trivial) (not_lacksText (.inl hvalue) type)
  · rw [h]
    exact iff_of_true (.ok trivial) (not_lacksText (.inr ⟨text, hvalue⟩) type)
  · rw [h]
    exact iff_of_false (by simp [Yields]) (not_not.mpr (.plain hplain))
  · have hplain : value.isPlain = false := by
      cases value <;> simp_all [entries?, isPlain]
    rw [h, Yields.map_iff, lacksText_array_iff]
    simp [hplain, hitems, Writable]
  · rw [h, Yields.map_iff, lacksText_iff_of_ne htype, not_not, Showable]

/-- A default value is written as nothing exactly if it is blank, as containers and shown
literals have texts that are not empty. -/
theorem normalize_eq_empty_iff {value : Literal} {type : Option String} {text : String}
    (htext : value.normalize type = .ok text) : text = "" ↔ value.IsBlank type := by
  rcases normalize_cases value type with ⟨rfl, h⟩ | ⟨inner, rfl, h⟩ | ⟨rfl, -, h⟩ |
    ⟨rfl, items, hitems, h⟩ | ⟨-, hnull, hstr, h⟩
  · rw [htext] at h
    simp [Except.ok.inj h, IsBlank]
  · rw [htext] at h
    rw [Except.ok.inj h, wrapped_eq_empty_iff]
    simp [IsBlank]
  · rw [htext] at h
    cases h
  · rw [htext, eq_comm, Fault.map_eq_ok] at h
    obtain ⟨json, hjson, rfl⟩ := h
    refine iff_of_false (compact_ne_empty hjson) ?_
    intro hblank
    rcases hblank with rfl | ⟨rfl, -⟩
    · cases hitems
    · cases hitems
  · rw [htext, eq_comm, Fault.map_eq_ok] at h
    obtain ⟨inner, hinner, rfl⟩ := h
    rw [wrapped_eq_empty_iff]
    refine iff_of_false (fun hempty => shown_ne_empty hinner hempty.1) ?_
    intro hblank
    rcases hblank with hblank | ⟨hblank, -⟩
    · exact hnull hblank
    · exact hstr "" hblank

/-- A default value fails exactly if it lacks a text. In every other case it has one, which is
empty exactly if there is nothing to write. -/
theorem normalize_fails_iff (value : Literal) (type : Option String) :
    ((∃ fault, value.normalize type = .error fault) ↔ value.LacksText type) ∧
    ((∃ text, value.normalize type = .ok text ∧ (text = "" ↔ value.IsBlank type)) ↔
      ¬ value.LacksText type) := by
  constructor
  · rw [Fault.exists_error_iff, yields_normalize_iff, not_not]
  · rw [← yields_normalize_iff]
    constructor
    · intro h
      obtain ⟨text, htext, -⟩ := h
      exact ⟨text, htext, trivial⟩
    · intro h
      obtain ⟨text, htext, -⟩ := h
      exact ⟨text, htext, normalize_eq_empty_iff htext⟩

end Literal

end CodeOutline
