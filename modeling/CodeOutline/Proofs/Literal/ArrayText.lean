import CodeOutline.Proofs.Json.Compact
import CodeOutline.Proofs.Literal.Parts

/-!
# The text of an array keeps its container

A container of values other than doubles is kept as packed text, and that text is read as the
container again. So values are kept as the same text exactly if they make the same container.
-/

namespace CodeOutline.Literal

/-! ## Reading back -/

/-- A literal that JSON keeps apart from all others: it is no double, and a table has each of its
names once. -/
def IsExact : Literal → Prop
  | .real _ => False
  | .table fields => (fields.map Prod.fst).Nodup
  | _ => True

theorem everywhere_ofEntries_isExact {items : List (Option String × Literal)}
    (h : ∀ entry ∈ items, entry.2.Everywhere IsExact) : (ofEntries items).Everywhere IsExact := by
  rw [everywhere_iff]
  constructor
  · unfold ofEntries
    split
    · trivial
    split
    · trivial
    · exact Fields.nodup_names_ofList _
  · intro child hchild
    obtain ⟨entry, hentry, rfl⟩ := mem_of_mem_children_ofEntries hchild
    exact h entry hentry

mutual

/-- The JSON value of a literal is kept by text, and it is the value of no other literal. -/
theorem ofJson_of_toJson {json : Json} : ∀ value : Literal, value.Everywhere IsExact →
    value.toJson = .ok json → ofJson json = value ∧ json.isExact = true
  | .null => fun _ h => by
    obtain rfl := Except.ok.inj h
    exact ⟨rfl, rfl⟩
  | .bool value => fun _ h => by
    obtain rfl := Except.ok.inj h
    exact ⟨rfl, rfl⟩
  | .int n => fun _ h => by
    rw [toJson] at h
    split at h
    · rename_i hwritable
      obtain rfl := Except.ok.inj h
      rw [Json.isExact]
      exact ⟨rfl, hwritable⟩
    · cases h
  | .real _ => fun hexact _ => (everywhere_iff.mp hexact).1.elim
  | .str text => fun _ h => by
    obtain rfl := Except.ok.inj h
    exact ⟨rfl, rfl⟩
  | .list items => fun hexact h => by
    rw [toJson] at h
    obtain ⟨values, hvalues, h⟩ := Fault.bind_eq_ok.mp h
    obtain rfl := Except.ok.inj h
    obtain ⟨hitems, hall⟩ := ofJsonItems_of_toJsonItems items (everywhere_iff.mp hexact).2 hvalues
    rw [ofJson, hitems, Json.isExact]
    exact ⟨rfl, hall⟩
  | .table fields => fun hexact h => by
    rw [toJson] at h
    obtain ⟨values, hvalues, h⟩ := Fault.bind_eq_ok.mp h
    obtain rfl := Except.ok.inj h
    obtain ⟨hnodup, hchildren⟩ := everywhere_iff.mp hexact
    obtain ⟨hfields, hall⟩ := ofJsonFields_of_toJsonFields fields
      (List.forall_mem_map.mp hchildren) hvalues
    have hnames : (values.map Prod.fst).Nodup := by
      rw [← map_fst_ofJsonFields, hfields]
      exact hnodup
    rw [ofJson, hfields]
    exact ⟨rfl, Json.isExact_obj.mpr ⟨hnames, hall⟩⟩
  | .entries _ => fun _ h => by
    rw [toJson] at h
    contradiction

theorem ofJsonItems_of_toJsonItems {values : List Json} : ∀ items : List Literal,
    (∀ item ∈ items, item.Everywhere IsExact) → toJsonItems items = .ok values →
      ofJsonItems values = items ∧ Json.allExact values = true
  | [] => fun _ h => by
    obtain rfl := Except.ok.inj h
    exact ⟨rfl, rfl⟩
  | item :: rest => fun hexact h => by
    obtain ⟨hitem, hrest⟩ := List.forall_mem_cons.mp hexact
    rw [toJsonItems] at h
    obtain ⟨value, hvalue, h⟩ := Fault.bind_eq_ok.mp h
    obtain ⟨values, hvalues, h⟩ := Fault.bind_eq_ok.mp h
    obtain rfl := Except.ok.inj h
    obtain ⟨hfirst, hone⟩ := ofJson_of_toJson item hitem hvalue
    obtain ⟨hothers, hall⟩ := ofJsonItems_of_toJsonItems rest hrest hvalues
    rw [ofJsonItems, hfirst, hothers]
    exact ⟨rfl, Json.allExact_cons.mpr ⟨hone, hall⟩⟩

theorem ofJsonFields_of_toJsonFields {values : List (String × Json)} :
    ∀ fields : List (String × Literal), (∀ field ∈ fields, field.2.Everywhere IsExact) →
      toJsonFields fields = .ok values →
        ofJsonFields values = fields ∧ Json.allFieldsExact values = true
  | [] => fun _ h => by
    obtain rfl := Except.ok.inj h
    exact ⟨rfl, rfl⟩
  | (name, item) :: rest => fun hexact h => by
    obtain ⟨hitem, hrest⟩ := List.forall_mem_cons.mp hexact
    rw [toJsonFields] at h
    obtain ⟨value, hvalue, h⟩ := Fault.bind_eq_ok.mp h
    obtain ⟨values, hvalues, h⟩ := Fault.bind_eq_ok.mp h
    obtain rfl := Except.ok.inj h
    obtain ⟨hfirst, hone⟩ := ofJson_of_toJson item hitem hvalue
    obtain ⟨hothers, hall⟩ := ofJsonFields_of_toJsonFields rest hrest hvalues
    rw [ofJsonFields, hfirst, hothers]
    exact ⟨rfl, Json.allFieldsExact_cons.mpr ⟨hone, hall⟩⟩

end

/-! ## The text of a container -/

/-- A text that writes a container: in visible characters, with no blank outside of its strings,
and as a JSON text of that container alone. -/
structure WritesContainer (container : Literal) (text : String) : Prop where
  visible : Json.Visible text.toList
  tight : ∀ c ∈ Json.outside false text.toList, Json.isGap c = false
  decoded : ∃ json, Json.Written json text.toList ∧ Json.read? text = some json ∧
    ofJson json = container

theorem writesContainer_compact {json : Json} (h : json.isExact = true) :
    WritesContainer (ofJson json) json.compact := by
  have hpacked : Json.Packed json.compact.toList := by
    rw [Json.compact, String.toList_ofList]
    exact Json.packed_compactChars json h
  refine ⟨hpacked.visible, hpacked.not_gap, json, ?_, Json.read?_compact h, rfl⟩
  rw [Json.compact, String.toList_ofList]
  exact Json.written_compactChars json h

/-- A text writes one container. -/
theorem WritesContainer.unique {container container' : Literal} {text : String}
    (h : WritesContainer container text) (h' : WritesContainer container' text) :
    container = container' := by
  obtain ⟨json, -, hread, rfl⟩ := h.decoded
  obtain ⟨json', -, hread', rfl⟩ := h'.decoded
  rw [hread] at hread'
  rw [Option.some.inj hread']

theorem normalize_of_entries? {value : Literal} {items : List (Option String × Literal)}
    (h : value.entries? = some items) :
    value.normalize (some "array") = (ofEntries items).toJson.map Json.compact := by
  cases value with
  | list _ => rw [← Option.some.inj h]; rfl
  | table _ => rw [← Option.some.inj h]; rfl
  | entries _ => rw [← Option.some.inj h]; rfl
  | _ => simp [entries?] at h

theorem writesContainer_of_normalize {value : Literal} {items : List (Option String × Literal)}
    {text : String} (hitems : value.entries? = some items) (hexact : value.Everywhere IsExact)
    (htext : value.normalize (some "array") = .ok text) :
    WritesContainer (ofEntries items) text := by
  rw [normalize_of_entries? hitems] at htext
  obtain ⟨json, hjson, rfl⟩ := Fault.map_eq_ok.mp htext
  have hchildren := (everywhere_iff.mp hexact).2
  rw [children_of_entries? hitems, List.forall_mem_map] at hchildren
  obtain ⟨hcontainer, hkept⟩ := ofJson_of_toJson _ (everywhere_ofEntries_isExact hchildren) hjson
  rw [← hcontainer]
  exact writesContainer_compact hkept

/-- The text of an array of anything but doubles writes its container, so two such arrays have
one text exactly if they make one container. -/
theorem normalize_array_decodes {value : Literal} {items : List (Option String × Literal)}
    {text : String} (hitems : value.entries? = some items) (hexact : value.Everywhere IsExact)
    (htext : value.normalize (some "array") = .ok text) :
    WritesContainer (ofEntries items) text ∧
      ∀ (other : Literal) (items' : List (Option String × Literal)) (text' : String),
        other.entries? = some items' → other.Everywhere IsExact →
          other.normalize (some "array") = .ok text' →
            (text = text' ↔ ofEntries items = ofEntries items') := by
  have hwrites := writesContainer_of_normalize hitems hexact htext
  refine ⟨hwrites, ?_⟩
  intro other items' text' hitems' hexact' htext'
  constructor
  · rintro rfl
    exact hwrites.unique (writesContainer_of_normalize hitems' hexact' htext')
  · intro hsame
    rw [normalize_of_entries? hitems, hsame, ← normalize_of_entries? hitems', htext'] at htext
    exact (Except.ok.inj htext).symm

/-- A table whose names and strings need escapes. -/
def accents : Literal := .table [("é", .str "😀 \n"), ("b", .int (-12))]

/-- Entries of which the last takes the place of the first. -/
def accentEntries : List (Option String × Literal) :=
  [(none, .null), (some "k", .bool true), (some "0", accents)]

/-- The text of a list that starts with the table. -/
def accentText : String := "[\x7b\"\\u00e9\":\"\\ud83d\\ude00 \\n\",\"b\":-12\x7d,true]"

/-- The JSON value of that list. -/
def accentJson : Json :=
  .arr [.obj [("é", .str "😀 \n"), ("b", .int (-12))], .bool true]

theorem everywhere_isExact_accents : accents.Everywhere IsExact := by
  rw [everywhere_iff]
  constructor
  · simp [accents, IsExact]
  · have hstr : (Literal.str "😀 \n").Everywhere IsExact := .leaf trivial rfl
    have hint : (Literal.int (-12)).Everywhere IsExact := .leaf trivial rfl
    simp [accents, children, hstr, hint]

/-- Entries and the list of their slots have one text. -/
theorem normalize_array_decodes_accents :
    (Literal.entries accentEntries).entries? = some accentEntries ∧
    (Literal.entries accentEntries).Everywhere IsExact ∧
    (Literal.entries accentEntries).normalize (some "array") = .ok accentText ∧
    WritesContainer (ofEntries accentEntries) accentText ∧
    (Literal.list [accents, .bool true]).normalize (some "array") = .ok accentText ∧
    ofEntries accentEntries = ofEntries [(none, accents), (none, .bool true)] := by
  have hjson : accentJson.isExact = true := by decide +kernel
  have hcompact : accentJson.compact = accentText := by decide +kernel
  have hnull : Literal.null.Everywhere IsExact := .leaf trivial rfl
  have htrue : (Literal.bool true).Everywhere IsExact := .leaf trivial rfl
  have hentries : (Literal.entries accentEntries).Everywhere IsExact := by
    rw [everywhere_iff]
    exact ⟨trivial, by simp [accentEntries, children, hnull, htrue, everywhere_isExact_accents]⟩
  have hlist : (Literal.list [accents, .bool true]).Everywhere IsExact := by
    rw [everywhere_iff]
    exact ⟨trivial, by simp [children, htrue, everywhere_isExact_accents]⟩
  have htext : (Literal.entries accentEntries).normalize (some "array") = .ok accentText := by
    rw [normalize_entries_of_exact rfl hjson, hcompact]
  have htext' : (Literal.list [accents, .bool true]).normalize (some "array") = .ok accentText := by
    rw [normalize_of_entries? rfl, ← normalize_entries, normalize_entries_of_exact rfl hjson,
      hcompact]
  obtain ⟨hwrites, hsame⟩ := normalize_array_decodes rfl hentries htext
  exact ⟨rfl, hentries, htext, hwrites, htext', (hsame _ _ _ rfl hlist htext').mp rfl⟩

end CodeOutline.Literal
