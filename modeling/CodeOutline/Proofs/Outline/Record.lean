import CodeOutline.Proofs.Json.RecordReader
import CodeOutline.Proofs.Outline.Sections

/-!
# Records of outlines

An outline whose sections hold tokens of their own kind is read back from its record, whatever
its tokens leave open. The record has no null at any depth, and has a section exactly if the
outline does.
-/

namespace CodeOutline

open Json (required possible text? flag? whole? items?)

/-! ## Reading tokens -/

/-- The position that a record is of. -/
def Position.ofRecord? (value : Json) : Option Position := do
  let line ← required "line" whole? value
  let character ← required "character" whole? value
  pure ⟨line, character⟩

/-- The range that a record is of. -/
def Range.ofRecord? (value : Json) : Option Range := do
  let start ← required "start" Position.ofRecord? value
  let stop ← required "end" Position.ofRecord? value
  pure ⟨start, stop⟩

/-- The variable or argument that a record is of. -/
def VariableToken.ofRecord? (value : Json) : Option VariableToken := do
  let name ← required "name" text? value
  let type ← required "type" text? value
  let default ← required "value" text? value
  let visibility ← required "visibility" text? value
  let position ← possible "position" Range.ofRecord? value
  pure { name := name, type := type, value := default, visibility := visibility,
         position := position }

/-- The method that a record is of. -/
def MethodToken.ofRecord? (value : Json) : Option MethodToken := do
  let name ← required "name" text? value
  let type ← possible "type" text? value
  let visibility ← required "visibility" text? value
  let isStatic ← required "static" flag? value
  let arguments ← required "arguments" (items? VariableToken.ofRecord?) value
  let position ← possible "position" Range.ofRecord? value
  pure { name := name, type := type, visibility := visibility, isStatic := isStatic,
         arguments := arguments, position := position }

/-- The property that a record is of. -/
def PropertyToken.ofRecord? (value : Json) : Option PropertyToken := do
  let name ← required "name" text? value
  let type ← required "type" text? value
  let default ← required "value" text? value
  let visibility ← required "visibility" text? value
  let isStatic ← required "static" flag? value
  let isReadonly ← required "readonly" flag? value
  let position ← possible "position" Range.ofRecord? value
  pure { name := name, type := type, value := default, visibility := visibility,
         isStatic := isStatic, isReadonly := isReadonly, position := position }

/-- The class or interface that a record is of. -/
def EntityToken.ofRecord? (value : Json) : Option EntityToken := do
  let name ← required "name" text? value
  let visibility ← required "visibility" text? value
  let methods ← possible "methods" (items? MethodToken.ofRecord?) value
  let properties ← possible "properties" (items? PropertyToken.ofRecord?) value
  let constants ← possible "constants" (items? PropertyToken.ofRecord?) value
  pure { name := name, visibility := visibility, methods := methods, properties := properties,
         constants := constants }

/-- The import that a record is of. -/
def ImportToken.ofRecord? (value : Json) : Option ImportToken := do
  let name ← required "name" text? value
  let position ← possible "position" Range.ofRecord? value
  let localName ← possible "alias" text? value
  pure { name := name, position := position, localName := localName }

/-! ## Tokens are read back -/

theorem Position.ofRecord?_record (p : Position) :
    Position.ofRecord? p.record.withoutNulls = some p := rfl

theorem Range.ofRecord?_record (r : Range) : Range.ofRecord? r.record.withoutNulls = some r := rfl

/-- A variable is read back from its record. The position of an argument is null there, so that
it is dropped and read as not set. -/
theorem VariableToken.ofRecord?_record (t : VariableToken) :
    VariableToken.ofRecord? t.record.withoutNulls = some t := by
  have hshows := Json.shows_withoutNulls t.record rfl (by simp)
  simp only [List.forall_mem_cons] at hshows
  obtain ⟨hname, htype, hvalue, hvisibility, hposition, -⟩ := hshows
  have hposition := hposition.part? (fun _ => rfl) Range.ofRecord?_record
  simp only [ofRecord?, hname.text, htype.text, hvalue.text, hvisibility.text, hposition]
  rfl

theorem MethodToken.ofRecord?_record (t : MethodToken) :
    MethodToken.ofRecord? t.record.withoutNulls = some t := by
  have hshows := Json.shows_withoutNulls t.record rfl (by simp)
  simp only [List.forall_mem_cons] at hshows
  obtain ⟨hname, htype, hvisibility, hstatic, harguments, hposition, -⟩ := hshows
  have harguments := harguments.part rfl
    (Json.items?_map fun a _ => VariableToken.ofRecord?_record a)
  have hposition := hposition.part? (fun _ => rfl) Range.ofRecord?_record
  simp only [ofRecord?, hname.text, htype.textOrNull, hvisibility.text, hstatic.flag, harguments,
    hposition]
  rfl

theorem PropertyToken.ofRecord?_record (t : PropertyToken) :
    PropertyToken.ofRecord? t.record.withoutNulls = some t := by
  have hshows := Json.shows_withoutNulls t.record rfl (by simp)
  simp only [List.forall_mem_cons] at hshows
  obtain ⟨hname, htype, hvalue, hvisibility, hstatic, hreadonly, hposition, -⟩ := hshows
  have hposition := hposition.part? (fun _ => rfl) Range.ofRecord?_record
  simp only [ofRecord?, hname.text, htype.text, hvalue.text, hvisibility.text, hstatic.flag,
    hreadonly.flag, hposition]
  rfl

/-- A class or interface is read back with its members. A list that is not set is dropped, while
one without members stays as an empty array. -/
theorem EntityToken.ofRecord?_record (t : EntityToken) :
    EntityToken.ofRecord? t.record.withoutNulls = some t := by
  have hshows := Json.shows_withoutNulls t.record rfl (by simp)
  simp only [List.forall_mem_cons] at hshows
  obtain ⟨hname, hvisibility, hmethods, hproperties, hconstants, -⟩ := hshows
  have hmethods := hmethods.part? (fun _ => rfl) fun _ =>
    Json.items?_map fun m _ => MethodToken.ofRecord?_record m
  have hproperties := hproperties.part? (fun _ => rfl) fun _ =>
    Json.items?_map fun p _ => PropertyToken.ofRecord?_record p
  have hconstants := hconstants.part? (fun _ => rfl) fun _ =>
    Json.items?_map fun p _ => PropertyToken.ofRecord?_record p
  simp only [ofRecord?, hname.text, hvisibility.text, hmethods, hproperties, hconstants]
  rfl

theorem ImportToken.ofRecord?_record (t : ImportToken) :
    ImportToken.ofRecord? t.record.withoutNulls = some t := by
  have hshows := Json.shows_withoutNulls t.record rfl (by simp)
  simp only [List.forall_mem_cons] at hshows
  obtain ⟨hname, hposition, halias, -⟩ := hshows
  have hposition := hposition.part? (fun _ => rfl) Range.ofRecord?_record
  simp only [ofRecord?, hname.text, hposition, halias.textOrNull]
  rfl

/-! ## The order of fields means nothing -/

section Orderless

open Json (Orderless orderless_text? orderless_flag? orderless_whole?)

theorem Position.orderless_ofRecord? : Orderless Position.ofRecord? := by
  intro value value' h
  simp only [ofRecord?, orderless_whole?.required _ h]

theorem Range.orderless_ofRecord? : Orderless Range.ofRecord? := by
  intro value value' h
  simp only [ofRecord?, Position.orderless_ofRecord?.required _ h]

theorem VariableToken.orderless_ofRecord? : Orderless VariableToken.ofRecord? := by
  intro value value' h
  simp only [ofRecord?, orderless_text?.required _ h, Range.orderless_ofRecord?.possible _ h]

theorem MethodToken.orderless_ofRecord? : Orderless MethodToken.ofRecord? := by
  intro value value' h
  simp only [ofRecord?, orderless_text?.required _ h, orderless_text?.possible _ h,
    orderless_flag?.required _ h, VariableToken.orderless_ofRecord?.items?.required _ h,
    Range.orderless_ofRecord?.possible _ h]

theorem PropertyToken.orderless_ofRecord? : Orderless PropertyToken.ofRecord? := by
  intro value value' h
  simp only [ofRecord?, orderless_text?.required _ h, orderless_flag?.required _ h,
    Range.orderless_ofRecord?.possible _ h]

theorem EntityToken.orderless_ofRecord? : Orderless EntityToken.ofRecord? := by
  intro value value' h
  simp only [ofRecord?, orderless_text?.required _ h,
    MethodToken.orderless_ofRecord?.items?.possible _ h,
    PropertyToken.orderless_ofRecord?.items?.possible _ h]

theorem ImportToken.orderless_ofRecord? : Orderless ImportToken.ofRecord? := by
  intro value value' h
  simp only [ofRecord?, orderless_text?.required _ h, orderless_text?.possible _ h,
    Range.orderless_ofRecord?.possible _ h]

end Orderless

/-! ## No null is left -/

section Cleared

open Json (Everywhere IsSet everywhere_isSet_withoutNulls everywhere_isSet_withoutNulls_map
  cleared_bool cleared_int cleared_str cleared_ofString? cleared_recordOr cleared_recordOr_map)

theorem Position.everywhere_isSet (p : Position) : Everywhere IsSet p.record.withoutNulls := by
  apply everywhere_isSet_withoutNulls
  · simp
  · simp [cleared_int]

theorem Range.everywhere_isSet (r : Range) : Everywhere IsSet r.record.withoutNulls := by
  apply everywhere_isSet_withoutNulls
  · simp
  · simp only [List.forall_mem_cons]
    exact ⟨.inr r.start.everywhere_isSet, .inr r.stop.everywhere_isSet, by simp⟩

theorem VariableToken.everywhere_isSet (t : VariableToken) :
    Everywhere IsSet t.record.withoutNulls := by
  apply everywhere_isSet_withoutNulls
  · simp
  · simp [cleared_str, cleared_recordOr Range.everywhere_isSet]

theorem MethodToken.everywhere_isSet (t : MethodToken) :
    Everywhere IsSet t.record.withoutNulls := by
  have harguments : Json.Cleared (.arr (t.arguments.map VariableToken.record)) :=
    .inr (everywhere_isSet_withoutNulls_map fun a _ => a.everywhere_isSet)
  apply everywhere_isSet_withoutNulls
  · simp
  · simp [cleared_str, cleared_bool, cleared_recordOr Range.everywhere_isSet, cleared_ofString?,
      harguments]

theorem PropertyToken.everywhere_isSet (t : PropertyToken) :
    Everywhere IsSet t.record.withoutNulls := by
  apply everywhere_isSet_withoutNulls
  · simp
  · simp [cleared_str, cleared_bool, cleared_recordOr Range.everywhere_isSet]

theorem EntityToken.everywhere_isSet (t : EntityToken) :
    Everywhere IsSet t.record.withoutNulls := by
  apply everywhere_isSet_withoutNulls
  · simp
  · simp only [List.forall_mem_cons]
    exact ⟨cleared_str t.name, cleared_str t.visibility,
      cleared_recordOr_map MethodToken.everywhere_isSet t.methods,
      cleared_recordOr_map PropertyToken.everywhere_isSet t.properties,
      cleared_recordOr_map PropertyToken.everywhere_isSet t.constants, by simp⟩

theorem ImportToken.everywhere_isSet (t : ImportToken) :
    Everywhere IsSet t.record.withoutNulls := by
  apply everywhere_isSet_withoutNulls
  · simp
  · simp [cleared_str, cleared_recordOr Range.everywhere_isSet, cleared_ofString?]

end Cleared

/-! ## Sections -/

namespace Section

/-- Whether a token is of the kind that a section holds. -/
def takes : Section → Token → Bool
  | .classes, .ofEntity _ => true
  | .interfaces, .ofEntity _ => true
  | .functions, .ofMethod _ => true
  | .globals, .ofVariable _ => true
  | .imports, .ofImport _ => true
  | _, _ => false

/-- The token of a section that a record is of. -/
def token? : Section → Json → Option Token
  | .classes, value => (EntityToken.ofRecord? value).map .ofEntity
  | .interfaces, value => (EntityToken.ofRecord? value).map .ofEntity
  | .functions, value => (MethodToken.ofRecord? value).map .ofMethod
  | .globals, value => (VariableToken.ofRecord? value).map .ofVariable
  | .imports, value => (ImportToken.ofRecord? value).map .ofImport

theorem token?_record {sec : Section} {t : Token} (h : sec.takes t = true) :
    sec.token? t.record.withoutNulls = some t := by
  cases sec <;> cases t <;>
    simp_all [takes, token?, Token.record, EntityToken.ofRecord?_record,
      MethodToken.ofRecord?_record, VariableToken.ofRecord?_record, ImportToken.ofRecord?_record]

theorem orderless_token? (sec : Section) : Json.Orderless sec.token? := by
  intro value value' h
  cases sec <;> simp only [token?, EntityToken.orderless_ofRecord? h,
    MethodToken.orderless_ofRecord? h, VariableToken.orderless_ofRecord? h,
    ImportToken.orderless_ofRecord? h]

theorem name_injective {sec sec' : Section} (h : sec.name = sec'.name) : sec = sec' := by
  cases sec <;> cases sec' <;> simp_all [name]

theorem nodup_names : ("strict" :: all.map name).Nodup := by
  decide

theorem mem_all (sec : Section) : sec ∈ all := by
  cases sec <;> decide

end Section

theorem Token.everywhere_isSet (t : Token) : Json.Everywhere Json.IsSet t.record.withoutNulls := by
  cases t with
  | ofEntity t => exact t.everywhere_isSet
  | ofMethod t => exact t.everywhere_isSet
  | ofVariable t => exact t.everywhere_isSet
  | ofImport t => exact t.everywhere_isSet

/-! ## Outlines -/

namespace Outline

/-- Each section holds tokens of its own kind. -/
def Sorted (o : Outline) : Prop :=
  ∀ sec, ∀ t ∈ o.tokensIn sec, sec.takes t = true

/-- The tokens of a section that a record has, if it has the section. -/
def sectionTokens? (sec : Section) (value : Json) : Option (Option (List Token)) :=
  possible sec.name (items? sec.token?) value

/-- The outline that a record is of. -/
def ofRecord? (value : Json) : Option Outline := do
  let strict ← required "strict" flag? value
  let classes ← sectionTokens? .classes value
  let interfaces ← sectionTokens? .interfaces value
  let functions ← sectionTokens? .functions value
  let globals ← sectionTokens? .globals value
  let imports ← sectionTokens? .imports value
  pure { strict := strict, classes := classes, interfaces := interfaces, functions := functions,
         globals := globals, imports := imports }

theorem orderless_ofRecord? : Json.Orderless ofRecord? := by
  intro value value' h
  simp only [ofRecord?, sectionTokens?, Json.orderless_flag?.required _ h,
    (Section.orderless_token? _).items?.possible _ h]

/-- The records of the tokens of a section. -/
def tokenRecords (tokens : List Token) : Json :=
  .arr (tokens.map fun t => t.record.withoutNulls)

theorem tokenRecords_eq (tokens : List Token) :
    tokenRecords tokens = (Json.arr (tokens.map Token.record)).withoutNulls := by
  rw [Json.withoutNulls, Json.withoutNullsAll_eq_map, List.map_map]
  rfl

theorem sectionRecord_eq (o : Outline) (sec : Section) :
    o.sectionRecord sec = (o.members sec).map fun tokens => (sec.name, tokenRecords tokens) := rfl

/-- Among the records of some sections the first with the name of a section is its own, as no
two sections share a name. -/
theorem find?_sectionRecord (o : Outline) (sec : Section) (secs : List Section) :
    (secs.filterMap o.sectionRecord).find? (·.1 = sec.name) =
      if sec ∈ secs then o.sectionRecord sec else none := by
  induction secs with
  | nil => rfl
  | cons first rest ih =>
    by_cases hfirst : first = sec
    · subst hfirst
      cases hmembers : o.members first with
      | none => simp [sectionRecord_eq, hmembers, ih]
      | some tokens => simp [sectionRecord_eq, hmembers]
    · have hname : first.name ≠ sec.name := fun h => hfirst (Section.name_injective h)
      cases hmembers : o.members first with
      | none => simp [sectionRecord_eq, hmembers, ih, Ne.symm hfirst]
      | some tokens => simp [sectionRecord_eq, hmembers, ih, Ne.symm hfirst, hname]

/-- The record has a section exactly as the outline does. -/
theorem field?_record (o : Outline) (sec : Section) :
    o.record.field? sec.name = (o.members sec).map tokenRecords := by
  have hstrict : "strict" ≠ sec.name := by
    cases sec <;> decide
  rw [record, Json.field?_cons, if_neg hstrict, Json.field?, find?_sectionRecord,
    if_pos sec.mem_all, sectionRecord_eq, Option.map_map]
  rfl

theorem sectionTokens?_record {o : Outline} (h : o.Sorted) (sec : Section) :
    sectionTokens? sec o.record = some (o.members sec) := by
  rw [sectionTokens?, possible, field?_record]
  cases hmembers : o.members sec with
  | none => rfl
  | some tokens =>
    have hread : items? sec.token? (tokenRecords tokens) = some tokens := by
      rw [tokenRecords_eq]
      apply Json.items?_map
      intro t ht
      exact Section.token?_record (h sec t (by rw [tokensIn, hmembers]; exact ht))
    exact congrArg (Option.map some) hread

/-- A sorted outline is read back from its record, section by section. -/
theorem ofRecord?_record {o : Outline} (h : o.Sorted) : ofRecord? o.record = some o := by
  have hstrict : required "strict" flag? o.record = some o.strict := rfl
  simp only [ofRecord?, hstrict, sectionTokens?_record h]
  rfl

theorem names_sectionRecord (o : Outline) (secs : List Section) :
    ((secs.filterMap o.sectionRecord).map Prod.fst).Sublist (secs.map Section.name) := by
  induction secs with
  | nil => exact .slnil
  | cons sec rest ih =>
    cases hmembers : o.members sec with
    | none =>
      rw [List.filterMap_cons_none (by rw [sectionRecord_eq, hmembers]; rfl)]
      exact ih.cons _
    | some tokens =>
      rw [List.filterMap_cons_some (by rw [sectionRecord_eq, hmembers]; rfl)]
      exact ih.cons_cons _

/-- In the record of an outline no null is left: sections that are absent have no field, and no
token has a null inside. -/
theorem everywhere_isSet_record (o : Outline) : Json.Everywhere Json.IsSet o.record := by
  apply Json.Everywhere.obj
  · apply Json.isSet_obj
    exact Section.nodup_names.sublist ((names_sectionRecord o Section.all).cons_cons "strict")
  · intro field hfield
    rcases List.mem_cons.mp hfield with rfl | hfield
    · exact Json.everywhere_isSet_bool o.strict
    · obtain ⟨sec, -, hsec⟩ := List.mem_filterMap.mp hfield
      obtain ⟨tokens, -, rfl⟩ := Option.map_eq_some_iff.mp hsec
      exact Json.everywhere_isSet_map fun t _ => t.everywhere_isSet

/-- Nothing is lost in the record of an outline: it is read as the outline, in any order of its
fields, so records of different outlines are never alike. No part of it is null, and it has a
section exactly if the outline does. -/
theorem record_lossless (o : Outline) (h : o.Sorted) :
    ofRecord? o.record = some o ∧
      (∀ o' : Outline, o'.Sorted → o.record.Alike o'.record → o = o') ∧
      (∀ part : Json, part.Part o.record → part ≠ .null) ∧
      ∀ sec : Section, (o.record.field? sec.name).isSome ↔ o.members sec ≠ none := by
  have hread := ofRecord?_record h
  refine ⟨hread, ?_, ?_, ?_⟩
  · intro o' h' halike
    rw [orderless_ofRecord? halike, ofRecord?_record h'] at hread
    exact (Option.some.inj hread).symm
  · intro part hpart
    exact (everywhere_isSet_record o part hpart).1
  · intro sec
    rw [field?_record, Option.isSome_map, Option.isSome_iff_ne_none]

/-- An outline with parts that are set, not set and empty at each depth. -/
def partlySet : Outline where
  classes := some
    [.ofEntity
      { name := "C"
        methods := some
          [{ name := "constructor", type := none, arguments := [{ name := "a" }]
             position := some ⟨⟨0, 4⟩, ⟨0, 5⟩⟩ },
           { name := "m", type := some "" }]
        properties := none
        constants := some [] }]
  functions := some []
  globals := some [.ofVariable { name := "", value := "[null]" }]
  imports := some [.ofImport { name := "n", position := none, localName := some "" }]

theorem record_lossless_partlySet :
    partlySet.Sorted ∧ ofRecord? partlySet.record = some partlySet ∧
      (∀ o' : Outline, o'.Sorted → partlySet.record.Alike o'.record → partlySet = o') ∧
      (∀ part : Json, part.Part partlySet.record → part ≠ .null) ∧
      ∀ sec : Section,
        (partlySet.record.field? sec.name).isSome ↔ partlySet.members sec ≠ none := by
  have hsorted : partlySet.Sorted := by
    intro sec
    cases sec <;> decide
  exact ⟨hsorted, record_lossless partlySet hsorted⟩

end Outline

end CodeOutline
