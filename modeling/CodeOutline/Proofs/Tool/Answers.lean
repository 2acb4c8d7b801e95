import CodeOutline.Proofs.Json.Indented
import CodeOutline.Proofs.Outline.Record
import CodeOutline.Proofs.Tool.Loading

/-!
# Answers to calls

A call with arguments of the types that its tool declares is answered with ASCII text that
writes, as JSON, what the tool gives, or else an error record that says what is wrong.
-/

namespace CodeOutline.Tool

open Json (Everywhere IsKept IsSet)

/-! ## Arguments -/

/-- The type that a schema declares for an argument. -/
def declaredType? (schema : Json) (argument : String) : Option String := do
  let arguments ← schema.field? "properties"
  let declared ← arguments.field? argument
  let type ← declared.field? "type"
  type.text?

/-- Whether a value is of a type that schemas declare. -/
def isOfType (type : String) : Json → Bool
  | .str _ => type = "string"
  | .bool _ => type = "boolean"
  | _ => false

/-- An object whose values are of the types that the schema of a tool declares for them. Any of
them may be missing, and what the schema does not declare may be anything. -/
structure Fits (name : String) (arguments : Json) : Prop where
  isObject : ∃ fields, arguments = .obj fields
  types : ∀ d ∈ descriptions, d.name = name → ∀ argument type value,
    declaredType? d.inputSchema argument = some type → arguments.field? argument = some value →
      isOfType type value = true

/-- The argument of a name, null if it is missing. -/
def given (argument : String) (arguments : Json) : Json :=
  (arguments.field? argument).getD .null

/-! ## Answers -/

/-- The request for a stub that arguments make, besides its entity and its name. -/
def stubRequestOf (entity name : Json) (arguments : Json) : StubRequest where
  entity := entity
  name := name
  path := given "path" arguments
  source := given "source" arguments
  withBodies := (given "include_bodies" arguments).isTruthy
  extension := (arguments.field? "extension").getD (.str "ts")

/-- What a call of a tool is answered with: what the tool gives, or an error record. -/
inductive Answers (w : Workspace) (arguments : Json) : String → Json → Prop where
  | outlined {answer : Answer}
      (h : (outline w (given "path" arguments) (given "source" arguments)
        (given "language" arguments)).result = .ok answer) :
      Answers w arguments "get_outline" answer.record
  | outlineFailed {fault : Fault}
      (h : (outline w (given "path" arguments) (given "source" arguments)
        (given "language" arguments)).result = .error fault) :
      Answers w arguments "get_outline" (errorRecord fault.message)
  | noEntity (h : arguments.field? "entity" = none) :
      Answers w arguments "generate_skeleton" (errorRecord "'entity'")
  | noName {entity : Json} (hentity : arguments.field? "entity" = some entity)
      (h : arguments.field? "name" = none) :
      Answers w arguments "generate_skeleton" (errorRecord "'name'")
  | stubbed {entity name record : Json} (hentity : arguments.field? "entity" = some entity)
      (hname : arguments.field? "name" = some name)
      (h : (stub w (stubRequestOf entity name arguments)).result = .ok record) :
      Answers w arguments "generate_skeleton" record
  | stubFailed {entity name : Json} {fault : Fault}
      (hentity : arguments.field? "entity" = some entity)
      (hname : arguments.field? "name" = some name)
      (h : (stub w (stubRequestOf entity name arguments)).result = .error fault) :
      Answers w arguments "generate_skeleton" (errorRecord fault.message)
  | listed : Answers w arguments "list_languages" languages
  | unknown {name : String} (h : name ∉ descriptions.map (·.name)) :
      Answers w arguments name (errorRecord ("Unknown tool: " ++ name))

variable {w : Workspace}

theorem result_callOutline (fields : List (String × Json)) :
    (callOutline w (.obj fields)).result =
      (outline w (given "path" (.obj fields)) (given "source" (.obj fields))
        (given "language" (.obj fields))).result.map Answer.record :=
  Traced.result_bind_pure _ Answer.record

theorem stubRequest_noEntity {fields : List (String × Json)}
    (h : (Json.obj fields).field? "entity" = none) :
    stubRequest (.obj fields) = .error (.missingArgument "entity") := by
  simp only [stubRequest, requiredArgument, h]
  rfl

theorem stubRequest_noName {fields : List (String × Json)} {entity : Json}
    (hentity : (Json.obj fields).field? "entity" = some entity)
    (h : (Json.obj fields).field? "name" = none) :
    stubRequest (.obj fields) = .error (.missingArgument "name") := by
  simp only [stubRequest, requiredArgument, hentity, h]
  rfl

theorem stubRequest_eq {fields : List (String × Json)} {entity name : Json}
    (hentity : (Json.obj fields).field? "entity" = some entity)
    (hname : (Json.obj fields).field? "name" = some name) :
    stubRequest (.obj fields) = .ok (stubRequestOf entity name (.obj fields)) := by
  simp only [stubRequest, requiredArgument, hentity, hname]
  rfl

/-- An argument that is missing is answered with its name in quotes. -/
theorem recordOf_callStub_missing {fields : List (String × Json)} {argument : String}
    (h : stubRequest (.obj fields) = .error (.missingArgument argument)) :
    recordOf (callStub w (.obj fields)).result =
      errorRecord (Fault.missingArgument argument).message := by
  rw [callStub, h]
  rfl

theorem result_callStub {fields : List (String × Json)} {r : StubRequest}
    (h : stubRequest (.obj fields) = .ok r) :
    (callStub w (.obj fields)).result = (stub w r).result := by
  rw [callStub, h]
  rfl

theorem message_missingArgument :
    (Fault.missingArgument "entity").message = "'entity'" ∧
      (Fault.missingArgument "name").message = "'name'" := by
  decide +kernel

theorem answers_callOutline (fields : List (String × Json)) :
    Answers w (.obj fields) "get_outline" (recordOf (callOutline w (.obj fields)).result) := by
  rw [result_callOutline]
  cases h : (outline w (given "path" (.obj fields)) (given "source" (.obj fields))
      (given "language" (.obj fields))).result with
  | ok answer => exact .outlined h
  | error fault => exact .outlineFailed h

/-- A call for a stub is answered: the name of the class is looked for before that of the stub,
and with both the tool is asked. -/
theorem answers_callStub (fields : List (String × Json)) :
    Answers w (.obj fields) "generate_skeleton" (recordOf (callStub w (.obj fields)).result) := by
  cases hentity : (Json.obj fields).field? "entity" with
  | none =>
    rw [recordOf_callStub_missing (stubRequest_noEntity hentity), message_missingArgument.1]
    exact .noEntity hentity
  | some entity =>
    cases hname : (Json.obj fields).field? "name" with
    | none =>
      rw [recordOf_callStub_missing (stubRequest_noName hentity hname),
        message_missingArgument.2]
      exact .noName hentity hname
    | some name =>
      rw [result_callStub (stubRequest_eq hentity hname)]
      cases h : (stub w (stubRequestOf entity name (.obj fields))).result with
      | ok record => exact .stubbed hentity hname h
      | error fault => exact .stubFailed hentity hname h

/-- Every call is answered, by the tool of its name or as one for a tool that there is not. -/
theorem answers_dispatch (name : String) (fields : List (String × Json)) :
    Answers w (.obj fields) name (recordOf (dispatch w name (.obj fields)).result) := by
  unfold dispatch
  by_cases houtline : name = outlineDescription.name
  · rw [if_pos houtline, houtline]
    exact answers_callOutline fields
  rw [if_neg houtline]
  by_cases hstub : name = stubDescription.name
  · rw [if_pos hstub, hstub]
    exact answers_callStub fields
  rw [if_neg hstub]
  by_cases hlanguages : name = languagesDescription.name
  · rw [if_pos hlanguages, hlanguages]
    exact .listed
  rw [if_neg hlanguages]
  exact .unknown (by simp [descriptions, houtline, hstub, hlanguages])

/-- A call has one answer, as the tool and its arguments leave nothing open. -/
theorem answers_iff {name : String} {fields : List (String × Json)} {record : Json} :
    Answers w (.obj fields) name record ↔
      record = recordOf (dispatch w name (.obj fields)).result := by
  constructor
  · have houtline : dispatch w "get_outline" (.obj fields) = callOutline w (.obj fields) := rfl
    have hstub : dispatch w "generate_skeleton" (.obj fields) = callStub w (.obj fields) := rfl
    intro h
    cases h with
    | outlined h =>
      rw [houtline, result_callOutline, h]
      rfl
    | outlineFailed h =>
      rw [houtline, result_callOutline, h]
      rfl
    | noEntity h =>
      rw [hstub, recordOf_callStub_missing (stubRequest_noEntity h),
        message_missingArgument.1]
    | noName hentity h =>
      rw [hstub, recordOf_callStub_missing (stubRequest_noName hentity h),
        message_missingArgument.2]
    | stubbed hentity hname h =>
      rw [hstub, result_callStub (stubRequest_eq hentity hname), h]
      rfl
    | stubFailed hentity hname h =>
      rw [hstub, result_callStub (stubRequest_eq hentity hname), h]
      rfl
    | listed => rfl
    | unknown h =>
      simp only [descriptions, List.map_cons, List.map_nil, List.mem_cons, List.not_mem_nil,
        or_false, not_or] at h
      rw [dispatch, if_neg h.1, if_neg h.2.1, if_neg h.2.2]
      rfl
  · rintro rfl
    exact answers_dispatch name fields

/-! ## What answers are made of -/

theorem everywhere_isSet_errorRecord (message : String) :
    Everywhere IsSet (errorRecord message) := by
  apply Everywhere.obj
  · exact Json.isSet_obj (by simp)
  · simp [Json.everywhere_isSet_str]

theorem everywhere_isSet_languages : Everywhere IsSet languages := by
  have hlanguage : ∀ l : Language, Everywhere IsSet (languageRecord l) := by
    intro l
    apply Everywhere.obj
    · exact Json.isSet_obj (by simp)
    · have hsuffixes : Everywhere IsSet (.arr (l.suffixes.map .str)) :=
        Json.everywhere_isSet_map fun suffix _ => Json.everywhere_isSet_str suffix
      simp [Json.everywhere_isSet_str, hsuffixes]
  have hall : Everywhere IsSet (.arr (Language.all.map languageRecord)) :=
    Json.everywhere_isSet_map fun l _ => hlanguage l
  apply Everywhere.obj
  · exact Json.isSet_obj (by simp)
  · simp [Json.everywhere_isSet_int, hall]

/-- An outline is answered with the path as it was given, if it counts as one. -/
theorem everywhere_isSet_outline {path source language : Json} {answer : Answer}
    (hpath : path.isTruthy = true → Everywhere IsSet path)
    (h : (outline w path source language).result = .ok answer) :
    Everywhere IsSet answer.record := by
  obtain ⟨loaded, -, h⟩ := Traced.result_bind_eq_ok.mp h
  cases loaded with
  | error e =>
    cases h
    exact everywhere_isSet_errorRecord e.message
  | ok draft =>
    obtain ⟨id, -, h⟩ := Traced.result_bind_eq_ok.mp h
    split at h
    · cases h
      exact everywhere_isSet_errorRecord _
    · obtain ⟨text, -, h⟩ := Traced.result_bind_eq_ok.mp h
      obtain ⟨o, -, h⟩ := Traced.result_bind_eq_ok.mp h
      cases h
      have hfile : Everywhere IsSet (if path.isTruthy then path else .str "") := by
        split
        · exact hpath ‹_›
        · exact Json.everywhere_isSet_str ""
      apply Everywhere.obj
      · exact Json.isSet_obj (by simp)
      · simp [hfile, Json.everywhere_isSet_str, o.everywhere_isSet_record]

theorem everywhere_isSet_editRecord (e : TextEdit) : Everywhere IsSet (editRecord e) := by
  have hpair : ∀ p : Position, Everywhere IsSet (positionPair p) := by
    intro p
    apply Everywhere.arr
    · exact ⟨nofun, trivial⟩
    · simp [Json.everywhere_isSet_int]
  apply Everywhere.obj
  · exact Json.isSet_obj (by simp)
  · simp [hpair, Json.everywhere_isSet_str]

theorem everywhere_isSet_stubRecord (fileName name : String) (t : EntityToken)
    (withBodies : Bool) : Everywhere IsSet (stubRecord w fileName name t withBodies) := by
  have hedits : Everywhere IsSet
      (.arr ((Skeleton.generate name t withBodies w.config).map editRecord)) :=
    Json.everywhere_isSet_map fun e _ => everywhere_isSet_editRecord e
  apply Everywhere.obj
  · exact Json.isSet_obj (by simp)
  · simp [hedits, Json.everywhere_isSet_str]

theorem everywhere_isSet_stubOf {r : StubRequest} {o : Outline} {record : Json}
    (h : stubOf w r o = .ok record) : Everywhere IsSet record := by
  unfold stubOf at h
  split at h
  · obtain ⟨entity, -, h⟩ := Fault.bind_eq_ok.mp h
    cases h
    exact everywhere_isSet_errorRecord _
  · split at h
    · cases h
      exact everywhere_isSet_errorRecord _
    · cases h
    · obtain ⟨name, -, h⟩ := Fault.bind_eq_ok.mp h
      cases h
      exact everywhere_isSet_stubRecord _ _ _ _

theorem everywhere_isSet_stub {r : StubRequest} {record : Json}
    (h : (stub w r).result = .ok record) : Everywhere IsSet record := by
  obtain ⟨loaded, -, h⟩ := Traced.result_bind_eq_ok.mp h
  cases loaded with
  | error e =>
    cases h
    exact everywhere_isSet_errorRecord e.message
  | ok draft =>
    obtain ⟨language, -, h⟩ := Traced.result_bind_eq_ok.mp h
    obtain ⟨text, -, h⟩ := Traced.result_bind_eq_ok.mp h
    obtain ⟨o, -, h⟩ := Traced.result_bind_eq_ok.mp h
    exact everywhere_isSet_stubOf h

/-- A declared argument of the type of texts is a text if it is given. -/
theorem Fits.everywhere_isSet_path {arguments : Json} (h : Fits "get_outline" arguments)
    (hpath : (given "path" arguments).isTruthy = true) :
    Everywhere IsSet (given "path" arguments) := by
  rw [given] at hpath ⊢
  cases hfield : arguments.field? "path" with
  | none =>
    rw [hfield] at hpath
    cases hpath
  | some value =>
    have htype := h.types outlineDescription (by simp [descriptions]) rfl "path" "string" value rfl
      hfield
    cases value with
    | str text => exact Json.everywhere_isSet_str text
    | _ => simp [isOfType] at htype

/-- No null and no double stands in an answer to a call that fits, not even in the path that is
given back. -/
theorem Answers.everywhere_isSet {arguments record : Json} {name : String}
    (h : Answers w arguments name record) (hfits : Fits name arguments) :
    Everywhere IsSet record := by
  cases h with
  | outlined h => exact everywhere_isSet_outline hfits.everywhere_isSet_path h
  | outlineFailed => exact everywhere_isSet_errorRecord _
  | noEntity => exact everywhere_isSet_errorRecord _
  | noName => exact everywhere_isSet_errorRecord _
  | stubbed _ _ h => exact everywhere_isSet_stub h
  | stubFailed => exact everywhere_isSet_errorRecord _
  | listed => exact everywhere_isSet_languages
  | unknown => exact everywhere_isSet_errorRecord _

/-- A call with arguments of the declared types has one answer. Its text is ASCII, writes in
JSON what the tool gives, or an error record, and is read as that. -/
theorem call_answers (w : Workspace) (name : String) (arguments : Json)
    (h : Fits name arguments) :
    ∃ record, (∀ other, Answers w arguments name other ↔ other = record) ∧
      Json.Ascii (call w name arguments).toList ∧
      Json.Written record (call w name arguments).toList ∧
      Json.read? (call w name arguments) = some record := by
  obtain ⟨fields, rfl⟩ := h.isObject
  have hset := (answers_dispatch (w := w) name fields).everywhere_isSet h
  refine ⟨_, fun other => answers_iff, ?_⟩
  exact Json.read?_indented (hset.imp fun _ hpart => hpart.2)

/-- A text for an argument, and another argument that no tool declares. -/
def argumentsOf (argument text : String) : Json :=
  .obj [(argument, .str text), ("depth", .real .nan)]

theorem fits_argumentsOf (argument text : String)
    (hdeclared : declaredType? outlineDescription.inputSchema argument = some "string") :
    Fits "get_outline" (argumentsOf argument text) := by
  refine ⟨⟨_, rfl⟩, ?_⟩
  intro d hd hname argument' type value htype hvalue
  have hd : d = outlineDescription := by
    simp only [descriptions, List.mem_cons, List.not_mem_nil, or_false] at hd
    rcases hd with rfl | rfl | rfl
    · rfl
    · exact absurd hname (by decide)
    · exact absurd hname (by decide)
  subst hd
  rw [argumentsOf, Json.field?_cons, Json.field?_cons] at hvalue
  by_cases hargument : argument = argument'
  · subst hargument
    rw [hdeclared] at htype
    rw [if_pos rfl] at hvalue
    cases htype
    cases hvalue
    rfl
  rw [if_neg hargument] at hvalue
  by_cases hdepth : "depth" = argument'
  · subst hdepth
    cases htype
  · rw [if_neg hdepth] at hvalue
    cases hvalue

/-- A workspace whose parser gives the tree of a text with letters beyond ASCII. -/
def inlineWorkspace : Workspace where
  parse _ _ :=
    ⟨"program", true, 0, 16, none,
      [⟨"lexical_declaration", true, 0, 16, none,
        [⟨"let", false, 0, 3, some "kind", []⟩,
         ⟨"variable_declarator", true, 4, 15, none,
          [⟨"identifier", true, 4, 6, some "name", []⟩,
           ⟨"=", false, 7, 8, none, []⟩,
           ⟨"string", true, 9, 15, some "value",
            [⟨"'", false, 9, 10, none, []⟩,
             ⟨"string_fragment", true, 10, 14, none, []⟩,
             ⟨"'", false, 14, 15, none, []⟩]⟩]⟩,
         ⟨";", false, 15, 16, none, []⟩]⟩]⟩

/-- The outline of that text. -/
def inlineOutline : Outline where
  globals := some
    [.ofVariable
      { name := "é", value := "\"😀\"", visibility := "protected"
        position := some ⟨⟨0, 4⟩, ⟨0, 5⟩⟩ }]

/-- The answer for that text. -/
def inlineRecord : Json :=
  .obj [("file", .str ""), ("language", .str "typescript"), ("outline", inlineOutline.record)]

theorem result_outline_inline :
    (outline inlineWorkspace .null (.str "let é = '😀';") .null).result =
      .ok { record := inlineRecord, grammars := ["typescript"] } := by
  have hloaded : Draft.load inlineWorkspace.lookup .null (.str "let é = '😀';") .null =
      .ok (.ok { text := .str "let é = '😀';", language := .str "typescript" }) := rfl
  have hsupported : Language.isSupported "typescript" = true := by decide +kernel
  have hgrammar : Workspace.grammarOf
      { text := "let é = '😀';", language := "typescript" } = "typescript" := by
    decide +kernel
  have houtline : (inlineWorkspace.outline
      { text := "let é = '😀';", language := "typescript" }).result = .ok inlineOutline := rfl
  rw [result_outline_of_load hloaded, if_pos hsupported, houtline, hgrammar]
  rfl

theorem result_outline_bob :
    (outline homeWorkspace (.str "~/../bob/a.ts") .null .null).result =
      .ok { record := errorRecord ("Failed to read ~/../bob/a.ts: [Errno 13] " ++
        "Permission denied: '/home/bob/a.ts'") } := by
  have hpath : "~/../bob/a.ts" ≠ "" := by decide
  obtain ⟨e, hresult, rfl | hunknown⟩ := (outline_of_no_text (w := homeWorkspace) hpath .null).2.2
    "a.ts" _ _ rfl (.unreadable _)
  · rw [hresult]
    rfl
  · exact absurd ⟨by decide, by decide +kernel⟩ (hunknown.not_registers .typescript)

/-- A text is answered with its outline. For a path that cannot be followed, and for a file that
must not be read, the answer is an error record. -/
theorem call_answers_inline :
    Fits "get_outline" (argumentsOf "source" "let é = '😀';") ∧
    Answers inlineWorkspace (argumentsOf "source" "let é = '😀';") "get_outline" inlineRecord ∧
    Json.Ascii (call inlineWorkspace "get_outline"
      (argumentsOf "source" "let é = '😀';")).toList ∧
    Json.read? (call inlineWorkspace "get_outline" (argumentsOf "source" "let é = '😀';")) =
      some inlineRecord ∧
    Json.read? (call homeWorkspace "get_outline" (argumentsOf "path" "~eve/a.ts")) =
      some (errorRecord "Could not determine home directory.") ∧
    Json.read? (call homeWorkspace "get_outline" (argumentsOf "path" "~/../bob/a.ts")) =
      some (errorRecord ("Failed to read ~/../bob/a.ts: [Errno 13] " ++
        "Permission denied: '/home/bob/a.ts'")) := by
  have hfits := fits_argumentsOf "source" "let é = '😀';" rfl
  have hinline : Answers inlineWorkspace (argumentsOf "source" "let é = '😀';") "get_outline"
      inlineRecord :=
    @Answers.outlined _ _ ⟨inlineRecord, _⟩ result_outline_inline
  refine ⟨hfits, hinline, ?_⟩
  obtain ⟨record, hone, hascii, -, hread⟩ := call_answers inlineWorkspace "get_outline" _ hfits
  obtain rfl := (hone _).mp hinline
  refine ⟨hascii, hread, ?_, ?_⟩
  · have hpath : "~eve/a.ts" ≠ "" := by decide
    have hstuck := (outline_of_no_text (w := homeWorkspace) hpath .null).1 _ rfl
    obtain ⟨record, hone, -, -, hread⟩ :=
      call_answers homeWorkspace "get_outline" _ (fits_argumentsOf "path" "~eve/a.ts" rfl)
    rw [hread, ← (hone _).mp (.outlineFailed hstuck)]
    rfl
  · obtain ⟨record, hone, -, -, hread⟩ :=
      call_answers homeWorkspace "get_outline" _ (fits_argumentsOf "path" "~/../bob/a.ts" rfl)
    rw [hread, ← (hone _).mp (.outlined result_outline_bob)]

end CodeOutline.Tool
