import CodeOutline.Proofs.Text.Utf8
import CodeOutline.Proofs.Traced
import CodeOutline.Tool

/-!
# Loading documents

A document is read from a file or given as source text. Both ways lead to one outline: a
file that stores a text is outlined as the text with LF alone at the end of its lines, in
the language of its ending or in the one asked for. A file that stores no text is refused.
-/

namespace CodeOutline

/-! ## Line breaks -/

namespace Text

/-- The text with every CR LF turned into LF. -/
def crlfToLf : List Char → List Char
  | [] => []
  | '\r' :: '\n' :: cs => '\n' :: crlfToLf cs
  | c :: cs => c :: crlfToLf cs

/-- The text with every CR turned into LF. -/
def crToLf (cs : List Char) : List Char :=
  cs.map fun c => if c = '\r' then '\n' else c

/-- The text with LF alone at the end of its lines: once no CR stands before an LF, those
left over end lines by themselves. -/
def lfOnly (text : String) : String :=
  String.ofList (crToLf (crlfToLf text.toList))

/-- One pass over the text does what the two replacements do. -/
theorem unifyNewlines_eq (cs : List Char) : unifyNewlines cs = crToLf (crlfToLf cs) := by
  fun_induction unifyNewlines cs with
  | case1 => rfl
  | case2 cs ih =>
    rw [ih]
    rfl
  | case3 cs hlf ih =>
    -- a CR that stands alone is left to the second replacement
    have hkept : crlfToLf ('\r' :: cs) = '\r' :: crlfToLf cs := by
      rw [crlfToLf]
      intro rest _ hcs
      exact hlf rest hcs
    rw [hkept, ih]
    rfl
  | case4 c cs hcrlf hcr ih =>
    have hkept : crlfToLf (c :: cs) = c :: crlfToLf cs := by
      rw [crlfToLf]
      intro rest hc
      exact absurd hc hcr
    have hc : c ≠ '\r' := hcr
    rw [hkept, ih, crToLf, crToLf, List.map_cons, if_neg hc]

theorem cr_notMem_crToLf (cs : List Char) : '\r' ∉ crToLf cs := by
  intro hmem
  obtain ⟨c, -, hc⟩ := List.mem_map.mp hmem
  split at hc
  · contradiction
  · contradiction

theorem cr_notMem_lfOnly (text : String) : '\r' ∉ (lfOnly text).toList := by
  rw [lfOnly, String.toList_ofList]
  exact cr_notMem_crToLf _

end Text

/-! ## Languages of file endings -/

namespace Language

/-- A language that an ending belongs to, in any case. -/
structure Registers (l : Language) (suffix : String) : Prop where
  known : l ∈ all
  lists : suffix.toLower ∈ l.suffixes

/-- No ending belongs to two languages. -/
theorem find?_of_mem_suffixes :
    ∀ l ∈ all, ∀ suffix ∈ l.suffixes,
      all.find? (fun language => language.suffixes.contains suffix) = some l := by
  decide

theorem Registers.ofSuffix? {l : Language} {suffix : String} (h : l.Registers suffix) :
    Language.ofSuffix? suffix = some l :=
  find?_of_mem_suffixes l h.known suffix.toLower h.lists

theorem Registers.id_ne_empty {l : Language} {suffix : String} (h : l.Registers suffix) :
    l.id ≠ "" := by
  have hids : ∀ l ∈ all, l.id ≠ "" := by decide
  exact hids l h.known

end Language

/-! ## Files -/

/-- A path leads to a file of a name, whose bytes can be read. -/
structure Workspace.Holds (w : Workspace) (path name : String) (bytes : List UInt8) : Prop where
  nonempty : path ≠ ""
  found : w.lookup path = .file name (.ok bytes)

/-- What a text is stored as. -/
def Utf8.Stores (bytes : List UInt8) (text : String) : Prop :=
  bytes = Utf8.encode text.toList

theorem Utf8.Stores.decode {bytes : List UInt8} {text : String} (h : Utf8.Stores bytes text) :
    Utf8.decode bytes = .ok text.toList :=
  Utf8.decode_eq_ok_iff.mpr h

/-- Bytes that store no text are found to be at fault somewhere. -/
theorem Utf8.decode_eq_error {bytes : List UInt8} (h : ∀ text, ¬ Utf8.Stores bytes text) :
    ∃ cause, Utf8.decode bytes = .error cause := by
  cases hdecode : Utf8.decode bytes with
  | error cause => exact ⟨cause, rfl⟩
  | ok cs =>
    have hstores : Utf8.Stores bytes (String.ofList cs) := by
      rw [Utf8.Stores, String.toList_ofList]
      exact Utf8.decode_eq_ok_iff.mp hdecode
    exact absurd hstores (h _)

namespace Draft

variable {w : Workspace} {path name : String} {bytes : List UInt8}

/-- What is loaded from a path is told by what is found there. -/
theorem load_path (lookup : String → Lookup) (hpath : path ≠ "") (language : Json) :
    load lookup (.str path) .null language = ofPath lookup path language := by
  have htruthy : (Json.str path).isTruthy = true := by simp [Json.isTruthy, hpath]
  simp only [load, Json.isNull, htruthy]
  rfl

/-- A file is loaded by its name and its content alone. -/
theorem load_file {content : Except String (List UInt8)} (hpath : path ≠ "")
    (h : w.lookup path = .file name content) (language : Json) :
    load w.lookup (.str path) .null language = .ok (ofFile path name content language) := by
  rw [load_path w.lookup hpath, ofPath, h]

/-- Why the content of a file gives no text. -/
inductive Unread (path : String) : Except String (List UInt8) → LoadError → Prop where
  | unreadable (reason : String) : Unread path (.error reason) (.unreadable path reason)
  | undecodable {bytes : List UInt8} {cause : Utf8.Invalid}
      (h : Utf8.decode bytes = .error cause) : Unread path (.ok bytes) (.undecodable path cause)

/-- A file is refused as one of no known language before its content is looked at. -/
structure UnknownType (name : String) (language : Json) (e : LoadError) : Prop where
  error_eq : e = .unsupportedType (suffixOf name)
  isNull : language.isNull = true
  not_registers : ∀ l : Language, ¬ l.Registers (suffixOf name)

/-- A file whose content gives no text is refused, for that reason unless its language is not
known. -/
theorem ofFile_unread {content : Except String (List UInt8)} {e : LoadError}
    (h : Unread path content e) (name : String) (language : Json) :
    ∃ e' : LoadError, ofFile path name content language = .error e' ∧
      (e' = e ∨ UnknownType name language e') := by
  unfold ofFile
  dsimp only
  split
  next hunknown =>
    rw [Bool.and_eq_true, Option.isNone_map, Option.isNone_iff_eq_none] at hunknown
    refine ⟨_, rfl, .inr ⟨rfl, hunknown.1, ?_⟩⟩
    intro l hl
    rw [hl.ofSuffix?] at hunknown
    exact nomatch hunknown.2
  next =>
    cases h with
    | unreadable reason => exact ⟨_, rfl, .inl rfl⟩
    | undecodable hdecode =>
      dsimp only
      rw [hdecode]
      exact ⟨_, rfl, .inl rfl⟩

theorem ofFile_registered {text : String} {l : Language} (htext : Utf8.Stores bytes text)
    (hl : l.Registers (suffixOf name)) :
    ofFile path name (.ok bytes) .null =
      .ok { text := .str (Text.lfOnly text), language := .str l.id, path := some path } := by
  unfold ofFile
  dsimp only
  rw [hl.ofSuffix?, htext.decode, Text.lfOnly, ← Text.unifyNewlines_eq]
  rfl

theorem ofFile_named {text : String} (htext : Utf8.Stores bytes text) (id : String) :
    ofFile path name (.ok bytes) (.str id) =
      .ok { text := .str (Text.lfOnly text), language := .str id, path := some path } := by
  unfold ofFile
  dsimp only
  rw [htext.decode, Text.lfOnly, ← Text.unifyNewlines_eq]
  rfl

theorem load_source (lookup : String → Lookup) (source : String) {id : String} (hid : id ≠ "") :
    load lookup .null (.str source) (.str id) =
      .ok (.ok { text := .str source, language := .str id }) := by
  have hid : (Json.str id).isTruthy = true := by simp [Json.isTruthy, hid]
  show (ofSource (.str source) (.str id)).map Except.ok = _
  rw [ofSource, if_pos hid]
  rfl

end Draft

/-! ## One outline -/

namespace Tool

variable {w : Workspace}

/-- Two results that are the same but for the file that an outline names. -/
inductive SameAnswer (file file' : Json) : Except Fault Answer → Except Fault Answer → Prop where
  | outlined (language outline : Json) (grammars : List String) :
      SameAnswer file file'
        (.ok { record := .obj [("file", file), ("language", language), ("outline", outline)]
               grammars })
        (.ok { record := .obj [("file", file'), ("language", language), ("outline", outline)]
               grammars })
  | refused (message : String) :
      SameAnswer file file' (.ok { record := errorRecord message })
        (.ok { record := errorRecord message })
  | failed (fault : Fault) : SameAnswer file file' (.error fault) (.error fault)

/-- The path of a document has no part in its outline. -/
theorem outline_path (w : Workspace) (text id : String) (file : Option String) :
    w.outline { text, language := id, path := file } = w.outline { text, language := id } := by
  rfl

/-- What an outline is of once its document is loaded: the text and its language. The path
only names the file. -/
theorem result_outline_of_load {path source language : Json} {text id : String}
    {file : Option String}
    (h : Draft.load w.lookup path source language = .ok (.ok ⟨.str text, .str id, file⟩)) :
    (outline w path source language).result =
      if Language.isSupported id then
        (w.outline { text, language := id }).result.map fun o =>
          { record := .obj [("file", if path.isTruthy then path else .str ""),
                            ("language", .str id), ("outline", o.record)],
            grammars := [Workspace.grammarOf { text, language := id }] }
      else .ok { record := errorRecord ("Unsupported language: " ++ id) } := by
  unfold outline
  rw [h, Traced.bind_ok rfl]
  dsimp only
  rw [Traced.bind_ok (x := Traced.lift (Json.textFor "lower" (.str id))) rfl]
  dsimp only
  cases hsupported : Language.isSupported id with
  | false => rfl
  | true =>
    simp only [Bool.not_true, Bool.false_eq_true, if_false, if_true]
    rw [Traced.bind_ok (x := Traced.lift (Json.textFor "encode" (.str text))) rfl]
    dsimp only
    rw [outline_path, Traced.result_bind_pure]
    rfl

/-- Where no document is loaded, an error record says why. -/
theorem result_outline_of_loadError {path source language : Json} {e : LoadError}
    (h : Draft.load w.lookup path source language = .ok (.error e)) :
    (outline w path source language).result = .ok { record := errorRecord e.message } := by
  unfold outline
  rw [h]
  rfl

/-- A path that leads to no text is not outlined. One that cannot be followed is a fault. For
one without a file, and for a file whose content gives no text, an error record says so. -/
theorem outline_of_no_text {path : String} (hpath : path ≠ "") (language : Json) :
    (∀ fault, w.lookup path = .stuck fault →
      (outline w (.str path) .null language).result = .error fault) ∧
    (w.lookup path = .missing →
      (outline w (.str path) .null language).result =
        .ok { record := errorRecord (LoadError.notFound path).message }) ∧
    ∀ name content e, w.lookup path = .file name content → Draft.Unread path content e →
      ∃ e' : LoadError,
        (outline w (.str path) .null language).result =
          .ok { record := errorRecord e'.message } ∧
        (e' = e ∨ Draft.UnknownType name language e') := by
  refine ⟨?_, ?_, ?_⟩
  · intro fault hstuck
    unfold outline
    rw [Draft.load_path w.lookup hpath, Draft.ofPath, hstuck]
    rfl
  · intro hmissing
    apply result_outline_of_loadError
    rw [Draft.load_path w.lookup hpath, Draft.ofPath, hmissing]
  · intro name content e hfile hunread
    obtain ⟨e', he', hcause⟩ := Draft.ofFile_unread hunread name language
    refine ⟨e', result_outline_of_loadError ?_, hcause⟩
    rw [Draft.load_file hpath hfile, he']

/-- A file is read as a text in a language: that is what is loaded, and the outline is that
of the text given as source. -/
structure ReadAs (w : Workspace) (path : String) (language : Json) (text id : String) : Prop where
  loaded : Draft.load w.lookup (.str path) .null language =
    .ok (.ok { text := .str text, language := .str id, path := some path })
  agrees : SameAnswer (.str path) (.str "") (outline w (.str path) .null language).result
    (outline w .null (.str text) (.str id)).result

theorem readAs_of_loaded {path text id : String} {language : Json} (hpath : path ≠ "")
    (hid : id ≠ "")
    (h : Draft.load w.lookup (.str path) .null language =
      .ok (.ok { text := .str text, language := .str id, path := some path })) :
    ReadAs w path language text id where
  loaded := h
  agrees := by
    have hfile : (Json.str path).isTruthy = true := by simp [Json.isTruthy, hpath]
    rw [result_outline_of_load h, result_outline_of_load (Draft.load_source w.lookup text hid),
      if_pos hfile]
    -- one outline is asked for on both sides, or none as the language is not supported
    split
    · cases (w.outline { text, language := id }).result with
      | ok o => exact .outlined _ _ _
      | error fault => exact .failed fault
    · exact .refused _

/-- A file that stores a text is read as that text with LF alone at the end of its lines, in
the language of its ending or in any that is asked for. One that stores no text gives an error
record: it cannot be read, or not even its language is known. -/
theorem outline_of_file {w : Workspace} {path name : String} {bytes : List UInt8}
    (hfile : w.Holds path name bytes) :
    (∀ text, Utf8.Stores bytes text →
      '\r' ∉ (Text.lfOnly text).toList ∧
      (∀ l : Language, l.Registers (suffixOf name) →
        ReadAs w path .null (Text.lfOnly text) l.id) ∧
      ∀ id, id ≠ "" → ReadAs w path (.str id) (Text.lfOnly text) id) ∧
    ((∀ text, ¬ Utf8.Stores bytes text) → ∀ language, ∃ e : LoadError,
      (outline w (.str path) .null language).result = .ok { record := errorRecord e.message } ∧
      ((∃ cause, Utf8.decode bytes = .error cause ∧ e = .undecodable path cause) ∨
        Draft.UnknownType name language e)) := by
  constructor
  · intro text htext
    refine ⟨Text.cr_notMem_lfOnly text, ?_, ?_⟩
    · intro l hl
      apply readAs_of_loaded hfile.nonempty hl.id_ne_empty
      rw [Draft.load_file hfile.nonempty hfile.found, Draft.ofFile_registered htext hl]
    · intro id hid
      apply readAs_of_loaded hfile.nonempty hid
      rw [Draft.load_file hfile.nonempty hfile.found, Draft.ofFile_named htext]
  · intro hnone language
    obtain ⟨cause, hcause⟩ := Utf8.decode_eq_error hnone
    obtain ⟨e, hresult, he | he⟩ := (outline_of_no_text hfile.nonempty language).2.2 _ _ _
      hfile.found (.undecodable hcause)
    · exact ⟨e, hresult, .inl ⟨cause, hcause, he⟩⟩
    · exact ⟨e, hresult, .inr he⟩

/-- A text with each kind of line break and a letter beyond ASCII. -/
def storedText : String := "let é = 1;\r\nlet b;\r"

/-- A workspace with a file of that text, one whose bytes are no text, one that must not be
read and a path that cannot be followed. Its parser knows the text. -/
def homeWorkspace : Workspace where
  lookup path :=
    if path = "/home/ann/App.TSX" then .file "App.TSX" (.ok (Utf8.encode storedText.toList))
    else if path = "~/cut.ts" then .file "cut.ts" (.ok [0x6c, 0xe2])
    else if path = "~/../bob/a.ts" then
      .file "a.ts" (.error "[Errno 13] Permission denied: '/home/bob/a.ts'")
    else if path = "~eve/a.ts" then
      .stuck (.pathRefused "RuntimeError" "Could not determine home directory.")
    else .missing
  parse _ text :=
    if text = "let é = 1;\nlet b;\n" then
      ⟨"program", true, 0, 19, none,
        [⟨"lexical_declaration", true, 0, 11, none,
          [⟨"let", false, 0, 3, some "kind", []⟩,
           ⟨"variable_declarator", true, 4, 10, none,
            [⟨"identifier", true, 4, 6, some "name", []⟩,
             ⟨"=", false, 7, 8, none, []⟩,
             ⟨"number", true, 9, 10, some "value", []⟩]⟩,
           ⟨";", false, 10, 11, none, []⟩]⟩,
         ⟨"lexical_declaration", true, 12, 18, none,
          [⟨"let", false, 12, 15, some "kind", []⟩,
           ⟨"variable_declarator", true, 16, 17, none,
            [⟨"identifier", true, 16, 17, some "name", []⟩]⟩,
           ⟨";", false, 17, 18, none, []⟩]⟩]⟩
    else ⟨"program", true, 0, 0, none, []⟩

theorem holds_app :
    homeWorkspace.Holds "/home/ann/App.TSX" "App.TSX" (Utf8.encode storedText.toList) where
  nonempty := by decide
  found := rfl

theorem holds_cut : homeWorkspace.Holds "~/cut.ts" "cut.ts" [0x6c, 0xe2] where
  nonempty := by decide
  found := rfl

theorem decode_cut : Utf8.decode [0x6c, 0xe2] = .error ⟨1, 2, 0xe2, .truncated⟩ := rfl

theorem not_stores_cut (text : String) : ¬ Utf8.Stores [0x6c, 0xe2] text := by
  intro h
  have hread := h.decode
  rw [decode_cut] at hread
  contradiction

/-- The outline of the text. -/
def storedOutline : Outline where
  globals := some
    [.ofVariable
      { name := "é", value := "1", visibility := "protected", position := some ⟨⟨0, 4⟩, ⟨0, 5⟩⟩ },
     .ofVariable
      { name := "b", visibility := "protected", position := some ⟨⟨1, 4⟩, ⟨1, 5⟩⟩ }]

/-- The file is outlined under its absolute path, whatever the case of its ending. In a language
that there is not, it is refused as its text is. The cut bytes are refused for the one at
fault. -/
theorem outline_of_file_home :
    Language.typescriptreact.Registers (suffixOf "App.TSX") ∧
    ReadAs homeWorkspace "/home/ann/App.TSX" .null "let é = 1;\nlet b;\n" "typescriptreact" ∧
    (outline homeWorkspace (.str "/home/ann/App.TSX") .null .null).result =
      .ok { record := .obj [("file", .str "/home/ann/App.TSX"),
                            ("language", .str "typescriptreact"),
                            ("outline", storedOutline.record)]
            grammars := ["tsx"] } ∧
    ReadAs homeWorkspace "/home/ann/App.TSX" (.str "php") "let é = 1;\nlet b;\n" "php" ∧
    (outline homeWorkspace (.str "~/cut.ts") .null .null).result =
      .ok { record := errorRecord ("Failed to read ~/cut.ts: 'utf-8' codec can't decode " ++
        "byte 0xe2 in position 1: unexpected end of data") } := by
  have hregisters : Language.typescriptreact.Registers (suffixOf "App.TSX") :=
    ⟨by decide, by decide +kernel⟩
  obtain ⟨-, hending, hnamed⟩ := (outline_of_file holds_app).1 storedText rfl
  have hread : ReadAs homeWorkspace "/home/ann/App.TSX" .null "let é = 1;\nlet b;\n"
      "typescriptreact" := hending .typescriptreact hregisters
  have hsupported : Language.isSupported "typescriptreact" = true := by decide +kernel
  have hgrammar : Workspace.grammarOf
      { text := "let é = 1;\nlet b;\n", language := "typescriptreact" } = "tsx" := by
    decide +kernel
  have houtline : (homeWorkspace.outline
      { text := "let é = 1;\nlet b;\n", language := "typescriptreact" }).result =
        .ok storedOutline := rfl
  have hmessage : (LoadError.undecodable "~/cut.ts" ⟨1, 2, 0xe2, .truncated⟩).message =
      "Failed to read ~/cut.ts: 'utf-8' codec can't decode " ++
        "byte 0xe2 in position 1: unexpected end of data" := by
    decide +kernel
  refine ⟨hregisters, hread, ?_, hnamed "php" (by decide), ?_⟩
  · rw [result_outline_of_load hread.loaded, if_pos hsupported, houtline,
      hgrammar]
    rfl
  · obtain ⟨e, hrefused, ⟨cause, hdecode, rfl⟩ | hunknown⟩ :=
      (outline_of_file holds_cut).2 not_stores_cut .null
    · cases decode_cut.symm.trans hdecode
      rw [hrefused, hmessage]
    · exact absurd ⟨by decide, by decide +kernel⟩ (hunknown.not_registers .typescript)

end Tool

end CodeOutline
