import CodeOutline.Text.Utf8

/-!
# Faults, notes and traced results

An operation may fail, and it may leave notes of what it passed over on the way. A traced
result holds both: the notes, and a value or the fault that took its place.
-/

namespace CodeOutline

/-! ## Faults

What can make an operation fail, by cause. Each cause has one wording, and a
class under which a note about it is filed. -/

/-- Why an operation failed. -/
inductive Fault where
  /-- A value that is no container was to be written as one. -/
  | notIterable (typeName : String)
  /-- Keyed entries stand inside a container, where JSON has no place for them. -/
  | nestedEntries
  /-- A whole number has too many digits to be written. -/
  | integerTooLong
  /-- No skeleton document is made with this extension. -/
  | unsupportedExtension (extension : String)
  /-- An access modifier is none of the three known. -/
  | unknownAccess
  /-- An object member lacks its key or its value. -/
  | missingPairPart
  /-- Something whose text is wanted is missing, such as the name of an import
  specifier. -/
  | missingText
  /-- An outline has no section of this name. -/
  | unknownSection (name : String)
  /-- Something else that an outline has was taken for a section. -/
  | notSection (typeName : String)
  /-- A place that an outline keeps empty was taken for a section. -/
  | sealedPlace (name : String)
  /-- There is no such line, or no such byte. -/
  | outOfRange
  /-- A line or a byte has a number that no index can be. -/
  | indexTooLarge
  /-- These bytes are no text. -/
  | invalidText (bytes : List UInt8) (cause : Utf8.Invalid)
  /-- The parser gave up, for a reason of its own. -/
  | parserFailed (reason : String)
  /-- A value was asked for something that only text, or only an object, has. -/
  | noMember (typeName member : String)
  /-- A value that is no path was given as one. -/
  | notPath (typeName : String)
  /-- No path holds the character NUL. -/
  | nulInPath
  /-- The system could not follow a path, and says why under a class of its own. -/
  | pathRefused (className reason : String)
  /-- A container was looked up among names. -/
  | notName (typeName : String)
  /-- An argument that has to be given is not. -/
  | missingArgument (name : String)
  /-- Arguments are to be looked up by name in a value that is no object. -/
  | notArguments (typeName : String)
deriving Repr, DecidableEq

namespace Fault

/-- What is said of a fault. -/
def message : Fault → String
  | .notIterable typeName => "'" ++ typeName ++ "' object is not iterable"
  | .nestedEntries => "Object of type ArrayLiteral is not JSON serializable"
  | .integerTooLong =>
      "Exceeds the limit (4300 digits) for integer string conversion; "
        ++ "use sys.set_int_max_str_digits() to increase the limit"
  | .unsupportedExtension extension => "Unsupported extension: " ++ extension
  | .unknownAccess => "tuple.index(x): x not in tuple"
  | .missingPairPart => "'NoneType' object has no attribute 'type'"
  | .missingText => "'NoneType' object has no attribute 'start_byte'"
  | .unknownSection name => "'TokenTree' object has no attribute '" ++ name ++ "'"
  | .notSection typeName =>
      -- of a type it is said which one it is
      (if typeName = "type" then "type object 'TokenTree'" else "'" ++ typeName ++ "' object")
        ++ " has no attribute 'append'"
  | .sealedPlace name => "attribute '" ++ name ++ "' of 'TokenTree' objects is not writable"
  | .outOfRange => "list index out of range"
  | .indexTooLarge => "cannot fit 'int' into an index-sized integer"
  | .invalidText _ cause => cause.message
  | .parserFailed reason => reason
  | .noMember typeName member =>
      "'" ++ typeName ++ "' object has no attribute '" ++ member ++ "'"
  | .notPath typeName => "expected str, bytes or os.PathLike object, not " ++ typeName
  | .nulInPath => "embedded null byte"
  | .pathRefused _ reason => reason
  | .notName typeName => "unhashable type: '" ++ typeName ++ "'"
  | .missingArgument name => Text.quotedString name
  | .notArguments typeName =>
      if typeName = "list" then "list indices must be integers or slices, not str"
      else if typeName = "str" then "string indices must be integers, not 'str'"
      else "'" ++ typeName ++ "' object is not subscriptable"

/-- The class of a fault. -/
def className : Fault → String
  | .notIterable _ | .nestedEntries | .notPath _ | .notName _ | .notArguments _ =>
      "TypeError"
  | .integerTooLong | .unsupportedExtension _ | .unknownAccess | .nulInPath =>
      "ValueError"
  | .missingPairPart | .missingText | .unknownSection _ | .notSection _ | .sealedPlace _
  | .noMember _ _ => "AttributeError"
  | .outOfRange | .indexTooLarge => "IndexError"
  | .invalidText _ _ => "UnicodeDecodeError"
  | .parserFailed _ => "RuntimeError"
  | .missingArgument _ => "KeyError"
  | .pathRefused className _ => className

/-- Indices are of 64 bits, one of which is the sign. -/
def indexBound : Int := 0x8000000000000000

/-- The fault of an index at which there is nothing. -/
def ofIndex (index : Int) : Fault :=
  if -indexBound ≤ index ∧ index < indexBound then .outOfRange else .indexTooLarge

/-- What a fault is made of, as a note tells it: the bytes and the place for bytes
that are no text, and else what is said of it. -/
def particulars : Fault → List String
  | .invalidText bytes cause =>
      ["'utf-8'", Text.quotedBytes bytes, toString cause.start, toString cause.stop,
       Text.quotedString cause.reason.message]
  | fault => [Text.quotedString fault.message]

/-- A fault as a note tells it. -/
def shown (fault : Fault) : String :=
  fault.className ++ "(" ++ ", ".intercalate fault.particulars ++ ")"

end Fault

/-! ## Notes

Records of what was passed over on the way to a result. They change no result. -/

/-- Something that was passed over. -/
inductive Note where
  /-- A region that could not be parsed, at this byte. -/
  | unparsableRegion (byte : Nat)
  /-- A statement of a kind that declares nothing. -/
  | ignoredStatement (kind : String)
  /-- A name that occurs more than once on its line. -/
  | ambiguousIdentifier (name : String) (line : Int)
  /-- A declaration of a kind that is not outlined. -/
  | skippedDeclaration (kind : String)
  /-- An import of a kind that is not outlined. -/
  | skippedImport (kind : String)
  /-- An outline that came after a newer request was made. -/
  | staleOutline (request latest : Nat)
  /-- A failure that came after a newer request was made. -/
  | staleFailure (request : Nat) (fault : Fault)
deriving Repr, DecidableEq

/-- What a note says. -/
def Note.message : Note → String
  | .unparsableRegion byte => "Skipping unparsable region at byte " ++ toString byte
  | .ignoredStatement kind => "Ignoring top-level " ++ kind
  | .ambiguousIdentifier name line =>
      "Ambiguous identifier " ++ Text.quotedString name ++ " on line " ++ toString line
  | .skippedDeclaration kind => "Skipping unsupported declaration " ++ kind
  | .skippedImport kind => "Skipping unsupported import " ++ kind
  | .staleOutline request latest =>
      "Discarding stale outline " ++ toString request ++ " (latest is " ++ toString latest ++ ")"
  | .staleFailure request fault =>
      "Discarding failed stale outline " ++ toString request ++ ": "
        ++ fault.shown

/-! ## Traced results

A computation that leaves notes and then ends in a value or a fault. The notes
left before a fault are kept. -/

/-- The notes of a computation, in order, and how it ended. -/
structure Traced (α : Type) where
  notes : List Note
  result : Except Fault α

namespace Traced

variable {α β : Type}

/-- Leaves notes and ends in a value. -/
def noting (notes : List Note) (value : α) : Traced α := ⟨notes, .ok value⟩

/-- Ends as told, without a note. -/
def lift (result : Except Fault α) : Traced α := ⟨[], result⟩

instance : Monad Traced where
  pure value := ⟨[], .ok value⟩
  bind x f :=
    match x.result with
    | .ok value => ⟨x.notes ++ (f value).notes, (f value).result⟩
    | .error fault => ⟨x.notes, .error fault⟩

@[simp] theorem notes_pure (value : α) : (pure value : Traced α).notes = [] := rfl

@[simp] theorem result_pure (value : α) : (pure value : Traced α).result = .ok value := rfl

theorem bind_ok {x : Traced α} {value : α} (h : x.result = .ok value) (f : α → Traced β) :
    (x >>= f) = ⟨x.notes ++ (f value).notes, (f value).result⟩ := by
  simp only [bind, h]

theorem bind_error {x : Traced α} {fault : Fault} (h : x.result = .error fault)
    (f : α → Traced β) : (x >>= f) = ⟨x.notes, .error fault⟩ := by
  simp only [bind, h]

/-- One traced computation after another, for each item of a list; the first
fault ends it. -/
def each (f : α → Traced β) : List α → Traced (List β)
  | [] => pure []
  | x :: xs => do
      let y ← f x
      let ys ← each f xs
      pure (y :: ys)

end Traced

end CodeOutline
