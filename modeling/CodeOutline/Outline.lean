import CodeOutline.Token.OfDeclaration

/-!
# Outlines

The tokens of a source text in five sections. A section is absent until its
first token is pushed; tokens stay in the order in which they came. A section is
asked for by its name, and not every name under which an outline has something is
that of a section.
-/

namespace CodeOutline

/-- The sections of an outline. The variables of the top level are its globals. -/
inductive Section where
  | classes
  | interfaces
  | functions
  | globals
  | imports
deriving Repr, DecidableEq

namespace Section

/-- The sections, in the order in which they are listed. -/
def all : List Section := [.classes, .interfaces, .functions, .globals, .imports]

/-- The name of a section. -/
def name : Section → String
  | .classes => "classes"
  | .interfaces => "interfaces"
  | .functions => "functions"
  | .globals => "variables"
  | .imports => "imports"

/-- The section of a name. -/
def ofName? (text : String) : Option Section :=
  all.find? (·.name = text)

end Section

/-- What an outline has under a name. -/
inductive Place where
  /-- One of the sections. -/
  | ofSection (s : Section)
  /-- A place that is free, takes tokens and is not listed. -/
  | unlisted
  /-- A place that is free and stays so. -/
  | sealed
  /-- Something of a type that takes no tokens. -/
  | ofType (typeName : String)
deriving Repr, DecidableEq

namespace Place

/-- The name of the place that is not listed. -/
def unlistedName : String := "__hash__"

/-- The name of the place that stays free. -/
def sealedName : String := "__weakref__"

/-- The types of what takes no tokens, each with the names under which it is found. -/
def others : List (String × List String) :=
  [("bool", ["strict"]),
   ("function", ["push", "__init__", "__repr__", "__eq__"]),
   ("str", ["__doc__", "__module__"]),
   ("tuple", ["__match_args__"]),
   ("dict", ["__dict__", "__annotations__", "__dataclass_fields__"]),
   ("_DataclassParams", ["__dataclass_params__"]),
   ("type", ["__class__"]),
   ("method-wrapper",
    ["__delattr__", "__ge__", "__getattribute__", "__gt__", "__le__", "__lt__", "__ne__",
     "__setattr__", "__str__"]),
   ("builtin_function_or_method",
    ["__dir__", "__format__", "__getstate__", "__init_subclass__", "__new__", "__reduce__",
     "__reduce_ex__", "__sizeof__", "__subclasshook__"])]

/-- The place of a name, if an outline has one. -/
def ofName? (name : String) : Option Place :=
  match Section.ofName? name with
  | some s => some (.ofSection s)
  | none =>
      if name = unlistedName then some .unlisted
      else if name = sealedName then some .sealed
      else (others.find? (·.2.contains name)).map fun row => .ofType row.1

end Place

/-- The outline of a source text. -/
structure Outline where
  strict : Bool := false
  classes : Option (List Token) := none
  interfaces : Option (List Token) := none
  functions : Option (List Token) := none
  globals : Option (List Token) := none
  imports : Option (List Token) := none
deriving Repr, DecidableEq

namespace Outline

/-- The tokens of a section, if it is there. -/
def members (o : Outline) : Section → Option (List Token)
  | .classes => o.classes
  | .interfaces => o.interfaces
  | .functions => o.functions
  | .globals => o.globals
  | .imports => o.imports

/-- A section with one token more. -/
def extended (tokens : Option (List Token)) (t : Token) : Option (List Token) :=
  some (tokens.getD [] ++ [t])

/-- The outline with a token at the end of a section. -/
def push (o : Outline) : Section → Token → Outline
  | .classes, t => { o with classes := extended o.classes t }
  | .interfaces, t => { o with interfaces := extended o.interfaces t }
  | .functions, t => { o with functions := extended o.functions t }
  | .globals, t => { o with globals := extended o.globals t }
  | .imports, t => { o with imports := extended o.imports t }

/-- The outline with a token at the end of what it has under a name. What the
unlisted place takes shows nowhere. -/
def pushNamed (o : Outline) (name : String) (t : Token) : Except Fault Outline :=
  match Place.ofName? name with
  | some (.ofSection s) => .ok (o.push s t)
  | some .unlisted => .ok o
  | some .sealed => .error (.sealedPlace name)
  | some (.ofType typeName) => .error (.notSection typeName)
  | none => .error (.unknownSection name)

/-- The tokens with their sections, section after section. -/
def flatten (o : Outline) : List (Section × Token) :=
  Section.all.flatMap fun s => ((o.members s).getD []).map fun t => (s, t)

/-- The records of a section's tokens under its name, if the section is there. -/
def sectionRecord (o : Outline) (s : Section) : Option (String × Json) :=
  (o.members s).map fun tokens => (s.name, .arr (tokens.map fun t => t.record.withoutNulls))

/-- The outline as a record. Parts that are not set and sections that are absent
are left out. -/
def record (o : Outline) : Json :=
  .obj (("strict", .bool o.strict) :: Section.all.filterMap o.sectionRecord)

/-- A push changes the section it names and no other. -/
theorem members_push (o : Outline) (s s' : Section) (t : Token) :
    (o.push s t).members s' = if s' = s then extended (o.members s) t else o.members s' := by
  cases s <;> cases s' <;> rfl

@[simp] theorem strict_push (o : Outline) (s : Section) (t : Token) :
    (o.push s t).strict = o.strict := by
  cases s <;> rfl

end Outline

/-! ## Outlines of source units

The declarations of a unit and then its imports are turned into tokens, each in
source order. What is of a kind that is not outlined leaves a note. -/

/-- The token of a declaration and its section, if its kind is outlined. -/
def Declaration.token (d : Document) (config : Config) :
    Declaration → Traced (Option (Section × Token))
  | .ofClass c => do
      let t ← c.token d config
      pure (some (.classes, .ofEntity t))
  | .ofInterface i => do
      let t ← i.token d config
      pure (some (.interfaces, .ofEntity t))
  | .ofVariable v => do
      let t ← v.token d config
      pure (some (.globals, .ofVariable t))
  | .ofFunction f => do
      let t ← f.token d
      pure (some (.functions, .ofMethod t))
  | .unknown => Traced.noting [.skippedDeclaration "object"] none

/-- The token of an import and its section, if its kind is outlined. -/
def Import.token (d : Document) (i : Import) : Traced (Option (Section × Token)) :=
  match i.token? d with
  | some t => pure (some (.imports, .ofImport t))
  | none => Traced.noting [.skippedImport i.kindName] none

namespace Outline

/-- The outline with tokens pushed one after another. -/
def pushAll (o : Outline) (tokens : List (Section × Token)) : Outline :=
  tokens.foldl (fun o t => o.push t.1 t.2) o

/-- The outline of a source unit over its document. -/
def ofUnit (d : Document) (config : Config) (unit : SourceUnit) : Traced Outline := do
  let declared ← Traced.each (Declaration.token d config) unit.declarations
  let imported ← Traced.each (Import.token d) unit.imports
  pure (pushAll { strict := d.isStrict } ((declared ++ imported).filterMap id))

end Outline

end CodeOutline
