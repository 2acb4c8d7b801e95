import CodeOutline.Literal.Basic

/-!
# Declarations of a source unit

What a source text declares and imports, in source order. Offsets count
characters; an item that does not say where it ends has no `stop`. A flag that
is not known is absent, and is then looked for in the text.
-/

namespace CodeOutline

/-! ## Visibility

Members are private, protected or public. A parser gives the number of one of
the three; tokens hold its name. -/

namespace Visibility

/-- The names, by number. -/
def names : List String := ["private", "protected", "public"]

/-- The name for a number, public if there is none or it is unknown. -/
def ofCode (code : Option Int) : String :=
  match code with
  | some 0 => "private"
  | some 1 => "protected"
  | _ => "public"

/-- The number of a name. -/
def code? (name : String) : Option Int :=
  match name with
  | "private" => some 0
  | "protected" => some 1
  | "public" => some 2
  | _ => none

/-- The name for a declaration of the top level: what is not exported is
protected. -/
def ofExported (exported : Bool) : String :=
  if exported then "public" else "protected"

theorem ofCode_mem_names (code : Option Int) : ofCode code ∈ names := by
  unfold ofCode
  split <;> simp [names]

end Visibility

/-! ## Declarations and imports -/

/-- A parameter of a function or method. -/
structure Parameter where
  name : String
  start : Int := 0
  stop : Option Int := none
  type : Option String := none
  value : Literal := .null
  /-- The kind of literal that `value` is. -/
  valueType : Option String := none
  /-- The number of its visibility. -/
  access : Option Int := none

/-- A property of a class or interface. -/
structure Property where
  name : String
  start : Int := 0
  stop : Option Int := none
  type : Option String := none
  value : Literal := .null
  valueType : Option String := none
  access : Option Int := none
  isStatic : Option Bool := none
  isReadonly : Option Bool := none

/-- A method of a class or interface. -/
structure Method where
  name : String
  start : Int := 0
  stop : Option Int := none
  type : Option String := none
  access : Option Int := none
  isStatic : Option Bool := none
  parameters : List Parameter := []

/-- A class, its constructor apart from its other methods. -/
structure ClassDecl where
  name : String
  start : Int := 0
  stop : Option Int := none
  isExported : Bool := false
  ctor : Option Method := none
  methods : List Method := []
  properties : List Property := []

/-- An interface. -/
structure InterfaceDecl where
  name : String
  start : Int := 0
  stop : Option Int := none
  isExported : Bool := false
  methods : List Method := []
  properties : List Property := []

/-- A variable of the top level. -/
structure VariableDecl where
  name : String
  start : Int := 0
  stop : Option Int := none
  type : Option String := none
  value : Literal := .null
  valueType : Option String := none
  isExported : Bool := false
  isConst : Bool := false

/-- A function of the top level. -/
structure FunctionDecl where
  name : String
  start : Int := 0
  stop : Option Int := none
  type : Option String := none
  isExported : Bool := false
  parameters : List Parameter := []

/-- A declaration. One of a kind that is not outlined is `unknown`. -/
inductive Declaration where
  | ofClass (decl : ClassDecl)
  | ofInterface (decl : InterfaceDecl)
  | ofVariable (decl : VariableDecl)
  | ofFunction (decl : FunctionDecl)
  | unknown

/-- A name that is imported, and the name it is given here. -/
structure Specifier where
  name : String
  localName : Option String := none

/-- An import of single names. -/
structure NamedImport where
  library : String
  start : Int := 0
  stop : Option Int := none
  specifiers : Option (List Specifier) := none
  defaultName : Option String := none

/-- An import of a whole library, or of its default member, under one name. -/
structure AliasImport where
  library : String
  localName : String
  start : Int := 0
  stop : Option Int := none

/-- An import of a library for its effects alone. -/
structure BareImport where
  library : String
  start : Int := 0
  stop : Option Int := none

/-- An import. One of a kind that is not outlined is `unknown`. -/
inductive Import where
  | ofNamed (decl : NamedImport)
  | ofNamespace (decl : AliasImport)
  | ofDefault (decl : AliasImport)
  | ofBare (decl : BareImport)
  | unknown

/-- What a source text declares and imports. -/
structure SourceUnit where
  declarations : List Declaration := []
  imports : List Import := []

namespace SourceUnit

/-- One unit after another. -/
def append (a b : SourceUnit) : SourceUnit :=
  ⟨a.declarations ++ b.declarations, a.imports ++ b.imports⟩

instance : Append SourceUnit := ⟨append⟩

/-- The unit of one declaration. -/
def declaring (d : Declaration) : SourceUnit := ⟨[d], []⟩

/-- The unit of one import, if there is one. -/
def importing (i : Option Import) : SourceUnit := ⟨[], i.toList⟩

/-- Units one after another. -/
def concat : List SourceUnit → SourceUnit
  | [] => ⟨[], []⟩
  | unit :: rest => unit ++ concat rest

end SourceUnit

end CodeOutline
