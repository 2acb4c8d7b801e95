import CodeOutline.Declaration
import CodeOutline.Token

/-!
# Tokens of declarations

What is shown of each declaration: its name, marked if it is read-only, its type
or `any`, the canonical text of its default value, its visibility, and where its
name stands.
-/

namespace CodeOutline

/-! ## Modifier words

Where the flags of a declaration are not known, its first words are searched for
them. This is a search for words and no check of syntax: a word further on, or
one that ends a line, is not seen, and a name that is such a word is. -/

/-- The flags that a declaration's words show. -/
structure Modifiers where
  isReadonly : Bool := false
  isStatic : Bool := false
deriving Repr, DecidableEq

namespace Modifiers

/-- How many words are searched. -/
def window : Nat := 5

/-- The flags among the first words of a text, which single spaces part. -/
def detect (text : String) : Modifiers :=
  let words := (text.toList.splitOn ' ').take window
  ⟨words.contains "readonly".toList, words.contains "static".toList⟩

end Modifiers

/-! ## Properties, methods and the rest -/

/-- A type that is given, or `any`. An empty one is not given. -/
def typeOrAny (type : Option String) : String :=
  match type with
  | some text => if text.isEmpty then "any" else text
  | none => "any"

/-- The type by which a default value is written: the kind of its literal if that
is known, else the declared type. -/
def valueTypeOr (valueType type : Option String) : Option String :=
  match valueType with
  | some text => if text.isEmpty then type else some text
  | none => type

/-- A name with the marker before it, if it is read-only. -/
def markedName (marker : String) (isReadonly : Bool) (name : String) : String :=
  (if isReadonly then marker else "") ++ name

/-- Looks for a name on the line of an offset. -/
def Document.locate (d : Document) (name : String) (offset : Int) : Traced Range :=
  Traced.noting (d.identifierNotes name offset) (d.identifierRange name offset)

/-- The flags that the text of a declaration shows. -/
def Document.modifiers (d : Document) (start : Int) (stop : Option Int) : Modifiers :=
  Modifiers.detect (d.textBetween start stop)

/-- The token of an argument. -/
def Parameter.token (p : Parameter) : Except Fault VariableToken := do
  let value ← p.value.normalize (valueTypeOr p.valueType p.type)
  pure { name := p.name, type := typeOrAny p.type, value := value,
         visibility := Visibility.ofCode p.access }

/-- The tokens of arguments. -/
def argumentTokens (ps : List Parameter) : Except Fault (List VariableToken) :=
  ps.mapM Parameter.token

namespace Property

/-- The flags of a property, those not known read off the text. -/
def flags (p : Property) (d : Document) : Modifiers :=
  match p.isReadonly, p.isStatic with
  | some isReadonly, some isStatic => ⟨isReadonly, isStatic⟩
  | isReadonly, isStatic =>
      let seen := d.modifiers p.start p.stop
      ⟨isReadonly.getD seen.isReadonly, isStatic.getD seen.isStatic⟩

/-- The token of a property. -/
def token (d : Document) (marker : String) (p : Property) : Traced PropertyToken := do
  let flags := p.flags d
  let value ← Traced.lift (p.value.normalize (valueTypeOr p.valueType p.type))
  let position ← d.locate p.name p.start
  pure { name := markedName marker flags.isReadonly p.name, type := typeOrAny p.type,
         value := value, visibility := Visibility.ofCode p.access, isStatic := flags.isStatic,
         isReadonly := flags.isReadonly, position := some position }

end Property

/-- The tokens of properties. -/
def propertyTokens (d : Document) (marker : String) (ps : List Property) :
    Traced (List PropertyToken) :=
  Traced.each (Property.token d marker) ps

/-- The name of constructors. -/
def ctorName : String := "constructor"

namespace Method

/-- Whether a method is static, read off the text if it is not known. -/
def staticFlag (m : Method) (d : Document) : Bool :=
  m.isStatic.getD (d.modifiers m.start m.stop).isStatic

/-- The token of a method. A constructor has no type. -/
def token (d : Document) (m : Method) : Traced MethodToken := do
  let arguments ← Traced.lift (argumentTokens m.parameters)
  let position ← d.locate m.name m.start
  pure { name := m.name, type := if m.name = ctorName then none else some (typeOrAny m.type),
         visibility := Visibility.ofCode m.access, isStatic := m.staticFlag d,
         arguments := arguments, position := some position }

end Method

/-- The tokens of methods. -/
def methodTokens (d : Document) (ms : List Method) : Traced (List MethodToken) :=
  Traced.each (Method.token d) ms

/-- The methods of a class, its constructor first and under its own name. -/
def ClassDecl.allMethods (c : ClassDecl) : List Method :=
  match c.ctor with
  | some m => { m with name := ctorName } :: c.methods
  | none => c.methods

/-- The token of a class. -/
def ClassDecl.token (d : Document) (config : Config) (c : ClassDecl) : Traced EntityToken := do
  let methods ← methodTokens d c.allMethods
  let properties ← propertyTokens d config.marker c.properties
  pure { name := c.name, visibility := Visibility.ofExported c.isExported,
         methods := some methods, properties := some properties }

/-- The token of an interface, which shows only its public properties. -/
def InterfaceDecl.token (d : Document) (config : Config) (i : InterfaceDecl) :
    Traced EntityToken := do
  let properties ← propertyTokens d config.marker i.properties
  let methods ← methodTokens d i.methods
  pure { name := i.name, visibility := Visibility.ofExported i.isExported,
         methods := some methods,
         properties := some (properties.filter (·.visibility = "public")) }

/-- The token of a variable. -/
def VariableDecl.token (d : Document) (config : Config) (v : VariableDecl) :
    Traced VariableToken := do
  let value ← Traced.lift (v.value.normalize (valueTypeOr v.valueType v.type))
  let position ← d.locate v.name v.start
  pure { name := markedName config.marker v.isConst v.name, type := typeOrAny v.type,
         value := value, visibility := Visibility.ofExported v.isExported,
         position := some position }

/-- The token of a function. A function of the top level needs no instance, so it
is static. -/
def FunctionDecl.token (d : Document) (f : FunctionDecl) : Traced MethodToken := do
  let arguments ← Traced.lift (argumentTokens f.parameters)
  let position ← d.locate f.name f.start
  pure { name := f.name, type := some (typeOrAny f.type),
         visibility := Visibility.ofExported f.isExported, isStatic := true,
         arguments := arguments, position := some position }

namespace Import

/-- The kind of an import, as notes name it. -/
def kindName : Import → String
  | .ofNamed _ => "RawNamedImport"
  | .ofNamespace _ => "RawNamespaceImport"
  | .ofDefault _ => "RawDefaultImport"
  | .ofBare _ => "RawStringImport"
  | .unknown => "object"

/-- The token of an import, if imports of its kind are outlined. -/
def token? (d : Document) : Import → Option ImportToken
  | .ofNamed i =>
      i.specifiers.map fun specifiers =>
        { name := i.library ++ ": " ++ ", ".intercalate (specifiers.map (·.name)),
          position := some (Range.empty (d.positionAt i.start)) }
  | .ofNamespace i =>
      some { name := i.library, position := some (Range.empty (d.positionAt i.start)),
             localName := some i.localName }
  | _ => none

end Import

end CodeOutline
