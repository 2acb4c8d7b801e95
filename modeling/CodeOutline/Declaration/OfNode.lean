import CodeOutline.Declaration
import CodeOutline.Literal.OfNode

/-!
# Declarations from syntax trees

The members and declarations that single nodes stand for, and the source unit of a
whole tree. A node without the parts that its declaration needs, such as a name,
declares nothing.
-/

namespace CodeOutline

namespace Node

/-! ## Parts of a declaration -/

/-- The characters that a node covers. -/
def offsets (s : SourceText) (n : Node) : Except Fault (Nat × Nat) := do
  let start ← s.offset n.start
  let stop ← s.offset n.stop
  pure (start, stop)

/-- The characters that a declaration covers, from its first part that is no
decorator on. -/
def span (s : SourceText) (n : Node) : Except Fault (Nat × Nat) := do
  let first := (n.children.find? (·.kind ≠ "decorator")).getD n
  let start ← s.offset first.start
  let stop ← s.offset n.stop
  pure (start, stop)

/-- A type annotation without its colon. -/
def typeText (s : SourceText) (n : Node) (field : String) : Except Fault (Option String) :=
  match n.child? field with
  | none => .ok none
  | some annotation =>
      match annotation.namedChildren.getLast? with
      | some type => (s.textOf type).map some
      | none => do
          let cs ← s.charsOf annotation
          let text := Text.trim Text.isBlank (cs.dropWhile (· = ':'))
          pure (if text.isEmpty then none else some (String.ofList text))

/-- Whether a keyword is among nodes, up to the first that starts at `limit` or
after it. -/
def keywordBefore (s : SourceText) (keyword : String) (limit : Option Nat) :
    List Node → Except Fault Bool
  | [] => .ok false
  | n :: rest =>
      if limit.any (· ≤ n.start) then .ok false
      else if n.kind = keyword then .ok true
      else do
        let text ← s.textOf n
        if text = keyword then pure true else keywordBefore s keyword limit rest

/-- Whether a keyword stands before the name of a member. -/
def hasModifier (s : SourceText) (n : Node) (keyword : String) : Except Fault Bool :=
  keywordBefore s keyword ((n.child? "name").map (·.start)) n.children

/-- The number of the visibility that a member is given, by a modifier or by a
name that is private. -/
def access (s : SourceText) (n : Node) : Except Fault (Option Int) :=
  match n.children.find? (·.kind = "accessibility_modifier") with
  | some modifier => do
      let text ← s.textOf modifier
      match Visibility.code? text with
      | some code => pure (some code)
      | none => .error .unknownAccess
  | none =>
      match n.child? "name" with
      | some name => .ok (if name.kind = "private_property_identifier" then some 0 else none)
      | none => .ok none

/-! ## Parameters -/

/-- A parameter with a pattern, a type and a default value. -/
def typedParameter (s : SourceText) (n : Node) : Except Fault (Option Parameter) :=
  match n.child? "pattern" with
  | none => .ok none
  | some pattern => do
      let init ← initializer s (n.child? "value")
      let name ← s.textOf pattern
      let (start, stop) ← n.offsets s
      let type ← n.typeText s "type"
      let access ← n.access s
      pure (some { name := name, start := start, stop := some (stop : Int), type := type,
                   value := init.value, valueType := init.kind, access := access })

/-- A parameter that is a name or a pattern alone. -/
def plainParameter (s : SourceText) (n : Node) : Except Fault Parameter := do
  let name ← s.textOf n
  let (start, stop) ← n.offsets s
  pure { name := name, start := start, stop := some (stop : Int) }

/-- A parameter with a default value and no type. -/
def assignedParameter (s : SourceText) (n : Node) : Except Fault Parameter := do
  let init ← initializer s (n.child? "right")
  let name ← s.textOf ((n.child? "left").getD n)
  let (start, stop) ← n.offsets s
  pure { name := name, start := start, stop := some (stop : Int), value := init.value,
         valueType := init.kind }

/-- The parameter that a node stands for. -/
def parameter (s : SourceText) (n : Node) : Except Fault (Option Parameter) :=
  if ["required_parameter", "optional_parameter"].contains n.kind then typedParameter s n
  else if ["identifier", "rest_pattern", "object_pattern", "array_pattern"].contains n.kind then
    (plainParameter s n).map some
  else if n.kind = "assignment_pattern" then (assignedParameter s n).map some
  else .ok none

/-- The results of `f` for each node that has one. -/
def collect {α : Type} (f : Node → Except Fault (Option α)) : List Node → Except Fault (List α)
  | [] => .ok []
  | n :: rest => do
      let item ← f n
      let items ← collect f rest
      pure (item.toList ++ items)

/-- The parameters of a function or method. -/
def parameters (s : SourceText) (n : Node) : Except Fault (List Parameter) :=
  match n.child? "parameters" with
  | none => .ok []
  | some list => collect (parameter s) list.namedChildren

/-! ## Members -/

/-- The method that a node stands for. -/
def method (s : SourceText) (n : Node) : Except Fault (Option Method) :=
  match n.child? "name" with
  | none => .ok none
  | some nameNode => do
      let (start, stop) ← n.span s
      let name ← s.textOf nameNode
      let type ← n.typeText s "return_type"
      let access ← n.access s
      let isStatic ← n.hasModifier s "static"
      let parameters ← n.parameters s
      pure (some { name := name, start := start, stop := some (stop : Int), type := type,
                   access := access, isStatic := some isStatic, parameters := parameters })

/-- The property that a node stands for. -/
def property (s : SourceText) (n : Node) : Except Fault (Option Property) :=
  match n.child? "name" with
  | none => .ok none
  | some nameNode => do
      let init ← initializer s (n.child? "value")
      let (start, stop) ← n.span s
      let name ← s.textOf nameNode
      let type ← n.typeText s "type"
      let access ← n.access s
      let isStatic ← n.hasModifier s "static"
      let isReadonly ← n.hasModifier s "readonly"
      pure (some { name := name, start := start, stop := some (stop : Int), type := type,
                   value := init.value, valueType := init.kind, access := access,
                   isStatic := some isStatic, isReadonly := some isReadonly })

/-- A member of a class or interface. -/
inductive Member where
  | ofMethod (decl : Method)
  | ofProperty (decl : Property)

namespace Member

/-- The method that a member is. -/
def method? : Member → Option Method
  | .ofMethod m => some m
  | .ofProperty _ => none

/-- The property that a member is. -/
def property? : Member → Option Property
  | .ofMethod _ => none
  | .ofProperty p => some p

end Member

/-- The member that a node stands for, given the kinds of node that are methods
and properties. -/
def member (s : SourceText) (methodKinds propertyKinds : List String) (n : Node) :
    Except Fault (Option Member) :=
  if methodKinds.contains n.kind then (n.method s).map (·.map .ofMethod)
  else if propertyKinds.contains n.kind then (n.property s).map (·.map .ofProperty)
  else .ok none

/-! ## Declarations -/

/-- The class that a node stands for. Of several constructors the last is kept. -/
def classDecl (s : SourceText) (exported : Bool) (n : Node) : Except Fault (Option ClassDecl) :=
  match n.child? "name", n.child? "body" with
  | some nameNode, some body => do
      let (start, stop) ← n.span s
      let name ← s.textOf nameNode
      let members ← collect
        (member s ["method_definition", "abstract_method_signature"] ["public_field_definition"])
        body.namedChildren
      let methods := members.filterMap Member.method?
      pure (some { name := name, start := start, stop := some (stop : Int), isExported := exported,
                   ctor := (methods.filter (·.name = "constructor")).getLast?,
                   methods := methods.filter (·.name ≠ "constructor"),
                   properties := members.filterMap Member.property? })
  | _, _ => .ok none

/-- The interface that a node stands for. -/
def interfaceDecl (s : SourceText) (exported : Bool) (n : Node) :
    Except Fault (Option InterfaceDecl) :=
  match n.child? "name", n.child? "body" with
  | some nameNode, some body => do
      let (start, stop) ← n.span s
      let name ← s.textOf nameNode
      let members ← collect (member s ["method_signature"] ["property_signature"])
        body.namedChildren
      pure (some { name := name, start := start, stop := some (stop : Int), isExported := exported,
                   methods := members.filterMap Member.method?,
                   properties := members.filterMap Member.property? })
  | _, _ => .ok none

/-- The function that a node stands for. -/
def functionDecl (s : SourceText) (exported : Bool) (n : Node) :
    Except Fault (Option FunctionDecl) :=
  match n.child? "name" with
  | none => .ok none
  | some nameNode => do
      let (start, stop) ← n.span s
      let name ← s.textOf nameNode
      let type ← n.typeText s "return_type"
      let parameters ← n.parameters s
      pure (some { name := name, start := start, stop := some (stop : Int), type := type,
                   isExported := exported, parameters := parameters })

/-- The variable that a declarator stands for. -/
def variableDecl (s : SourceText) (exported isConst : Bool) (n : Node) :
    Except Fault (Option VariableDecl) :=
  if n.kind ≠ "variable_declarator" then .ok none
  else
    match n.child? "name" with
    | none => .ok none
    | some nameNode => do
        let init ← initializer s (n.child? "value")
        let (start, stop) ← n.span s
        let name ← s.textOf nameNode
        let type ← n.typeText s "type"
        pure (some { name := name, start := start, stop := some (stop : Int), type := type,
                     value := init.value, valueType := init.kind, isExported := exported,
                     isConst := isConst })

/-- Whether the keyword of a variable statement, its first part unless a field
says otherwise, makes constants. -/
def declaresConstants (s : SourceText) (n : Node) : Except Fault Bool :=
  match (n.child? "kind").or n.children.head? with
  | none => .ok false
  | some keyword => do
      let text ← s.textOf keyword
      pure (text = "const")

/-- The variables that a statement declares. -/
def variableDecls (s : SourceText) (exported : Bool) (n : Node) :
    Except Fault (List VariableDecl) := do
  let isConst ← n.declaresConstants s
  collect (variableDecl s exported isConst) n.namedChildren

/-! ## Imports of a syntax tree

What an import statement brings in is said by its clause: a default member, a
whole library or single names. A statement without clause imports a library for
its effects. -/

/-- The name, and the other name if there is one, of an imported member. -/
def specifier (s : SourceText) (n : Node) : Except Fault (Option Specifier) :=
  if n.kind ≠ "import_specifier" then .ok none
  else
    match n.child? "name" with
    | none => .error .missingText
    | some nameNode => do
        let name ← s.textOf nameNode
        match n.child? "alias" with
        | none => pure (some ⟨name, none⟩)
        | some aliasNode => do
            let localName ← s.textOf aliasNode
            pure (some ⟨name, some localName⟩)

/-- The import that the parts of a clause make. `defaultName` is the name that the
parts before gave to the default member. -/
def clauseImport (s : SourceText) (library : String) (start stop : Nat)
    (defaultName : Option String) :
    List Node → Except Fault (Option Import)
  | [] =>
      .ok (defaultName.map fun name => .ofDefault ⟨library, name, start, some (stop : Int)⟩)
  | n :: rest =>
      if n.kind = "identifier" then do
        let name ← s.textOf n
        clauseImport s library start stop (some name) rest
      else if n.kind = "namespace_import" then
        match n.namedChildren.find? (·.kind = "identifier") with
        | none => .ok (some (.ofNamespace ⟨library, "", start, some (stop : Int)⟩))
        | some nameNode => do
            let name ← s.textOf nameNode
            pure (some (.ofNamespace ⟨library, name, start, some (stop : Int)⟩))
      else if n.kind = "named_imports" then do
        let specifiers ← collect (specifier s) n.namedChildren
        pure (some (.ofNamed ⟨library, start, some (stop : Int), some specifiers, defaultName⟩))
      else clauseImport s library start stop defaultName rest

/-- The import that a statement stands for. -/
def importDecl (s : SourceText) (n : Node) : Except Fault (Option Import) :=
  match n.child? "source" with
  | none => .ok none
  | some source => do
      let library ← s.innerTextOf source
      let (start, stop) ← n.offsets s
      match n.namedChildren.find? (·.kind = "import_clause") with
      | none => pure (some (.ofBare ⟨library, start, some (stop : Int)⟩))
      | some clause => clauseImport s library start stop none clause.namedChildren

/-! ## Source units of a syntax tree

Statements are read one after another and their declarations and imports put
together in order. A statement inside an export statement is exported, one
inside an ambient declaration is read as if it stood alone. Regions that could
not be parsed and statements that declare nothing leave a note. -/

/-- The kinds of statement that are passed over without a note. -/
def silentKinds : List String := ["comment", "expression_statement", "empty_statement"]

mutual

/-- What a statement declares and imports. -/
def statement (s : SourceText) (exported : Bool) : Node → Traced SourceUnit
  | ⟨kind, named, start, stop, field, children⟩ =>
      let n : Node := ⟨kind, named, start, stop, field, children⟩
      if kind = "ERROR" then Traced.noting [.unparsableRegion start] {}
      else if kind = "import_statement" then do
        let decl ← Traced.lift (n.importDecl s)
        pure (.importing decl)
      else if kind = "export_statement" then
        if (withField? "declaration" children).isSome then
          statementIn s "declaration" children
        else statementIn s "value" children
      else if kind = "ambient_declaration" then namedStatements s exported children
      else if kind = "class_declaration" ∨ kind = "abstract_class_declaration" then do
        let decl ← Traced.lift (n.classDecl s exported)
        pure ⟨(decl.map .ofClass).toList, []⟩
      else if kind = "interface_declaration" then do
        let decl ← Traced.lift (n.interfaceDecl s exported)
        pure ⟨(decl.map .ofInterface).toList, []⟩
      else if kind = "function_declaration" ∨ kind = "generator_function_declaration" then do
        let decl ← Traced.lift (n.functionDecl s exported)
        pure ⟨(decl.map .ofFunction).toList, []⟩
      else if kind = "lexical_declaration" ∨ kind = "variable_declaration" then do
        let decls ← Traced.lift (n.variableDecls s exported)
        pure ⟨decls.map .ofVariable, []⟩
      else if named && !silentKinds.contains kind then Traced.noting [.ignoredStatement kind] {}
      else pure {}

/-- What the named ones among statements declare and import. -/
def namedStatements (s : SourceText) (exported : Bool) : List Node → Traced SourceUnit
  | [] => pure {}
  | n :: rest =>
      if n.named then do
        let first ← statement s exported n
        let others ← namedStatements s exported rest
        pure (first ++ others)
      else namedStatements s exported rest

/-- What the first node with a field name declares, exported. -/
def statementIn (s : SourceText) (field : String) : List Node → Traced SourceUnit
  | [] => pure {}
  | n :: rest => if n.field = some field then statement s true n else statementIn s field rest

end

/-- What a program declares and imports. -/
def sourceUnit (s : SourceText) (program : Node) : Traced SourceUnit := do
  let units ← Traced.each (statement s false) program.children
  pure (SourceUnit.concat units)

end Node

/-- What a source text declares and imports, by its syntax tree. -/
def SourceUnit.ofTree (text : String) (tree : Node) : Traced SourceUnit :=
  tree.sourceUnit (SourceText.ofString text)

end CodeOutline
