import CodeOutline.Proofs.Literal.Writable
import CodeOutline.Proofs.Outline.Conservation

/-!
# Sound trees are outlined

From a sound syntax tree a source unit is always read, and every outline of that unit is
made: no statement, whatever stands inside of it, ends the reading in a fault. Regions that
could not be parsed and nodes of unknown kinds are no exception.

Reading goes node by node. What is read of a default value has a canonical text, which is all
that the tokens of a declaration ask for.
-/

namespace CodeOutline

/-! ## Parts of a declaration -/

theorem Visibility.exists_code? {text : String} (h : text ∈ names) :
    ∃ code, code? text = some code := by
  simp only [names, List.mem_cons, List.not_mem_nil, or_false] at h
  rcases h with rfl | rfl | rfl
  · exact ⟨0, rfl⟩
  · exact ⟨1, rfl⟩
  · exact ⟨2, rfl⟩

namespace Node

variable {s : SourceText} {n : Node}

theorem yields_offsets (h : n.SoundTree s) : Yields (n.offsets s) fun _ => True := by
  refine (yields_offset h.sound.bounds.1).bind fun start _ => ?_
  refine (yields_offset h.sound.bounds.2).bind fun stop _ => ?_
  exact .ok trivial

/-- The span of a node can be told. It starts after the decorators, at a child that is sound as
well. -/
theorem yields_span (h : n.SoundTree s) : Yields (n.span s) fun _ => True := by
  have hfirst : ((n.children.find? (·.kind ≠ "decorator")).getD n).SoundTree s := by
    cases hfound : n.children.find? (·.kind ≠ "decorator") with
    | none => exact h
    | some c => exact h.of_mem (List.mem_of_find?_eq_some hfound)
  refine (yields_offset hfirst.sound.bounds.1).bind fun start _ => ?_
  refine (yields_offset h.sound.bounds.2).bind fun stop _ => ?_
  exact .ok trivial

theorem yields_typeText (h : n.SoundTree s) (field : String) :
    Yields (n.typeText s field) fun _ => True := by
  rw [typeText]
  cases hannotation : n.child? field with
  | none => exact .ok trivial
  | some annotation =>
    have hsound := h.of_child? hannotation
    cases htype : annotation.namedChildren.getLast? with
    | some type =>
      have hmem := List.mem_of_getLast? htype
      simp only [htype]
      exact (yields_textOf (hsound.of_mem_namedChildren hmem)).map fun _ _ => trivial
    | none =>
      simp only [htype]
      exact (yields_charsOf hsound).bind fun cs _ => .ok trivial

theorem yields_keywordBefore (keyword : String) (limit : Option Nat) {nodes : List Node}
    (h : ∀ n ∈ nodes, n.SoundTree s) :
    Yields (keywordBefore s keyword limit nodes) fun _ => True := by
  induction nodes with
  | nil => exact .ok trivial
  | cons n rest ih =>
    have hrest := ih fun m hm => h m (List.mem_cons_of_mem n hm)
    rw [keywordBefore]
    split
    · exact .ok trivial
    split
    · exact .ok trivial
    · refine (yields_textOf (h n (by simp))).bind fun text _ => ?_
      split
      · exact .ok trivial
      · exact hrest

theorem yields_hasModifier (h : n.SoundTree s) (keyword : String) :
    Yields (n.hasModifier s keyword) fun _ => True :=
  yields_keywordBefore keyword _ fun _ hc => h.of_mem hc

/-- The access of a member can be told: the text of its modifier is the name of a visibility. -/
theorem yields_access (h : n.SoundTree s) : Yields (n.access s) fun _ => True := by
  rw [access]
  split
  · rename_i modifier hfound
    have hsound := h.of_mem (List.mem_of_find?_eq_some hfound)
    have hkind : modifier.kind = "accessibility_modifier" := by
      simpa using List.find?_some hfound
    refine (yields_textOf hsound).bind fun text htext => ?_
    -- the text is the name of a visibility, so that it has a number
    obtain ⟨code, hcode⟩ := Visibility.exists_code? (hsound.sound.modifier hkind text htext)
    rw [hcode]
    exact .ok trivial
  · split
    · exact .ok trivial
    · exact .ok trivial

/-- Collecting from nodes gives items if each node gives one or none, and what each item has on
its own all of them have. -/
theorem yields_collect {α : Type} {f : Node → Except Fault (Option α)} {P : α → Prop}
    {nodes : List Node} (h : ∀ n ∈ nodes, Yields (f n) fun item => ∀ a ∈ item, P a) :
    Yields (collect f nodes) fun items => ∀ a ∈ items, P a := by
  induction nodes with
  | nil => exact .ok (by simp)
  | cons n rest ih =>
    refine (h n (by simp)).bind fun item hitem => ?_
    refine (ih fun m hm => h m (List.mem_cons_of_mem n hm)).bind fun items hitems => ?_
    refine .ok ?_
    intro a ha
    rcases List.mem_append.mp ha with ha | ha
    · exact hitem a (Option.mem_toList.mp ha)
    · exact hitems a ha

/-! ## Parameters and members -/

theorem yields_typedParameter (h : n.SoundTree s) :
    Yields (typedParameter s n) fun item => ∀ p ∈ item, p.value.HasText p.valueType := by
  rw [typedParameter]
  cases hpattern : n.child? "pattern" with
  | none => exact .ok (by simp)
  | some pattern =>
    refine (yields_initializer fun c hc => h.of_child? hc).bind fun init hinit => ?_
    refine (yields_textOf (h.of_child? hpattern)).bind fun name _ => ?_
    refine (yields_offsets h).bind fun offsets _ => ?_
    refine (yields_typeText h "type").bind fun type _ => ?_
    refine (yields_access h).bind fun access _ => ?_
    exact .ok (by simpa using hinit)

theorem yields_plainParameter (h : n.SoundTree s) :
    Yields (plainParameter s n) fun p => p.value.HasText p.valueType := by
  refine (yields_textOf h).bind fun name _ => ?_
  refine (yields_offsets h).bind fun offsets _ => ?_
  exact .ok (Literal.hasText_null none)

theorem yields_assignedParameter (h : n.SoundTree s) :
    Yields (assignedParameter s n) fun p => p.value.HasText p.valueType := by
  have hleft : ((n.child? "left").getD n).SoundTree s := by
    cases hfound : n.child? "left" with
    | none => exact h
    | some c => exact h.of_child? hfound
  refine (yields_initializer fun c hc => h.of_child? hc).bind fun init hinit => ?_
  refine (yields_textOf hleft).bind fun name _ => ?_
  refine (yields_offsets h).bind fun offsets _ => ?_
  exact .ok hinit

theorem yields_parameter (h : n.SoundTree s) :
    Yields (parameter s n) fun item => ∀ p ∈ item, p.value.HasText p.valueType := by
  rw [parameter]
  split
  · exact yields_typedParameter h
  split
  · exact (yields_plainParameter h).map fun p hp => by simpa using hp
  split
  · exact (yields_assignedParameter h).map fun p hp => by simpa using hp
  · exact .ok (by simp)

theorem yields_parameters (h : n.SoundTree s) :
    Yields (n.parameters s) fun ps => ∀ p ∈ ps, p.value.HasText p.valueType := by
  rw [parameters]
  cases hlist : n.child? "parameters" with
  | none => exact .ok (by simp)
  | some list =>
    exact yields_collect fun c hc =>
      yields_parameter ((h.of_child? hlist).of_mem_namedChildren hc)

/-- A method is read in a sound tree, with parameters whose default values have texts. -/
theorem yields_method (h : n.SoundTree s) :
    Yields (n.method s) fun item =>
      ∀ m ∈ item, ∀ p ∈ m.parameters, p.value.HasText p.valueType := by
  rw [method]
  cases hname : n.child? "name" with
  | none => exact .ok (by simp)
  | some nameNode =>
    refine (yields_span h).bind fun span _ => ?_
    refine (yields_textOf (h.of_child? hname)).bind fun name _ => ?_
    refine (yields_typeText h "return_type").bind fun type _ => ?_
    refine (yields_access h).bind fun access _ => ?_
    refine (yields_hasModifier h "static").bind fun isStatic _ => ?_
    refine (yields_parameters h).bind fun parameters hparameters => ?_
    exact .ok (by simpa using hparameters)

theorem yields_property (h : n.SoundTree s) :
    Yields (n.property s) fun item => ∀ p ∈ item, p.value.HasText p.valueType := by
  rw [property]
  cases hname : n.child? "name" with
  | none => exact .ok (by simp)
  | some nameNode =>
    refine (yields_initializer fun c hc => h.of_child? hc).bind fun init hinit => ?_
    refine (yields_span h).bind fun span _ => ?_
    refine (yields_textOf (h.of_child? hname)).bind fun name _ => ?_
    refine (yields_typeText h "type").bind fun type _ => ?_
    refine (yields_access h).bind fun access _ => ?_
    refine (yields_hasModifier h "static").bind fun isStatic _ => ?_
    refine (yields_hasModifier h "readonly").bind fun isReadonly _ => ?_
    exact .ok (by simpa using hinit)

/-- The members of a body are read. -/
theorem yields_members (h : n.SoundTree s) (methodKinds propertyKinds : List String) :
    Yields (collect (member s methodKinds propertyKinds) n.namedChildren) fun _ => True := by
  have hmember : ∀ c ∈ n.namedChildren,
      Yields (c.member s methodKinds propertyKinds) fun item => ∀ m ∈ item, True := by
    intro c hc
    have hsound := h.of_mem_namedChildren hc
    rw [member]
    split
    · exact (yields_method hsound).map fun _ _ => by simp
    split
    · exact (yields_property hsound).map fun _ _ => by simp
    · exact .ok (by simp)
  exact (yields_collect hmember).imp fun _ _ => trivial

/-! ## Declarations -/

/-- A class is read in a sound tree, as each of its methods and properties is. -/
theorem yields_classDecl (h : n.SoundTree s) (exported : Bool) :
    Yields (n.classDecl s exported) fun _ => True := by
  rw [classDecl]
  split
  · rename_i nameNode body hname hbody
    refine (yields_span h).bind fun span _ => ?_
    refine (yields_textOf (h.of_child? hname)).bind fun name _ => ?_
    refine (yields_members (h.of_child? hbody) _ _).bind fun members _ => ?_
    exact .ok trivial
  · exact .ok trivial

theorem yields_interfaceDecl (h : n.SoundTree s) (exported : Bool) :
    Yields (n.interfaceDecl s exported) fun _ => True := by
  rw [interfaceDecl]
  split
  · rename_i nameNode body hname hbody
    refine (yields_span h).bind fun span _ => ?_
    refine (yields_textOf (h.of_child? hname)).bind fun name _ => ?_
    refine (yields_members (h.of_child? hbody) _ _).bind fun members _ => ?_
    exact .ok trivial
  · exact .ok trivial

theorem yields_functionDecl (h : n.SoundTree s) (exported : Bool) :
    Yields (n.functionDecl s exported) fun item =>
      ∀ f ∈ item, ∀ p ∈ f.parameters, p.value.HasText p.valueType := by
  rw [functionDecl]
  cases hname : n.child? "name" with
  | none => exact .ok (by simp)
  | some nameNode =>
    refine (yields_span h).bind fun span _ => ?_
    refine (yields_textOf (h.of_child? hname)).bind fun name _ => ?_
    refine (yields_typeText h "return_type").bind fun type _ => ?_
    refine (yields_parameters h).bind fun parameters hparameters => ?_
    exact .ok (by simpa using hparameters)

theorem yields_variableDecl (h : n.SoundTree s) (exported isConst : Bool) :
    Yields (n.variableDecl s exported isConst) fun item =>
      ∀ v ∈ item, v.value.HasText v.valueType := by
  rw [variableDecl]
  split
  · exact .ok (by simp)
  cases hname : n.child? "name" with
  | none => exact .ok (by simp)
  | some nameNode =>
    refine (yields_initializer fun c hc => h.of_child? hc).bind fun init hinit => ?_
    refine (yields_span h).bind fun span _ => ?_
    refine (yields_textOf (h.of_child? hname)).bind fun name _ => ?_
    refine (yields_typeText h "type").bind fun type _ => ?_
    exact .ok (by simpa using hinit)

theorem yields_declaresConstants (h : n.SoundTree s) :
    Yields (n.declaresConstants s) fun _ => True := by
  rw [declaresConstants]
  split
  · exact .ok trivial
  · rename_i keyword hkeyword
    have hsound : keyword.SoundTree s := by
      rcases Option.or_eq_some_iff.mp hkeyword with hfield | ⟨-, hhead⟩
      · exact h.of_child? hfield
      · exact h.of_mem (List.mem_of_mem_head? hhead)
    exact (yields_textOf hsound).bind fun text _ => .ok trivial

theorem yields_variableDecls (h : n.SoundTree s) (exported : Bool) :
    Yields (n.variableDecls s exported) fun _ => True := by
  refine (yields_declaresConstants h).bind fun isConst _ => ?_
  have hdecls := yields_collect fun c hc =>
    yields_variableDecl (h.of_mem_namedChildren hc) exported isConst
  exact hdecls.imp fun _ _ => trivial

/-! ## Imports -/

/-- An imported member is read in a sound tree, as there it has a name. -/
theorem yields_specifier (h : n.SoundTree s) : Yields (n.specifier s) fun _ => True := by
  rw [specifier]
  split
  · exact .ok trivial
  · rename_i hkind
    obtain ⟨nameNode, hname⟩ := Option.isSome_iff_exists.mp (h.sound.specifier (not_not.mp hkind))
    simp only [hname]
    refine (yields_textOf (h.of_child? hname)).bind fun name _ => ?_
    split
    · exact .ok trivial
    · rename_i aliasNode halias
      exact (yields_textOf (h.of_child? halias)).bind fun localName _ => .ok trivial

/-- The clause of an import is read in a sound tree, node by node up to the one that tells the
kind of the import. -/
theorem yields_clauseImport (library : String) (start stop : Nat) (defaultName : Option String)
    {nodes : List Node} (h : ∀ n ∈ nodes, n.SoundTree s) :
    Yields (clauseImport s library start stop defaultName nodes) fun _ => True := by
  induction nodes generalizing defaultName with
  | nil => exact .ok trivial
  | cons n rest ih =>
    have hn := h n (by simp)
    have hrest := fun name => ih name fun m hm => h m (List.mem_cons_of_mem n hm)
    rw [clauseImport]
    split
    · exact (yields_textOf hn).bind fun name _ => hrest (some name)
    split
    · split
      · exact .ok trivial
      · rename_i nameNode hname
        have hmem := List.mem_of_find?_eq_some hname
        exact (yields_textOf (hn.of_mem_namedChildren hmem)).bind fun name _ => .ok trivial
    split
    · have hspecifiers : Yields (collect (specifier s) n.namedChildren) fun items =>
          ∀ item ∈ items, True :=
        yields_collect fun c hc =>
          (yields_specifier (hn.of_mem_namedChildren hc)).imp fun _ _ => by simp
      exact hspecifiers.bind fun specifiers _ => .ok trivial
    · exact hrest defaultName

theorem yields_importDecl (h : n.SoundTree s) : Yields (n.importDecl s) fun _ => True := by
  rw [importDecl]
  split
  · exact .ok trivial
  · rename_i source hsource
    refine (yields_innerTextOf (h.of_child? hsource)).bind fun library _ => ?_
    refine (yields_offsets h).bind fun offsets _ => ?_
    cases hclause : n.namedChildren.find? (·.kind = "import_clause") with
    | none => exact .ok trivial
    | some clause =>
      have hsound := h.of_mem_namedChildren (List.mem_of_find?_eq_some hclause)
      exact yields_clauseImport library _ _ none fun c hc => hsound.of_mem_namedChildren hc

/-! ## Statements -/

theorem yields_statements {exported : Bool} {nodes : List Node}
    (h : ∀ n ∈ nodes, Yields (statement s exported n).result fun _ => True) :
    Yields (statements s exported nodes).result fun _ => True := by
  refine Traced.yields_bind (Traced.yields_each h) ?_
  intro units _
  exact .ok trivial

/-- Every statement of a sound tree is read. The induction is on the tree: wrappers are read for
the statements inside of them. -/
theorem yields_statement (h : n.SoundTree s) (exported : Bool) :
    Yields (statement s exported n).result fun _ => True := by
  induction n using childrenInduction generalizing exported with
  | node n ih =>
    have hview := statementView s exported n
    generalize statement s exported n = read at hview
    cases hview with
    | nothing => exact .ok trivial
    | ofImport => exact Traced.yields_bind (yields_importDecl h) fun _ _ => .ok trivial
    | exporting c hkind hc =>
      have hmem := mem_children_of_exported? hc
      exact ih c hmem (h.of_mem hmem) true
    | ambient =>
      refine yields_statements fun c hc => ?_
      exact ih c (List.mem_of_mem_filter hc) (h.of_mem_namedChildren hc) exported
    | ofClass => exact Traced.yields_bind (yields_classDecl h exported) fun _ _ => .ok trivial
    | ofInterface =>
      exact Traced.yields_bind (yields_interfaceDecl h exported) fun _ _ => .ok trivial
    | ofFunction => exact Traced.yields_bind (yields_functionDecl h exported) fun _ _ => .ok trivial
    | ofVariables =>
      exact Traced.yields_bind (yields_variableDecls h exported) fun _ _ => .ok trivial

end Node

theorem SourceUnit.yields_ofTree {text : String} {tree : Node}
    (h : tree.SoundTree (.ofString text)) :
    Yields (SourceUnit.ofTree text tree).result fun _ => True :=
  Node.yields_statements fun _ hc => Node.yields_statement (h.of_mem hc) false

/-! ## Tokens -/

section Tokens

variable {d : Document} {config : Config} {s : SourceText}

theorem yields_argumentTokens {ps : List Parameter}
    (h : ∀ p ∈ ps, p.value.HasText p.valueType) : Yields (argumentTokens ps) fun _ => True := by
  induction ps with
  | nil => exact .ok trivial
  | cons p rest ih =>
    have hp : Yields p.token fun _ => True :=
      (h p (by simp) p.type).bind fun value _ => .ok trivial
    rw [argumentTokens, List.mapM_cons]
    refine hp.bind fun token _ => ?_
    refine (ih fun q hq => h q (List.mem_cons_of_mem p hq)).bind fun tokens _ => ?_
    exact .ok trivial

theorem Method.yields_token {m : Method} (h : ∀ p ∈ m.parameters, p.value.HasText p.valueType) :
    Yields (m.token d).result fun _ => True :=
  Traced.yields_bind (yields_argumentTokens h) fun _ _ => .ok trivial

theorem Property.yields_token {marker : String} {p : Property}
    (h : p.value.HasText p.valueType) : Yields (p.token d marker).result fun _ => True :=
  Traced.yields_bind (h p.type) fun _ _ => .ok trivial

theorem VariableDecl.yields_token {v : VariableDecl} (h : v.value.HasText v.valueType) :
    Yields (v.token d config).result fun _ => True :=
  Traced.yields_bind (h v.type) fun _ _ => .ok trivial

theorem FunctionDecl.yields_token {f : FunctionDecl}
    (h : ∀ p ∈ f.parameters, p.value.HasText p.valueType) :
    Yields (f.token d).result fun _ => True :=
  Traced.yields_bind (yields_argumentTokens h) fun _ _ => .ok trivial

/-- The members that are read from nodes of a sound tree have tokens. -/
theorem yields_memberTokens {tree : Node} {marker : String} {methods : List Method}
    {properties : List Property} (htree : tree.SoundTree s)
    (h : (∀ m ∈ methods, ∃ k : Node, k.Within tree ∧ k.method s = .ok (some m)) ∧
      ∀ p ∈ properties, ∃ k : Node, k.Within tree ∧ k.property s = .ok (some p)) :
    (Yields (methodTokens d methods).result fun _ => True) ∧
      Yields (propertyTokens d marker properties).result fun _ => True := by
  constructor
  · refine Traced.yields_each ?_
    intro m hm
    obtain ⟨k, hk, hread⟩ := h.1 m hm
    exact Method.yields_token ((Node.yields_method (htree.within hk)).of_eq_ok hread m rfl)
  · refine Traced.yields_each ?_
    intro p hp
    obtain ⟨k, hk, hread⟩ := h.2 p hp
    exact Property.yields_token ((Node.yields_property (htree.within hk)).of_eq_ok hread p rfl)

/-- A class that was read in a sound tree has a token: its members were read there too, so that
their default values have texts. -/
theorem ClassDecl.yields_token {exported : Bool} {c : ClassDecl} {n : Node} (hn : n.SoundTree s)
    (h : n.classDecl s exported = .ok (some c)) :
    Yields (c.token d config).result fun _ => True := by
  obtain ⟨hmethods, hproperties⟩ := yields_memberTokens hn (Node.classDecl_origin h)
  refine Traced.yields_bind hmethods fun methods _ => ?_
  exact Traced.yields_bind hproperties fun properties _ => .ok trivial

theorem InterfaceDecl.yields_token {exported : Bool} {i : InterfaceDecl} {n : Node}
    (hn : n.SoundTree s) (h : n.interfaceDecl s exported = .ok (some i)) :
    Yields (i.token d config).result fun _ => True := by
  obtain ⟨hmethods, hproperties⟩ := yields_memberTokens hn (Node.interfaceDecl_origin h)
  refine Traced.yields_bind hproperties fun properties _ => ?_
  exact Traced.yields_bind hmethods fun methods _ => .ok trivial

/-- A declaration that is read from a sound node has a token. -/
theorem Declaration.yields_token {dec : Declaration} {n : Node} (hn : n.SoundTree s)
    (h : dec.ReadFrom s n) : Yields (dec.token d config).result fun _ => True := by
  cases dec with
  | ofClass c =>
    obtain ⟨exported, hread⟩ := h
    exact Traced.yields_bind (ClassDecl.yields_token hn hread) fun _ _ => .ok trivial
  | ofInterface i =>
    obtain ⟨exported, hread⟩ := h
    exact Traced.yields_bind (InterfaceDecl.yields_token hn hread) fun _ _ => .ok trivial
  | ofVariable v =>
    obtain ⟨exported, isConst, hread⟩ := h
    have htext := (Node.yields_variableDecl hn exported isConst).of_eq_ok hread v rfl
    exact Traced.yields_bind (VariableDecl.yields_token htext) fun _ _ => .ok trivial
  | ofFunction f =>
    obtain ⟨exported, hread⟩ := h
    have htexts := (Node.yields_functionDecl hn exported).of_eq_ok hread f rfl
    exact Traced.yields_bind (FunctionDecl.yields_token htexts) fun _ _ => .ok trivial
  | unknown => exact .ok trivial

end Tokens

/-! ## Outlines -/

/-- What was read in a sound tree is outlined over any document and with any configuration. -/
theorem Outline.yields_ofUnit {text : String} {tree : Node} {unit : SourceUnit}
    (htree : tree.SoundTree (.ofString text))
    (hunit : (SourceUnit.ofTree text tree).result = .ok unit) (d : Document) (config : Config) :
    Yields (Outline.ofUnit d config unit).result fun _ => True := by
  have hdeclared : ∀ dec ∈ unit.declarations, Yields (dec.token d config).result fun _ => True := by
    intro dec hdec
    obtain ⟨n, hn, hread⟩ := SourceUnit.readWithin_ofTree hunit dec hdec
    exact Declaration.yields_token (htree.within hn) hread
  have himported : ∀ i ∈ unit.imports, Yields (i.token d).result fun _ => True :=
    fun i _ => ⟨_, i.result_token d, trivial⟩
  refine Traced.yields_bind (Traced.yields_each hdeclared) fun declared _ => ?_
  exact Traced.yields_bind (Traced.yields_each himported) fun imported _ => .ok trivial

/-- From a sound syntax tree a source unit is read, and with any configuration it has an
outline and the outline a record. -/
theorem Outline.exists_record_of_soundTree {text : String} {tree : Node}
    (htree : tree.SoundTree (.ofString text)) :
    ∃ unit, (SourceUnit.ofTree text tree).result = .ok unit ∧
      ∀ (d : Document) (config : Config), ∃ o, (Outline.ofUnit d config unit).result = .ok o ∧
        o.record = .obj
          (("strict", .bool d.isStrict) :: Section.all.filterMap o.sectionRecord) := by
  obtain ⟨unit, hunit, -⟩ := SourceUnit.yields_ofTree htree
  refine ⟨unit, hunit, ?_⟩
  intro d config
  obtain ⟨o, ho, -⟩ := Outline.yields_ofUnit htree hunit d config
  refine ⟨o, ho, ?_⟩
  rw [Outline.record, (Outline.conserves_of_result ho).strict]

/-! ## An example -/

/-- A text with a region that is no statement, between a class whose property is given an
object and an import from a library with a character of two bytes in its name. -/
def strayText : String :=
  "class A \x7b private b = \x7bk: -1\x7d \x7d\n?? import \x7ba\x7d from 'é'"

/-- The syntax tree of `strayText`. -/
def strayTree : Node :=
  ⟨"program", true, 0, 55, none,
    [⟨"class_declaration", true, 0, 31, none,
       [⟨"type_identifier", true, 6, 7, some "name", []⟩,
        ⟨"class_body", true, 8, 31, some "body",
          [⟨"public_field_definition", true, 10, 29, none,
            [⟨"accessibility_modifier", true, 10, 17, none, []⟩,
             ⟨"property_identifier", true, 18, 19, some "name", []⟩,
             ⟨"object", true, 22, 29, some "value",
               [⟨"pair", true, 23, 28, none,
                 [⟨"property_identifier", true, 23, 24, some "key", []⟩,
                  ⟨"unary_expression", true, 26, 28, some "value",
                    [⟨"number", true, 27, 28, some "argument", []⟩]⟩]⟩]⟩]⟩]⟩]⟩,
     ⟨"ERROR", true, 32, 34, none, [⟨"??", false, 32, 34, none, []⟩]⟩,
     ⟨"import_statement", true, 35, 55, none,
       [⟨"import_clause", true, 42, 45, none,
         [⟨"named_imports", true, 42, 45, none,
           [⟨"import_specifier", true, 43, 44, none,
             [⟨"identifier", true, 43, 44, some "name", []⟩]⟩]⟩]⟩,
        ⟨"string", true, 51, 55, some "source", []⟩]⟩]⟩

theorem soundTree_strayTree : strayTree.SoundTree (.ofString strayText) := by
  simp only [strayTree, Node.soundTree_mk_iff, List.forall_mem_cons, List.not_mem_nil,
    false_imp_iff, implies_true, and_true]
  decide +kernel

theorem exists_record_broken :
    strayTree.SoundTree (.ofString strayText) ∧
      ∃ unit, (SourceUnit.ofTree strayText strayTree).result = .ok unit ∧
        unit.declarations.length = 1 ∧ unit.imports.length = 1 ∧
        ∀ (d : Document) (config : Config), ∃ o, (Outline.ofUnit d config unit).result = .ok o ∧
          o.record = .obj
            (("strict", .bool d.isStrict) :: Section.all.filterMap o.sectionRecord) := by
  obtain ⟨unit, hunit, houtline⟩ := Outline.exists_record_of_soundTree soundTree_strayTree
  have hread : unit.declarations.length = 1 ∧ unit.imports.length = 1 := by
    cases hunit
    exact ⟨rfl, rfl⟩
  exact ⟨soundTree_strayTree, unit, hunit, hread.1, hread.2, houtline⟩

end CodeOutline
