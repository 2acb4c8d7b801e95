import CodeOutline.Proofs.Declaration.Statement
import CodeOutline.Token.OfDeclaration

/-!
# Where declarations come from

Each declaration of a source unit was read from a node of the syntax tree, and so
was each member of a class or interface. What is read from a node under a name has
the text of its name part for a name, and starts where its span does.
-/

namespace CodeOutline

/-! ## Nodes of a tree -/

/-- A node of a tree: the tree itself, or a node of one of its children. -/
inductive Node.Within : Node → Node → Prop where
  | self (n : Node) : Within n n
  | child {m c n : Node} (hc : c ∈ n.children) (h : Within m c) : Within m n

namespace Node

theorem within_mk_iff {m : Node} {kind : String} {named : Bool} {start stop : Nat}
    {field : Option String} {children : List Node} :
    m.Within ⟨kind, named, start, stop, field, children⟩ ↔
      m = ⟨kind, named, start, stop, field, children⟩ ∨ ∃ c ∈ children, m.Within c := by
  constructor
  · intro h
    cases h with
    | self => exact .inl rfl
    | child hc h => exact .inr ⟨_, hc, h⟩
  · rintro (rfl | ⟨c, hc, h⟩)
    · exact .self _
    · exact .child hc h

theorem Within.trans {m c n : Node} (h : m.Within c) (h' : c.Within n) : m.Within n := by
  induction h' with
  | self => exact h
  | child hc _ ih => exact .child hc ih

theorem Within.of_mem {c n : Node} (hc : c ∈ n.children) : c.Within n :=
  .child hc (.self c)

theorem Within.of_child? {c n : Node} {field : String} (h : n.child? field = some c) :
    c.Within n :=
  .of_mem (List.mem_of_find?_eq_some h)

theorem Within.of_mem_namedChildren {c n : Node} (h : c ∈ n.namedChildren) : c.Within n :=
  .of_mem (List.mem_of_mem_filter h)

/-! ## Members -/

/-- Each item that is collected was read from one of the nodes. -/
theorem exists_of_mem_collect {α : Type} {f : Node → Except Fault (Option α)} {nodes : List Node}
    {items : List α} (h : collect f nodes = .ok items) {item : α} (hitem : item ∈ items) :
    ∃ n ∈ nodes, f n = .ok (some item) := by
  induction nodes generalizing items with
  | nil =>
    cases h
    simp at hitem
  | cons n rest ih =>
    obtain ⟨first, hfirst, h⟩ := Fault.bind_eq_ok.mp h
    obtain ⟨others, hothers, h⟩ := Fault.bind_eq_ok.mp h
    cases h
    rcases List.mem_append.mp hitem with hmem | hmem
    · obtain rfl : first = some item := by simpa using hmem
      exact ⟨n, by simp, hfirst⟩
    · obtain ⟨m, hm, hitem⟩ := ih hothers hmem
      exact ⟨m, List.mem_cons_of_mem n hm, hitem⟩

variable {s : SourceText}

/-- A member is a method or a property, and was read as such. -/
theorem member_eq_some {methodKinds propertyKinds : List String} {n : Node} {item : Member}
    (h : n.member s methodKinds propertyKinds = .ok (some item)) :
    (∃ m, item = .ofMethod m ∧ n.method s = .ok (some m)) ∨
      ∃ p, item = .ofProperty p ∧ n.property s = .ok (some p) := by
  rw [member] at h
  split at h
  · obtain ⟨found, hfound, hmap⟩ := Fault.map_eq_ok.mp h
    obtain ⟨m, rfl, rfl⟩ := Option.map_eq_some_iff.mp hmap
    exact .inl ⟨m, rfl, hfound⟩
  · split at h
    · obtain ⟨found, hfound, hmap⟩ := Fault.map_eq_ok.mp h
      obtain ⟨p, rfl, rfl⟩ := Option.map_eq_some_iff.mp hmap
      exact .inr ⟨p, rfl, hfound⟩
    · cases h

/-- The methods and properties among members were read from the nodes of a body. -/
theorem members_origin {methodKinds propertyKinds : List String} {body tree : Node}
    {members : List Member}
    (h : collect (member s methodKinds propertyKinds) body.namedChildren = .ok members)
    (hbody : body.Within tree) :
    (∀ m ∈ members.filterMap Member.method?,
        ∃ n, Within n tree ∧ n.method s = .ok (some m)) ∧
      ∀ p ∈ members.filterMap Member.property?,
        ∃ n, Within n tree ∧ n.property s = .ok (some p) := by
  have horigin : ∀ item ∈ members, ∃ n, Within n tree ∧
      n.member s methodKinds propertyKinds = .ok (some item) := by
    intro item hitem
    obtain ⟨n, hn, hread⟩ := exists_of_mem_collect h hitem
    exact ⟨n, (Within.of_mem_namedChildren hn).trans hbody, hread⟩
  constructor
  · intro m hm
    obtain ⟨item, hitem, hm⟩ := List.mem_filterMap.mp hm
    obtain ⟨n, hn, hread⟩ := horigin item hitem
    rcases member_eq_some hread with ⟨m', rfl, hmethod⟩ | ⟨p, rfl, -⟩
    · cases hm
      exact ⟨n, hn, hmethod⟩
    · cases hm
  · intro p hp
    obtain ⟨item, hitem, hp⟩ := List.mem_filterMap.mp hp
    obtain ⟨n, hn, hread⟩ := horigin item hitem
    rcases member_eq_some hread with ⟨m, rfl, -⟩ | ⟨p', rfl, hproperty⟩
    · cases hp
    · cases hp
      exact ⟨n, hn, hproperty⟩

/-- A constructor is kept under the name that it was read with, so that all methods
of a class stand as they were read. -/
theorem mem_of_mem_allMethods {c : ClassDecl} {methods : List Method}
    (hctor : c.ctor = (methods.filter (·.name = "constructor")).getLast?)
    (hmethods : c.methods = methods.filter (·.name ≠ "constructor")) {m : Method}
    (hm : m ∈ c.allMethods) : m ∈ methods := by
  have hother : m ∈ c.methods → m ∈ methods := by
    intro h
    rw [hmethods] at h
    exact List.mem_of_mem_filter h
  rw [ClassDecl.allMethods] at hm
  split at hm
  · rename_i ctor hsome
    rcases List.mem_cons.mp hm with rfl | hm
    · -- it was picked by its name, so that giving it that name changes nothing
      rw [hsome] at hctor
      have hmem := List.mem_filter.mp (List.mem_of_getLast? hctor.symm)
      have hname : ctor.name = ctorName := of_decide_eq_true hmem.2
      rw [← hname]
      exact hmem.1
    · exact hother hm
  · exact hother hm

/-- Every member of a class, its constructor among them, is read from a node inside of it. -/
theorem classDecl_origin {exported : Bool} {n : Node} {c : ClassDecl}
    (h : n.classDecl s exported = .ok (some c)) :
    (∀ m ∈ c.allMethods, ∃ k : Node, k.Within n ∧ k.method s = .ok (some m)) ∧
      ∀ p ∈ c.properties, ∃ k : Node, k.Within n ∧ k.property s = .ok (some p) := by
  rw [classDecl] at h
  split at h
  · rename_i nameNode body _ hbody
    obtain ⟨span, -, h⟩ := Fault.bind_eq_ok.mp h
    obtain ⟨name, -, h⟩ := Fault.bind_eq_ok.mp h
    obtain ⟨members, hmembers, h⟩ := Fault.bind_eq_ok.mp h
    cases h
    obtain ⟨hmethods, hproperties⟩ := members_origin hmembers (Within.of_child? hbody)
    exact ⟨fun m hm => hmethods m (mem_of_mem_allMethods rfl rfl hm), hproperties⟩
  · cases h

theorem interfaceDecl_origin {exported : Bool} {n : Node} {i : InterfaceDecl}
    (h : n.interfaceDecl s exported = .ok (some i)) :
    (∀ m ∈ i.methods, ∃ k : Node, k.Within n ∧ k.method s = .ok (some m)) ∧
      ∀ p ∈ i.properties, ∃ k : Node, k.Within n ∧ k.property s = .ok (some p) := by
  rw [interfaceDecl] at h
  split at h
  · rename_i nameNode body _ hbody
    obtain ⟨span, -, h⟩ := Fault.bind_eq_ok.mp h
    obtain ⟨name, -, h⟩ := Fault.bind_eq_ok.mp h
    obtain ⟨members, hmembers, h⟩ := Fault.bind_eq_ok.mp h
    cases h
    exact members_origin hmembers (Within.of_child? hbody)
  · cases h

/-! ## Names -/

/-- A node with a name part, of which it has the text, and with a span that starts
at a character. -/
def HasName (s : SourceText) (n : Node) (name : String) (start : Int) : Prop :=
  ∃ nameNode first last, n.child? "name" = some nameNode ∧ s.textOf nameNode = .ok name ∧
    n.span s = .ok (first, last) ∧ start = first

theorem hasName_of_method {n : Node} {m : Method} (h : n.method s = .ok (some m)) :
    n.HasName s m.name m.start := by
  rw [method] at h
  split at h
  · cases h
  · rename_i nameNode hname
    obtain ⟨⟨first, last⟩, hspan, h⟩ := Fault.bind_eq_ok.mp h
    obtain ⟨name, htext, h⟩ := Fault.bind_eq_ok.mp h
    obtain ⟨type, -, h⟩ := Fault.bind_eq_ok.mp h
    obtain ⟨access, -, h⟩ := Fault.bind_eq_ok.mp h
    obtain ⟨isStatic, -, h⟩ := Fault.bind_eq_ok.mp h
    obtain ⟨parameters, -, h⟩ := Fault.bind_eq_ok.mp h
    cases h
    exact ⟨nameNode, first, last, hname, htext, hspan, rfl⟩

theorem hasName_of_property {n : Node} {p : Property} (h : n.property s = .ok (some p)) :
    n.HasName s p.name p.start := by
  rw [property] at h
  split at h
  · cases h
  · rename_i nameNode hname
    obtain ⟨init, -, h⟩ := Fault.bind_eq_ok.mp h
    obtain ⟨⟨first, last⟩, hspan, h⟩ := Fault.bind_eq_ok.mp h
    obtain ⟨name, htext, h⟩ := Fault.bind_eq_ok.mp h
    obtain ⟨type, -, h⟩ := Fault.bind_eq_ok.mp h
    obtain ⟨access, -, h⟩ := Fault.bind_eq_ok.mp h
    obtain ⟨isStatic, -, h⟩ := Fault.bind_eq_ok.mp h
    obtain ⟨isReadonly, -, h⟩ := Fault.bind_eq_ok.mp h
    cases h
    exact ⟨nameNode, first, last, hname, htext, hspan, rfl⟩

theorem hasName_of_functionDecl {exported : Bool} {n : Node} {f : FunctionDecl}
    (h : n.functionDecl s exported = .ok (some f)) : n.HasName s f.name f.start := by
  rw [functionDecl] at h
  split at h
  · cases h
  · rename_i nameNode hname
    obtain ⟨⟨first, last⟩, hspan, h⟩ := Fault.bind_eq_ok.mp h
    obtain ⟨name, htext, h⟩ := Fault.bind_eq_ok.mp h
    obtain ⟨type, -, h⟩ := Fault.bind_eq_ok.mp h
    obtain ⟨parameters, -, h⟩ := Fault.bind_eq_ok.mp h
    cases h
    exact ⟨nameNode, first, last, hname, htext, hspan, rfl⟩

theorem hasName_of_variableDecl {exported isConst : Bool} {n : Node} {v : VariableDecl}
    (h : n.variableDecl s exported isConst = .ok (some v)) : n.HasName s v.name v.start := by
  rw [variableDecl] at h
  split at h
  · cases h
  split at h
  · cases h
  · rename_i nameNode hname
    obtain ⟨init, -, h⟩ := Fault.bind_eq_ok.mp h
    obtain ⟨⟨first, last⟩, hspan, h⟩ := Fault.bind_eq_ok.mp h
    obtain ⟨name, htext, h⟩ := Fault.bind_eq_ok.mp h
    obtain ⟨type, -, h⟩ := Fault.bind_eq_ok.mp h
    cases h
    exact ⟨nameNode, first, last, hname, htext, hspan, rfl⟩

end Node

/-! ## Declarations -/

/-- A node from which a declaration is read. -/
def Declaration.ReadFrom (s : SourceText) (n : Node) : Declaration → Prop
  | .ofClass c => ∃ exported, n.classDecl s exported = .ok (some c)
  | .ofInterface i => ∃ exported, n.interfaceDecl s exported = .ok (some i)
  | .ofVariable v => ∃ exported isConst, n.variableDecl s exported isConst = .ok (some v)
  | .ofFunction f => ∃ exported, n.functionDecl s exported = .ok (some f)
  | .unknown => False

/-- A source unit each of whose declarations is read from some node of a tree. -/
def SourceUnit.ReadWithin (s : SourceText) (tree : Node) (unit : SourceUnit) : Prop :=
  ∀ dec ∈ unit.declarations, ∃ n : Node, n.Within tree ∧ dec.ReadFrom s n

namespace SourceUnit.ReadWithin

variable {s : SourceText} {tree : Node}

theorem of_no_declarations {unit : SourceUnit} (h : unit.declarations = []) :
    unit.ReadWithin s tree := by
  intro dec hdec
  rw [h] at hdec
  simp at hdec

theorem append {a b : SourceUnit} (ha : a.ReadWithin s tree) (hb : b.ReadWithin s tree) :
    (a ++ b).ReadWithin s tree := by
  intro dec hdec
  exact (List.mem_append.mp hdec).elim (ha dec) (hb dec)

theorem concat {units : List SourceUnit} (h : ∀ unit ∈ units, unit.ReadWithin s tree) :
    (SourceUnit.concat units).ReadWithin s tree := by
  induction units with
  | nil => exact of_no_declarations rfl
  | cons unit rest ih =>
    exact append (h unit (by simp)) (ih fun u hu => h u (List.mem_cons_of_mem unit hu))

theorem mono {n : Node} {unit : SourceUnit} (h : unit.ReadWithin s n) (hn : n.Within tree) :
    unit.ReadWithin s tree := by
  intro dec hdec
  obtain ⟨m, hm, hread⟩ := h dec hdec
  exact ⟨m, hm.trans hn, hread⟩

/-- One kind of declaration, read from a node if the node stands for one. -/
theorem of_lift {α : Type} {x : Except Fault (Option α)} {wrap : α → Declaration}
    (hread : ∀ a, x = .ok (some a) → (wrap a).ReadFrom s tree) {unit : SourceUnit}
    (h : (do
      let decl ← Traced.lift x
      pure (⟨(decl.map wrap).toList, []⟩ : SourceUnit) : Traced SourceUnit).result = .ok unit) :
    unit.ReadWithin s tree := by
  obtain ⟨decl, hx, h⟩ := Traced.result_bind_eq_ok.mp h
  cases h
  intro dec hdec
  obtain ⟨a, rfl, rfl⟩ := Option.map_eq_some_iff.mp (Option.mem_toList.mp hdec)
  exact ⟨tree, .self tree, hread a hx⟩

end SourceUnit.ReadWithin

namespace Node

variable {s : SourceText}

theorem readWithin_variableDecls {exported : Bool} {n : Node} {decls : List VariableDecl}
    (h : n.variableDecls s exported = .ok decls) :
    SourceUnit.ReadWithin s n ⟨decls.map .ofVariable, []⟩ := by
  obtain ⟨isConst, -, h⟩ := Fault.bind_eq_ok.mp h
  intro dec hdec
  obtain ⟨v, hv, rfl⟩ := List.mem_map.mp hdec
  obtain ⟨c, hc, hread⟩ := exists_of_mem_collect h hv
  exact ⟨c, .of_mem_namedChildren hc, exported, isConst, hread⟩

theorem readWithin_statements {exported : Bool} {nodes : List Node} {tree : Node}
    (hread : ∀ n ∈ nodes, ∀ unit, (statement s exported n).result = .ok unit →
      unit.ReadWithin s n)
    (hnodes : ∀ n ∈ nodes, n.Within tree) {unit : SourceUnit}
    (h : (statements s exported nodes).result = .ok unit) : unit.ReadWithin s tree := by
  obtain ⟨units, hunits, h⟩ := Traced.result_bind_eq_ok.mp h
  cases h
  refine .concat fun unit hunit => ?_
  obtain ⟨n, hn, hresult⟩ := Traced.exists_of_mem_each hunits hunit
  exact (hread n hn unit hresult).mono (hnodes n hn)

/-- Each declaration of a statement is read from a node inside of it. The induction is on the
tree, as wrappers pass on what is read inside of them. -/
theorem readWithin_statement (exported : Bool) (n : Node) {unit : SourceUnit}
    (h : (statement s exported n).result = .ok unit) : unit.ReadWithin s n := by
  induction n using childrenInduction generalizing exported unit with
  | node n ih =>
    have hview := statementView s exported n
    generalize statement s exported n = read at h hview
    cases hview with
    | nothing =>
      cases h
      exact .of_no_declarations rfl
    | ofImport =>
      obtain ⟨decl, -, h⟩ := Traced.result_bind_eq_ok.mp h
      cases h
      exact .of_no_declarations rfl
    | exporting c hkind hc =>
      have hmem := mem_children_of_exported? hc
      exact (ih c hmem true h).mono (.of_mem hmem)
    | ambient =>
      refine readWithin_statements (fun c hc unit h => ?_) (fun c => .of_mem_namedChildren) h
      exact ih c (List.mem_of_mem_filter hc) exported h
    | ofClass =>
      refine .of_lift ?_ h
      intro c hc
      exact ⟨exported, hc⟩
    | ofInterface =>
      refine .of_lift ?_ h
      intro i hi
      exact ⟨exported, hi⟩
    | ofFunction =>
      refine .of_lift ?_ h
      intro f hf
      exact ⟨exported, hf⟩
    | ofVariables =>
      obtain ⟨decls, hdecls, h⟩ := Traced.result_bind_eq_ok.mp h
      cases h
      exact readWithin_variableDecls hdecls

end Node

/-- Every declaration that is read from a syntax tree is read from one of its
nodes. -/
theorem SourceUnit.readWithin_ofTree {text : String} {tree : Node} {unit : SourceUnit}
    (h : (SourceUnit.ofTree text tree).result = .ok unit) :
    unit.ReadWithin (SourceText.ofString text) tree := by
  exact Node.readWithin_statements
    (fun n _ unit h => Node.readWithin_statement false n h) (fun n => .of_mem) h

end CodeOutline
