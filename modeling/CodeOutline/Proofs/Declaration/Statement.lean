import CodeOutline.Declaration.OfNode
import CodeOutline.Proofs.Traced

/-!
# Statements by kind

What is read from a statement is said by its kind: nothing, an import, declarations
of one sort, or what the statements inside of it declare. These cases and an
induction on the tree carry each proof about all statements.
-/

namespace CodeOutline.Node

/-! ## Induction on trees -/

/-- What each node has as soon as its children have it, all nodes have. -/
@[elab_as_elim]
theorem childrenInduction {motive : Node → Prop}
    (node : ∀ n : Node, (∀ c ∈ n.children, motive c) → motive n) (n : Node) : motive n := by
  -- with the property of a list of children in which each of them has it
  refine @Node.rec motive (fun nodes => ∀ c ∈ nodes, motive c) ?_ ?_ ?_ n
  · intro kind named start stop field children ih
    exact node _ ih
  · simp
  · intro c rest hc hrest
    simpa using ⟨hc, hrest⟩

/-! ## Statements one after another -/

/-- What statements declare and import, one after another. -/
def statements (s : SourceText) (exported : Bool) (nodes : List Node) : Traced SourceUnit := do
  let units ← Traced.each (statement s exported) nodes
  pure (SourceUnit.concat units)

variable {s : SourceText} {exported : Bool}

theorem statements_cons (n : Node) (rest : List Node) :
    statements s exported (n :: rest) = (do
      let first ← statement s exported n
      let others ← statements s exported rest
      pure (first ++ others)) := by
  simp only [statements, Traced.each, bind_assoc, pure_bind]
  rfl

/-- Statements one after another are read exactly if each of them is, and give together what
each gives. -/
theorem result_statements_eq_ok {nodes : List Node} {unit : SourceUnit} :
    (statements s exported nodes).result = .ok unit ↔
      ∃ units, List.Forall₂ (fun n u => (statement s exported n).result = .ok u) nodes units ∧
        SourceUnit.concat units = unit := by
  simp only [statements, Traced.result_bind_eq_ok, Traced.result_each_eq_ok, Traced.result_pure,
    Except.ok.injEq]

theorem namedStatements_eq (nodes : List Node) :
    namedStatements s exported nodes = statements s exported (nodes.filter (·.named)) := by
  induction nodes with
  | nil => rfl
  | cons n rest ih =>
    rw [namedStatements]
    by_cases hn : n.named
    · rw [if_pos hn, List.filter_cons_of_pos hn, statements_cons, ih]
    · rw [if_neg hn, List.filter_cons_of_neg hn, ih]

theorem statementIn_eq (field : String) (nodes : List Node) :
    statementIn s field nodes =
      match withField? field nodes with
      | some n => statement s true n
      | none => pure {} := by
  induction nodes with
  | nil => rfl
  | cons n rest ih =>
    rw [statementIn, ih, withField?, withField?]
    by_cases hn : n.field = some field
    · simp [hn]
    · simp [hn]

/-! ## The cases -/

/-- The kinds of statement that may declare or import something. -/
def declaringKinds : List String :=
  ["import_statement", "export_statement", "ambient_declaration", "class_declaration",
    "abstract_class_declaration", "interface_declaration", "function_declaration",
    "generator_function_declaration", "lexical_declaration", "variable_declaration"]

/-- The part of an export statement that is read: a declaration, or else a value. -/
def exported? (n : Node) : Option Node :=
  (n.child? "declaration").or (n.child? "value")

/-- What may be read from a statement, by its kind. -/
inductive StatementView (s : SourceText) (exported : Bool) (n : Node) :
    Traced SourceUnit → Prop where
  | nothing (notes : List Note)
      (hnotes : notes ⊆ [.unparsableRegion n.start, .ignoredStatement n.kind])
      (hkind : n.kind ∉ declaringKinds ∨ n.kind = "export_statement" ∧ n.exported? = none) :
      StatementView s exported n (Traced.noting notes {})
  | ofImport (hkind : n.kind = "import_statement") :
      StatementView s exported n (do
        let decl ← Traced.lift (n.importDecl s)
        pure (.importing decl))
  | exporting (c : Node) (hkind : n.kind = "export_statement") (hc : n.exported? = some c) :
      StatementView s exported n (statement s true c)
  | ambient (hkind : n.kind = "ambient_declaration") :
      StatementView s exported n (statements s exported n.namedChildren)
  | ofClass (hkind : n.kind = "class_declaration" ∨ n.kind = "abstract_class_declaration") :
      StatementView s exported n (do
        let decl ← Traced.lift (n.classDecl s exported)
        pure ⟨(decl.map .ofClass).toList, []⟩)
  | ofInterface (hkind : n.kind = "interface_declaration") :
      StatementView s exported n (do
        let decl ← Traced.lift (n.interfaceDecl s exported)
        pure ⟨(decl.map .ofInterface).toList, []⟩)
  | ofFunction
      (hkind : n.kind = "function_declaration" ∨ n.kind = "generator_function_declaration") :
      StatementView s exported n (do
        let decl ← Traced.lift (n.functionDecl s exported)
        pure ⟨(decl.map .ofFunction).toList, []⟩)
  | ofVariables (hkind : n.kind = "lexical_declaration" ∨ n.kind = "variable_declaration") :
      StatementView s exported n (do
        let decls ← Traced.lift (n.variableDecls s exported)
        pure ⟨decls.map .ofVariable, []⟩)

theorem mem_children_of_exported? {c n : Node} (h : n.exported? = some c) : c ∈ n.children := by
  rcases Option.or_eq_some_iff.mp h with h | ⟨-, h⟩
  · exact List.mem_of_find?_eq_some h
  · exact List.mem_of_find?_eq_some h

/-- An export statement reads its declaration, and its value only without one. -/
theorem exportView (n : Node) (hkind : n.kind = "export_statement") :
    StatementView s exported n
      (if (n.child? "declaration").isSome then statementIn s "declaration" n.children
      else statementIn s "value" n.children) := by
  rw [statementIn_eq, statementIn_eq]
  show StatementView s exported n
    (if (n.child? "declaration").isSome then
      match n.child? "declaration" with | some c => statement s true c | none => pure {}
    else match n.child? "value" with | some c => statement s true c | none => pure {})
  cases hdecl : n.child? "declaration" with
  | some c => exact .exporting c hkind (by simp [exported?, hdecl])
  | none =>
    cases hvalue : n.child? "value" with
    | some c => exact .exporting c hkind (by simp [exported?, hdecl, hvalue])
    | none => exact .nothing [] (by simp) (.inr ⟨hkind, by simp [exported?, hdecl, hvalue]⟩)

/-- What is read from a statement is told by its kind. All that follows goes through these
cases, and no other proof goes through the kinds. -/
theorem statementView (s : SourceText) (exported : Bool) (n : Node) :
    StatementView s exported n (statement s exported n) := by
  match n with
  | ⟨kind, named, start, stop, field, children⟩ =>
    rw [statement]
    by_cases herror : kind = "ERROR"
    · rw [if_pos herror]
      exact .nothing _ (by simp) (.inl (by simp [declaringKinds, herror]))
    rw [if_neg herror]
    by_cases himport : kind = "import_statement"
    · rw [if_pos himport]
      exact .ofImport himport
    rw [if_neg himport]
    by_cases hexport : kind = "export_statement"
    · rw [if_pos hexport]
      exact exportView _ hexport
    rw [if_neg hexport]
    by_cases hambient : kind = "ambient_declaration"
    · rw [if_pos hambient, namedStatements_eq]
      exact .ambient hambient
    rw [if_neg hambient]
    by_cases hclass : kind = "class_declaration" ∨ kind = "abstract_class_declaration"
    · rw [if_pos hclass]
      exact .ofClass hclass
    rw [if_neg hclass]
    by_cases hinterface : kind = "interface_declaration"
    · rw [if_pos hinterface]
      exact .ofInterface hinterface
    rw [if_neg hinterface]
    by_cases hfunction : kind = "function_declaration" ∨ kind = "generator_function_declaration"
    · rw [if_pos hfunction]
      exact .ofFunction hfunction
    rw [if_neg hfunction]
    by_cases hvariable : kind = "lexical_declaration" ∨ kind = "variable_declaration"
    · rw [if_pos hvariable]
      exact .ofVariables hvariable
    rw [if_neg hvariable]
    -- what is left declares nothing, with a note or without
    have hkind : kind ∉ declaringKinds := by
      simp only [not_or] at hclass hfunction hvariable
      simp [declaringKinds, himport, hexport, hambient, hclass, hinterface, hfunction, hvariable]
    split
    · exact .nothing _ (by simp) (.inl hkind)
    · exact .nothing [] (by simp) (.inl hkind)

end CodeOutline.Node
