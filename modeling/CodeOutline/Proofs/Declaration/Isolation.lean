import CodeOutline.Proofs.Declaration.Origin

/-!
# Statements by themselves

What a statement declares depends on the statement and on the wrappers around it, the
export statements and ambient declarations, and not on its neighbours. Hence a program is
the concatenation of its statements, nodes that declare nothing may come and go between
them, and a declaration is exported exactly if an export statement wraps it.
-/

namespace CodeOutline

theorem SourceUnit.append_empty (unit : SourceUnit) : unit ++ ({} : SourceUnit) = unit := by
  show SourceUnit.mk (unit.declarations ++ []) (unit.imports ++ []) = unit
  rw [List.append_nil, List.append_nil]

theorem SourceUnit.concat_singleton (unit : SourceUnit) : SourceUnit.concat [unit] = unit :=
  unit.append_empty

theorem SourceUnit.concat_append (as bs : List SourceUnit) :
    SourceUnit.concat (as ++ bs) = SourceUnit.concat as ++ SourceUnit.concat bs := by
  induction as with
  | nil => rfl
  | cons a as ih =>
    show a ++ SourceUnit.concat (as ++ bs) = (a ++ SourceUnit.concat as) ++ SourceUnit.concat bs
    rw [ih]
    show SourceUnit.mk (a.declarations ++ (_ ++ _)) (a.imports ++ (_ ++ _)) =
      SourceUnit.mk ((a.declarations ++ _) ++ _) ((a.imports ++ _) ++ _)
    rw [List.append_assoc, List.append_assoc]

theorem SourceUnit.declarations_concat (units : List SourceUnit) :
    (SourceUnit.concat units).declarations = units.flatMap (·.declarations) := by
  induction units with
  | nil => rfl
  | cons unit units ih =>
    rw [List.flatMap_cons, ← ih]
    rfl

theorem SourceUnit.imports_concat (units : List SourceUnit) :
    (SourceUnit.concat units).imports = units.flatMap (·.imports) := by
  induction units with
  | nil => rfl
  | cons unit units ih =>
    rw [List.flatMap_cons, ← ih]
    rfl

namespace Node

variable {s : SourceText} {exported : Bool}

/-! ## Wrappers and inert nodes -/

theorem statement_ambient {n : Node} (hkind : n.kind = "ambient_declaration") :
    statement s exported n = statements s exported n.namedChildren := by
  match n with
  | ⟨kind, named, start, stop, field, children⟩ =>
    subst hkind
    simp [statement, namedStatements_eq, namedChildren]

/-- An export statement is read as what it exports, which then counts as exported. -/
theorem statement_export {n : Node} (hkind : n.kind = "export_statement") :
    statement s exported n =
      match n.exported? with
      | some c => statement s true c
      | none => pure {} := by
  match n with
  | ⟨kind, named, start, stop, field, children⟩ =>
    subst hkind
    simp only [statement, statementIn_eq, exported?, child?]
    cases withField? "declaration" children with
    | some c => simp
    | none => cases withField? "value" children <;> rfl

/-- A node that declares and imports nothing: a region that could not be parsed, a comment,
an expression, or anything else of a kind that is not known. -/
def IsInert (n : Node) : Prop := n.kind ∉ declaringKinds

instance (n : Node) : Decidable n.IsInert := inferInstanceAs (Decidable (_ ∉ _))

theorem IsInert.result_statement {n : Node} (h : n.IsInert) :
    (statement s exported n).result = .ok {} := by
  have hview := statementView s exported n
  generalize statement s exported n = read at hview
  cases hview with
  | nothing => rfl
  | _ => simp_all [IsInert, declaringKinds]

/-! ## Neighbours -/

/-- Statements that are read alike, all of them and the named ones among them. -/
structure ReadAlike (s : SourceText) (ms ns : List Node) : Prop where
  all : ∀ exported, (statements s exported ms).result = (statements s exported ns).result
  named : ∀ exported, (statements s exported (ms.filter (·.named))).result =
    (statements s exported (ns.filter (·.named))).result

theorem result_statements_cons (n : Node) (ns : List Node) :
    (statements s exported (n :: ns)).result =
      (statement s exported n).result.bind fun first =>
        (statements s exported ns).result.map (first ++ ·) := by
  rw [statements_cons]
  cases hn : (statement s exported n).result with
  | error fault =>
    rw [Traced.bind_error hn]
    rfl
  | ok first =>
    rw [Traced.bind_ok hn]
    exact Traced.result_bind_pure _ _

theorem result_statements_singleton (n : Node) :
    (statements s exported [n]).result = (statement s exported n).result := by
  cases hn : (statement s exported n).result with
  | error fault => rw [statements_cons, Traced.bind_error hn]
  | ok unit =>
    rw [result_statements_eq_ok]
    exact ⟨[unit], .cons hn .nil, unit.concat_singleton⟩

theorem IsInert.result_statements_cons {n : Node} (h : n.IsInert) (ns : List Node) :
    (statements s exported (n :: ns)).result = (statements s exported ns).result := by
  rw [Node.result_statements_cons, h.result_statement]
  -- nothing is put before what the others declare
  cases (statements s exported ns).result with
  | error fault => rfl
  | ok unit => rfl

namespace ReadAlike

variable {ms ns : List Node}

theorem refl (ns : List Node) : ReadAlike s ns ns := ⟨fun _ => rfl, fun _ => rfl⟩

theorem symm (h : ReadAlike s ms ns) : ReadAlike s ns ms :=
  ⟨fun e => (h.all e).symm, fun e => (h.named e).symm⟩

theorem cons {m n : Node} (hread : ∀ e, (statement s e m).result = (statement s e n).result)
    (hnamed : m.named = n.named) (h : ReadAlike s ms ns) : ReadAlike s (m :: ms) (n :: ns) where
  all e := by rw [result_statements_cons, result_statements_cons, hread e, h.all e]
  named e := by
    by_cases hn : n.named = true
    · rw [List.filter_cons_of_pos (hnamed.trans hn), List.filter_cons_of_pos hn]
      rw [result_statements_cons, result_statements_cons, hread e, h.named e]
    · rw [List.filter_cons_of_neg (hnamed ▸ hn), List.filter_cons_of_neg hn]
      exact h.named e

theorem insert {n : Node} (hn : n.IsInert) (h : ReadAlike s ms ns) : ReadAlike s ms (n :: ns) where
  all e := (h.all e).trans (hn.result_statements_cons ns).symm
  named e := by
    by_cases hnamed : n.named = true
    · rw [List.filter_cons_of_pos hnamed, hn.result_statements_cons]
      exact h.named e
    · rw [List.filter_cons_of_neg hnamed]
      exact h.named e

theorem of_singleton {m n : Node} (h : ReadAlike s [m] [n]) (e : Bool) :
    (statement s e m).result = (statement s e n).result := by
  rw [← result_statements_singleton, ← result_statements_singleton]
  exact h.all e

end ReadAlike

/-- Statements with inert nodes put in and taken out, among them and inside of ambient
declarations, which may be wrapped in turn. -/
inductive Patched : List Node → List Node → Prop where
  | nil : Patched [] []
  | keep (n : Node) {ms ns : List Node} (h : Patched ms ns) : Patched (n :: ms) (n :: ns)
  | insert {n : Node} {ms ns : List Node} (hn : n.IsInert) (h : Patched ms ns) :
      Patched ms (n :: ns)
  | remove {n : Node} {ms ns : List Node} (hn : n.IsInert) (h : Patched ms ns) :
      Patched (n :: ms) ns
  | ambient {n : Node} {children ms ns : List Node} (hkind : n.kind = "ambient_declaration")
      (hin : Patched n.children children) (h : Patched ms ns) :
      Patched (n :: ms) ({ n with children } :: ns)
  | exporting {n c c' : Node} {before after ms ns : List Node} (hkind : n.kind = "export_statement")
      (hn : n.children = before ++ c :: after) (hfield : c'.field = c.field)
      (hin : Patched [c] [c']) (h : Patched ms ns) :
      Patched (n :: ms) ({ n with children := before ++ c' :: after } :: ns)

/-- The child found under a field name, once one child has made way for another with its name. -/
theorem withField?_replace {c c' : Node} (hfield : c'.field = c.field) (field : String)
    (before after : List Node) :
    withField? field (before ++ c' :: after) = withField? field (before ++ c :: after) ∨
      withField? field (before ++ c :: after) = some c ∧
        withField? field (before ++ c' :: after) = some c' := by
  simp only [withField?, List.find?_append, List.find?_cons, hfield]
  cases List.find? (fun n => decide (n.field = some field)) before with
  | some found => exact .inl rfl
  | none =>
    by_cases hc : c.field = some field
    · exact .inr (by simp [hc])
    · exact .inl (by simp [hc])

theorem exported?_replace {n c c' : Node} {before after : List Node} (hfield : c'.field = c.field)
    (hn : n.children = before ++ c :: after) :
    exported? { n with children := before ++ c' :: after } = n.exported? ∨
      n.exported? = some c ∧
        exported? { n with children := before ++ c' :: after } = some c' := by
  simp only [exported?, child?, hn]
  obtain hsame | ⟨hold, hnew⟩ := withField?_replace hfield "declaration" before after
  · rw [hsame]
    cases withField? "declaration" (before ++ c :: after) with
    | some found => exact .inl rfl
    | none => exact withField?_replace hfield "value" before after
  · rw [hold, hnew]
    exact .inr ⟨rfl, rfl⟩

/-- Putting inert nodes in and taking them out changes nothing that is read. The induction is on
the changes: one inside of an ambient declaration changes what is read of it no more than one
outside. -/
theorem Patched.readAlike {ms ns : List Node} (h : Patched ms ns) : ReadAlike s ms ns := by
  induction h with
  | nil => exact .refl []
  | keep n _ ih => exact ih.cons (fun _ => rfl) rfl
  | insert hn _ ih => exact ih.insert hn
  | remove hn _ ih => exact (ih.symm.insert hn).symm
  | @ambient n children _ _ hkind _ _ ihin ih =>
    refine ih.cons (fun e => ?_) rfl
    rw [statement_ambient hkind, statement_ambient (n := { n with children }) hkind]
    exact ihin.named e
  | @exporting n _ c' before after _ _ hkind hn hfield _ _ ihin ih =>
    refine ih.cons (fun e => ?_) rfl
    rw [statement_export hkind,
      statement_export (n := { n with children := before ++ c' :: after }) hkind]
    -- the exported part is another child, or the one that was changed
    obtain hsame | ⟨hold, hnew⟩ := exported?_replace hfield hn
    · rw [hsame]
    · rw [hold, hnew]
      exact ihin.of_singleton true

/-! ## Wrapped statements -/

/-- A statement that wraps no other, and the wrappers on the way to it, from the outside in. -/
structure Site where
  wrappers : List Node
  node : Node

namespace Site

/-- Whether an export statement is on the way. -/
def isExported (site : Site) : Bool :=
  site.wrappers.any (·.kind = "export_statement")

/-- The site inside one more wrapper. -/
def wrappedIn (wrapper : Node) (site : Site) : Site :=
  { site with wrappers := wrapper :: site.wrappers }

theorem isExported_iff (site : Site) :
    site.isExported = true ↔ ∃ w ∈ site.wrappers, w.kind = "export_statement" := by
  simp [isExported]

theorem isExported_wrappedIn (wrapper : Node) (site : Site) :
    (site.wrappedIn wrapper).isExported =
      (decide (wrapper.kind = "export_statement") || site.isExported) := rfl

end Site

theorem sizeOf_lt_of_mem_children {c n : Node} (h : c ∈ n.children) : sizeOf c < sizeOf n := by
  match n with
  | ⟨kind, named, start, stop, field, children⟩ =>
    have hmem := List.sizeOf_lt_of_mem h
    simp only [Node.mk.sizeOf_spec]
    simp only at hmem
    omega

/-- A statement that is read for those inside of it. -/
def IsWrapper (n : Node) : Prop :=
  n.kind = "ambient_declaration" ∨ n.kind = "export_statement"

instance (n : Node) : Decidable n.IsWrapper := inferInstanceAs (Decidable (_ ∨ _))

/-- The statements that are read inside of a wrapper. -/
def inner (n : Node) : List Node :=
  if n.kind = "export_statement" then n.exported?.toList else n.namedChildren

theorem mem_children_of_mem_inner {c n : Node} (h : c ∈ n.inner) : c ∈ n.children := by
  unfold inner at h
  split at h
  · exact mem_children_of_exported? (Option.mem_toList.mp h)
  · exact List.mem_of_mem_filter h

/-- The statements that a statement comes down to, in order. -/
def sites (n : Node) : List Site :=
  if n.IsWrapper then n.inner.attach.flatMap fun c => c.val.sites.map (·.wrappedIn n)
  else [⟨[], n⟩]
termination_by sizeOf n
decreasing_by exact sizeOf_lt_of_mem_children (mem_children_of_mem_inner c.property)

theorem sites_wrapper {n : Node} (h : n.IsWrapper) :
    n.sites = (n.inner.flatMap sites).map (·.wrappedIn n) := by
  rw [sites, if_pos h, List.map_flatMap]
  simp

theorem sites_leaf {n : Node} (h : ¬ n.IsWrapper) : n.sites = [⟨[], n⟩] := by
  rw [sites, if_neg h]

/-- A wrapper is read as the statements inside of it, which an export statement exports. -/
theorem result_statement_wrapper {n : Node} (h : n.IsWrapper) :
    (statement s exported n).result =
      (statements s (exported || decide (n.kind = "export_statement")) n.inner).result := by
  rcases h with hkind | hkind
  · have hexport : n.kind ≠ "export_statement" := by simp [hkind]
    rw [statement_ambient hkind, inner, if_neg hexport, decide_eq_false hexport, Bool.or_false]
  · rw [statement_export hkind, inner, if_pos hkind, decide_eq_true hkind, Bool.or_true]
    cases n.exported? with
    | none => rfl
    | some c => exact (result_statements_singleton c).symm

/-- If each statement gives what its sites give one by one, so do statements one after
another. -/
theorem exists_units_of_statements {R : Site → SourceUnit → Prop} {nodes : List Node}
    (hread : ∀ n ∈ nodes, ∀ unit, (statement s exported n).result = .ok unit →
      ∃ units, List.Forall₂ R n.sites units ∧ SourceUnit.concat units = unit)
    {unit : SourceUnit} (h : (statements s exported nodes).result = .ok unit) :
    ∃ units, List.Forall₂ R (nodes.flatMap sites) units ∧ SourceUnit.concat units = unit := by
  obtain ⟨outer, houter, rfl⟩ := result_statements_eq_ok.mp h
  clear h
  induction houter with
  | nil => exact ⟨[], .nil, rfl⟩
  | @cons n unit _ _ hn _ ih =>
    obtain ⟨first, hfirst, rfl⟩ := hread n (by simp) unit hn
    obtain ⟨rest, hrest, hconcat⟩ := ih fun c hc => hread c (by simp [hc])
    refine ⟨first ++ rest, List.rel_append hfirst hrest, ?_⟩
    rw [SourceUnit.concat_append, hconcat]
    rfl

/-- What a statement declares is what the statements declare that it comes down to, each read
by itself, and as exported if it is inside of an export statement. -/
theorem exists_units_of_sites {n : Node} {unit : SourceUnit}
    (h : (statement s exported n).result = .ok unit) :
    ∃ units, List.Forall₂ (fun (site : Site) u =>
        (statement s (exported || site.isExported) site.node).result = .ok u) n.sites units ∧
      SourceUnit.concat units = unit := by
  induction n using childrenInduction generalizing exported unit with
  | node n ih =>
    by_cases hwrapper : n.IsWrapper
    · rw [result_statement_wrapper hwrapper] at h
      obtain ⟨units, hunits, rfl⟩ := exists_units_of_statements
        (fun c hc _ hread => ih c (mem_children_of_mem_inner hc) hread) h
      refine ⟨units, ?_, rfl⟩
      rw [sites_wrapper hwrapper, List.forall₂_map_left_iff]
      refine hunits.imp fun site u hread => ?_
      -- what the wrapper hands on is part of what its sites have on their way
      rwa [Site.isExported_wrappedIn, ← Bool.or_assoc]
    · rw [sites_leaf hwrapper]
      refine ⟨[unit], .cons ?_ .nil, unit.concat_singleton⟩
      show (statement s (exported || false) n).result = .ok unit
      rwa [Bool.or_false]

/-- The wrappers of a site lead down to it, each a child of the one before. -/
theorem isChain_of_mem_sites {parent n : Node} (hn : n ∈ parent.children) {site : Site}
    (h : site ∈ n.sites) :
    List.IsChain (fun outer c => c ∈ outer.children)
      (parent :: (site.wrappers ++ [site.node])) := by
  induction n using childrenInduction generalizing parent site with
  | node n ih =>
    by_cases hwrapper : n.IsWrapper
    · rw [sites_wrapper hwrapper] at h
      obtain ⟨site, hsite, rfl⟩ := List.mem_map.mp h
      obtain ⟨c, hc, hsite⟩ := List.mem_flatMap.mp hsite
      have hchild := mem_children_of_mem_inner hc
      exact .cons_cons hn (ih c hchild hchild hsite)
    · rw [sites_leaf hwrapper, List.mem_singleton] at h
      subst h
      exact .cons_cons hn (.singleton n)

/-- No site is a wrapper itself, by induction on the tree. -/
theorem not_isWrapper_of_mem_sites {n : Node} {site : Site} (h : site ∈ n.sites) :
    ¬ site.node.IsWrapper := by
  induction n using childrenInduction generalizing site with
  | node n ih =>
    by_cases hwrapper : n.IsWrapper
    · rw [sites_wrapper hwrapper] at h
      obtain ⟨site, hsite, rfl⟩ := List.mem_map.mp h
      obtain ⟨c, hc, hsite⟩ := List.mem_flatMap.mp hsite
      show ¬ site.node.IsWrapper
      exact ih c (mem_children_of_mem_inner hc) hsite
    · rw [sites_leaf hwrapper, List.mem_singleton] at h
      subst h
      exact hwrapper

end Node

/-! ## Exports -/

/-- Whether a declaration is marked as exported. -/
def Declaration.isExported : Declaration → Bool
  | .ofClass c => c.isExported
  | .ofInterface i => i.isExported
  | .ofVariable v => v.isExported
  | .ofFunction f => f.isExported
  | .unknown => false

namespace Node

variable {s : SourceText} {exported : Bool} {n : Node}

theorem isExported_of_classDecl {c : ClassDecl} (h : n.classDecl s exported = .ok (some c)) :
    c.isExported = exported := by
  rw [classDecl] at h
  split at h
  · obtain ⟨span, -, h⟩ := Fault.bind_eq_ok.mp h
    obtain ⟨name, -, h⟩ := Fault.bind_eq_ok.mp h
    obtain ⟨members, -, h⟩ := Fault.bind_eq_ok.mp h
    cases h
    rfl
  · cases h

theorem isExported_of_interfaceDecl {i : InterfaceDecl}
    (h : n.interfaceDecl s exported = .ok (some i)) : i.isExported = exported := by
  rw [interfaceDecl] at h
  split at h
  · obtain ⟨span, -, h⟩ := Fault.bind_eq_ok.mp h
    obtain ⟨name, -, h⟩ := Fault.bind_eq_ok.mp h
    obtain ⟨members, -, h⟩ := Fault.bind_eq_ok.mp h
    cases h
    rfl
  · cases h

theorem isExported_of_functionDecl {f : FunctionDecl}
    (h : n.functionDecl s exported = .ok (some f)) : f.isExported = exported := by
  rw [functionDecl] at h
  split at h
  · cases h
  · obtain ⟨span, -, h⟩ := Fault.bind_eq_ok.mp h
    obtain ⟨name, -, h⟩ := Fault.bind_eq_ok.mp h
    obtain ⟨type, -, h⟩ := Fault.bind_eq_ok.mp h
    obtain ⟨parameters, -, h⟩ := Fault.bind_eq_ok.mp h
    cases h
    rfl

theorem isExported_of_variableDecl {isConst : Bool} {v : VariableDecl}
    (h : n.variableDecl s exported isConst = .ok (some v)) : v.isExported = exported := by
  rw [variableDecl] at h
  split at h
  · cases h
  split at h
  · cases h
  · obtain ⟨init, -, h⟩ := Fault.bind_eq_ok.mp h
    obtain ⟨span, -, h⟩ := Fault.bind_eq_ok.mp h
    obtain ⟨name, -, h⟩ := Fault.bind_eq_ok.mp h
    obtain ⟨type, -, h⟩ := Fault.bind_eq_ok.mp h
    cases h
    rfl

theorem isExported_of_lift {α : Type} {x : Except Fault (Option α)} {wrap : α → Declaration}
    (hread : ∀ a, x = .ok (some a) → (wrap a).isExported = exported) {unit : SourceUnit}
    (h : (do
      let decl ← Traced.lift x
      pure (⟨(decl.map wrap).toList, []⟩ : SourceUnit) : Traced SourceUnit).result = .ok unit) :
    ∀ d ∈ unit.declarations, d.isExported = exported := by
  obtain ⟨decl, hx, h⟩ := Traced.result_bind_eq_ok.mp h
  cases h
  intro d hd
  obtain ⟨a, rfl, rfl⟩ := Option.map_eq_some_iff.mp (Option.mem_toList.mp hd)
  exact hread a hx

/-- A statement that wraps no other marks what it declares as it is told to. -/
theorem isExported_of_statement (hleaf : ¬ n.IsWrapper) {unit : SourceUnit}
    (h : (statement s exported n).result = .ok unit) :
    ∀ d ∈ unit.declarations, d.isExported = exported := by
  have hview := statementView s exported n
  generalize statement s exported n = read at h hview
  cases hview with
  | nothing =>
    cases h
    simp
  | ofImport =>
    obtain ⟨decl, -, h⟩ := Traced.result_bind_eq_ok.mp h
    cases h
    cases decl <;> simp [SourceUnit.importing]
  -- the wrappers, which only hand on
  | exporting _ hkind => exact absurd (.inr hkind) hleaf
  | ambient hkind => exact absurd (.inl hkind) hleaf
  | ofClass => exact isExported_of_lift (fun _ => isExported_of_classDecl) h
  | ofInterface => exact isExported_of_lift (fun _ => isExported_of_interfaceDecl) h
  | ofFunction => exact isExported_of_lift (fun _ => isExported_of_functionDecl) h
  | ofVariables =>
    obtain ⟨decls, hdecls, h⟩ := Traced.result_bind_eq_ok.mp h
    cases h
    obtain ⟨isConst, -, hdecls⟩ := Fault.bind_eq_ok.mp hdecls
    intro d hd
    obtain ⟨v, hv, rfl⟩ := List.mem_map.mp hd
    obtain ⟨declarator, -, hread⟩ := exists_of_mem_collect hdecls hv
    exact isExported_of_variableDecl hread

end Node

/-! ## Programs -/

open Node (Patched Site)

/-- A statement that wraps no other gives a unit: what is read from it alone, with each
declaration exported exactly if an export statement is on the way to it. -/
structure Node.Site.Gives (s : SourceText) (site : Site) (unit : SourceUnit) : Prop where
  read : (Node.statement s site.isExported site.node).result = .ok unit
  exported : ∀ d ∈ unit.declarations,
    d.isExported = true ↔ ∃ w ∈ site.wrappers, w.kind = "export_statement"

/-- The statements that a program comes down to, in order. -/
def Node.programSites (program : Node) : List Site := program.children.flatMap Node.sites

theorem Node.not_isWrapper_of_mem_programSites {program : Node} {site : Site}
    (h : site ∈ program.programSites) : ¬ site.node.IsWrapper := by
  obtain ⟨n, -, hsite⟩ := List.mem_flatMap.mp h
  exact Node.not_isWrapper_of_mem_sites hsite

namespace SourceUnit

variable {text : String} {tree : Node} {unit : SourceUnit}

/-- A program gives what each of its children would give if it stood alone. -/
theorem exists_units_of_children (h : (SourceUnit.ofTree text tree).result = .ok unit) :
    ∃ units, List.Forall₂ (fun c u =>
        (SourceUnit.ofTree text { tree with children := [c] }).result = .ok u)
        tree.children units ∧
      SourceUnit.concat units = unit := by
  obtain ⟨units, hunits, hconcat⟩ := Node.result_statements_eq_ok.mp h
  refine ⟨units, hunits.imp fun c u hread => ?_, hconcat⟩
  exact (Node.result_statements_singleton c).trans hread

/-- A program gives what its sites give one by one. -/
theorem exists_units_of_programSites (h : (SourceUnit.ofTree text tree).result = .ok unit) :
    ∃ units, List.Forall₂ (Site.Gives (SourceText.ofString text)) tree.programSites units ∧
      SourceUnit.concat units = unit := by
  obtain ⟨units, hunits, hconcat⟩ := Node.exists_units_of_statements
    (fun _ _ _ hread => Node.exists_units_of_sites hread) h
  have hleaves := ((List.forall₂_and_left _ _).mpr
    ⟨fun _ => Node.not_isWrapper_of_mem_programSites, hunits⟩)
  refine ⟨units, hleaves.imp ?_, hconcat⟩
  rintro site u ⟨hleaf, hread⟩
  rw [Bool.false_or] at hread
  refine ⟨hread, fun d hd => ?_⟩
  rw [Node.isExported_of_statement hleaf hread d hd, Site.isExported_iff]

/-- A program whose statements can all be read declares and imports what they do one by one, and
so does it with inert nodes put in and taken out. It comes down to statements that wrap no
other, each found by going from node to child, and what these declare is exported exactly if
an export statement is on that way. -/
theorem isolated_ofTree (h : (SourceUnit.ofTree text tree).result = .ok unit) :
    (∃ units, List.Forall₂ (fun c u =>
        (SourceUnit.ofTree text { tree with children := [c] }).result = .ok u)
        tree.children units ∧
      unit.declarations = units.flatMap (·.declarations) ∧
      unit.imports = units.flatMap (·.imports)) ∧
    (∀ children, Patched tree.children children →
      (SourceUnit.ofTree text { tree with children }).result = .ok unit) ∧
    (∃ units, List.Forall₂ (Site.Gives (SourceText.ofString text)) tree.programSites units ∧
      unit.declarations = units.flatMap (·.declarations) ∧
      unit.imports = units.flatMap (·.imports)) ∧
    ∀ site ∈ tree.programSites, ¬ site.node.IsWrapper ∧
      List.IsChain (fun outer c => c ∈ outer.children)
        (tree :: (site.wrappers ++ [site.node])) := by
  refine ⟨?_, ?_, ?_, ?_⟩
  · obtain ⟨units, hunits, rfl⟩ := exists_units_of_children h
    exact ⟨units, hunits, declarations_concat units, imports_concat units⟩
  · intro children hpatched
    exact (hpatched.readAlike.all false).symm.trans h
  · obtain ⟨units, hunits, rfl⟩ := exists_units_of_programSites h
    exact ⟨units, hunits, declarations_concat units, imports_concat units⟩
  · intro site hsite
    obtain ⟨n, hn, hin⟩ := List.mem_flatMap.mp hsite
    exact ⟨Node.not_isWrapper_of_mem_programSites hsite, Node.isChain_of_mem_sites hn hin⟩

/-- A text with a region that cannot be parsed. -/
def brokenText : String := "import \"a\";\n)(\nexport declare var u;\nlet v;"

/-- Its ambient declaration, with more nodes inside. -/
def ambientNode (more : List Node) : Node :=
  ⟨"ambient_declaration", true, 22, 36, some "declaration",
    more ++
      [⟨"declare", false, 22, 29, none, []⟩,
       ⟨"variable_declaration", true, 30, 36, none,
        [⟨"var", false, 30, 33, none, []⟩,
         ⟨"variable_declarator", true, 34, 35, none,
          [⟨"identifier", true, 34, 35, some "name", []⟩]⟩,
         ⟨";", false, 35, 36, none, []⟩]⟩]⟩

/-- The ambient declaration in its export statement. -/
def exportNode (ambient : Node) : Node :=
  ⟨"export_statement", true, 15, 36, none, [⟨"export", false, 15, 21, none, []⟩, ambient]⟩

/-- The import at the start of the text. -/
def importNode : Node :=
  ⟨"import_statement", true, 0, 11, none,
    [⟨"import", false, 0, 6, none, []⟩,
     ⟨"string", true, 7, 10, some "source", []⟩,
     ⟨";", false, 10, 11, none, []⟩]⟩

/-- The declaration at its end. -/
def letNode : Node :=
  ⟨"lexical_declaration", true, 37, 43, none,
    [⟨"let", false, 37, 40, some "kind", []⟩,
     ⟨"variable_declarator", true, 41, 42, none,
      [⟨"identifier", true, 41, 42, some "name", []⟩]⟩,
     ⟨";", false, 42, 43, none, []⟩]⟩

/-- A region that cannot be parsed, between statements. -/
def brokenTree : Node :=
  ⟨"program", true, 0, 43, none,
    [importNode, ⟨"ERROR", true, 12, 14, none, []⟩, exportNode (ambientNode []), letNode]⟩

/-- The same without that region, and with a comment inside of the ambient declaration. -/
def patchedTree : Node :=
  { brokenTree with
    children :=
      [importNode, exportNode (ambientNode [⟨"comment", true, 22, 22, none, []⟩]), letNode] }

theorem patched_brokenTree : Patched brokenTree.children patchedTree.children := by
  have hambient : Patched [ambientNode []]
      [ambientNode [⟨"comment", true, 22, 22, none, []⟩]] :=
    .ambient (n := ambientNode []) rfl (.insert (by decide) (.keep _ (.keep _ .nil))) .nil
  have hexport : Patched [exportNode (ambientNode []), letNode]
      [exportNode (ambientNode [⟨"comment", true, 22, 22, none, []⟩]), letNode] :=
    @Patched.exporting (exportNode (ambientNode [])) _ _ [_] [] _ _ rfl rfl rfl hambient
      (.keep _ .nil)
  exact .keep _ (.remove (by decide) hexport)

theorem isolated_ofTree_broken :
    ∃ unit, (SourceUnit.ofTree brokenText brokenTree).result = .ok unit ∧
      unit.declarations.map (·.isExported) = [true, false] ∧
      Patched brokenTree.children patchedTree.children ∧
      (SourceUnit.ofTree brokenText patchedTree).result = .ok unit ∧
      ∃ units, List.Forall₂ (Site.Gives (SourceText.ofString brokenText)) brokenTree.programSites
          units ∧
        unit.declarations = units.flatMap (·.declarations) := by
  have hunit : (SourceUnit.ofTree brokenText brokenTree).result =
      .ok ⟨[.ofVariable { name := "u", start := 34, stop := some 35, isExported := true },
        .ofVariable { name := "v", start := 41, stop := some 42 }],
        [.ofBare ⟨"a", 0, some 11⟩]⟩ := rfl
  obtain ⟨-, hpatched, ⟨units, hunits, hdeclarations, -⟩, -⟩ := isolated_ofTree hunit
  exact ⟨_, hunit, rfl, patched_brokenTree, hpatched _ patched_brokenTree, units, hunits,
    hdeclarations⟩

end SourceUnit

end CodeOutline
