import CodeOutline.Proofs.Declaration.Origin
import Mathlib.Data.List.Basic

/-!
# The methods of a class

Each node of a class body that stands for a method is read as one, in the order of the
body. A class has one place for a constructor, and what is called like one goes there,
static or not. Hence all methods are kept exactly if at most one of them is called so; of
several, only the last is.
-/

namespace CodeOutline

namespace Node

/-- Whether a node stands for a method: it is of a kind that does, and has a name. -/
def isMethod (kinds : List String) (n : Node) : Bool :=
  kinds.contains n.kind && (n.child? "name").isSome

/-- The nodes of a class body that stand for methods. -/
def methodNodes (body : Node) : List Node :=
  body.namedChildren.filter (isMethod ["method_definition", "abstract_method_signature"])

/-- Whether a name is that of a node. -/
def isCalled (s : SourceText) (name : String) (n : Node) : Bool :=
  (n.child? "name").any fun nameNode => s.textOf nameNode = .ok name

/-- The method that is read from a node. -/
def IsRead (s : SourceText) (n : Node) (m : Method) : Prop :=
  n.method s = .ok (some m)

variable {s : SourceText}

/-! ## Reading methods -/

theorem IsRead.isCalled_eq {n : Node} {m : Method} (h : n.IsRead s m) (name : String) :
    n.isCalled s name = decide (m.name = name) := by
  obtain ⟨nameNode, first, last, hname, htext, -, -⟩ := hasName_of_method h
  simp [isCalled, hname, htext]

/-- A node that stands for a method is read as one, whatever else is a member. -/
theorem member_of_isMethod {methodKinds propertyKinds : List String} {n : Node}
    {item : Option Member} (hn : n.isMethod methodKinds = true)
    (h : n.member s methodKinds propertyKinds = .ok item) :
    ∃ m, item = some (.ofMethod m) ∧ n.IsRead s m := by
  obtain ⟨hkind, hname⟩ := Bool.and_eq_true_iff.mp hn
  rw [member, if_pos hkind] at h
  obtain ⟨found, hfound, rfl⟩ := Fault.map_eq_ok.mp h
  cases found with
  | some m => exact ⟨m, rfl, hfound⟩
  | none =>
    -- only a node without a name is read as no method
    obtain ⟨nameNode, hname⟩ := Option.isSome_iff_exists.mp hname
    rw [method, hname] at hfound
    dsimp only at hfound
    obtain ⟨span, -, hfound⟩ := Fault.bind_eq_ok.mp hfound
    obtain ⟨name, -, hfound⟩ := Fault.bind_eq_ok.mp hfound
    obtain ⟨type, -, hfound⟩ := Fault.bind_eq_ok.mp hfound
    obtain ⟨access, -, hfound⟩ := Fault.bind_eq_ok.mp hfound
    obtain ⟨isStatic, -, hfound⟩ := Fault.bind_eq_ok.mp hfound
    obtain ⟨parameters, -, hfound⟩ := Fault.bind_eq_ok.mp hfound
    cases hfound

theorem member_of_not_isMethod {methodKinds propertyKinds : List String} {n : Node}
    {item : Option Member} (hn : n.isMethod methodKinds = false)
    (h : n.member s methodKinds propertyKinds = .ok item) :
    ∀ member ∈ item, member.method? = none := by
  rw [member] at h
  split at h
  · rename_i hkind
    have hname : n.child? "name" = none := by simpa only [isMethod, hkind, Bool.true_and,
      Option.isSome_eq_false_iff, Option.isNone_iff_eq_none] using hn
    rw [method, hname] at h
    cases h
    simp
  · split at h
    · obtain ⟨found, -, rfl⟩ := Fault.map_eq_ok.mp h
      cases found <;> simp [Member.method?]
    · cases h
      simp

/-- The methods among the members of a body are those of the nodes that stand for one. -/
theorem forall₂_methods {methodKinds propertyKinds : List String} {nodes : List Node}
    {members : List Member} (h : collect (member s methodKinds propertyKinds) nodes = .ok members) :
    List.Forall₂ (IsRead s) (nodes.filter (isMethod methodKinds))
      (members.filterMap Member.method?) := by
  induction nodes generalizing members with
  | nil =>
    cases h
    exact .nil
  | cons n rest ih =>
    obtain ⟨item, hitem, h⟩ := Fault.bind_eq_ok.mp h
    obtain ⟨others, hothers, h⟩ := Fault.bind_eq_ok.mp h
    cases h
    cases hn : n.isMethod methodKinds with
    | true =>
      obtain ⟨m, rfl, hread⟩ := member_of_isMethod hn hitem
      rw [List.filter_cons_of_pos hn]
      exact .cons hread (ih hothers)
    | false =>
      have hnone := member_of_not_isMethod hn hitem
      rw [List.filter_cons_of_neg (by simp [hn])]
      cases item with
      | none => exact ih hothers
      | some first =>
        rw [Option.toList_some, List.singleton_append, List.filterMap_cons_none (hnone first rfl)]
        exact ih hothers

end Node

/-! ## Keeping methods -/

/-- A class keeps methods that were read: each of them once, as its constructor or among
its other methods, and these in the order of reading. -/
structure ClassDecl.Keeps (c : ClassDecl) (read : List Method) : Prop where
  once : (c.ctor.toList ++ c.methods).Perm read
  ordered : c.methods.Sublist read

/-- What becomes of methods that were read: those called like a constructor compete for
one place, which the last of them gets. -/
structure ClassDecl.Splits (c : ClassDecl) (read : List Method) : Prop where
  ctor : c.ctor = (read.filter (·.name = "constructor")).getLast?
  methods : c.methods = read.filter (·.name ≠ "constructor")

theorem length_toList_getLast? {α : Type} (xs : List α) :
    xs.getLast?.toList.length = min 1 xs.length := by
  cases xs with
  | nil => rfl
  | cons x xs => simp [List.getLast?_cons]

theorem toList_getLast? {α : Type} {xs : List α} (h : xs.length ≤ 1) : xs.getLast?.toList = xs := by
  match xs with
  | [] => rfl
  | [x] => rfl
  | x :: y :: xs => simp at h

namespace ClassDecl.Splits

variable {c : ClassDecl} {read : List Method}

/-- Each method but those that another took the place of is counted. -/
theorem length_eq (h : c.Splits read) :
    c.methods.length + c.ctor.toList.length + (read.countP (·.name = "constructor") - 1) =
      read.length := by
  have hall : read.length =
      read.countP (·.name = "constructor") + read.countP (·.name ≠ "constructor") := by
    simpa using List.length_eq_countP_add_countP (fun m : Method => m.name = "constructor")
  rw [h.ctor, h.methods, length_toList_getLast?, ← List.countP_eq_length_filter,
    ← List.countP_eq_length_filter]
  omega

theorem keeps_iff (h : c.Splits read) :
    c.Keeps read ↔ read.countP (·.name = "constructor") ≤ 1 := by
  constructor
  · intro hkeeps
    have hlength := hkeeps.once.length_eq
    rw [List.length_append] at hlength
    have hcounted := h.length_eq
    omega
  · intro hfew
    rw [List.countP_eq_length_filter] at hfew
    refine ⟨?_, ?_⟩
    · rw [h.ctor, h.methods, toList_getLast? hfew]
      simpa using List.filter_append_perm (fun m : Method => m.name = "constructor") read
    · rw [h.methods]
      exact List.filter_sublist

end ClassDecl.Splits

/-! ## Classes -/

namespace Node

variable {s : SourceText} {exported : Bool} {n nameNode body : Node} {decl : Option ClassDecl}

theorem countP_isCalled {nodes : List Node} {read : List Method}
    (h : List.Forall₂ (IsRead s) nodes read) (name : String) :
    nodes.countP (isCalled s name) = read.countP (·.name = name) := by
  induction h with
  | nil => rfl
  | cons hread _ ih => rw [List.countP_cons, List.countP_cons, ih, hread.isCalled_eq name]

/-- A class with a name and a body splits the methods that were read from its body. -/
theorem exists_splits (hname : n.child? "name" = some nameNode)
    (hbody : n.child? "body" = some body) (h : n.classDecl s exported = .ok decl) :
    ∃ c read, decl = some c ∧ List.Forall₂ (IsRead s) body.methodNodes read ∧ c.Splits read := by
  rw [classDecl, hname, hbody] at h
  dsimp only at h
  obtain ⟨span, -, h⟩ := Fault.bind_eq_ok.mp h
  obtain ⟨name, -, h⟩ := Fault.bind_eq_ok.mp h
  obtain ⟨members, hmembers, h⟩ := Fault.bind_eq_ok.mp h
  cases h
  exact ⟨_, _, rfl, forall₂_methods hmembers, rfl, rfl⟩

/-- A class keeps the methods of its body exactly if at most one of them is called like a
constructor. In any case it keeps the others in their order, and of several constructors
the last, so that all but one of these are lost. -/
theorem keeps_methods_iff (hname : n.child? "name" = some nameNode)
    (hbody : n.child? "body" = some body) (h : n.classDecl s exported = .ok decl) :
    ∃ c read, decl = some c ∧ List.Forall₂ (IsRead s) body.methodNodes read ∧ c.Splits read ∧
      c.methods.length + c.ctor.toList.length +
          (body.methodNodes.countP (isCalled s "constructor") - 1) = body.methodNodes.length ∧
      (c.Keeps read ↔ body.methodNodes.countP (isCalled s "constructor") ≤ 1) := by
  obtain ⟨c, read, rfl, hread, hsplits⟩ := exists_splits hname hbody h
  refine ⟨c, read, rfl, hread, hsplits, ?_, ?_⟩
  · rw [countP_isCalled hread, hread.length_eq]
    exact hsplits.length_eq
  · rw [countP_isCalled hread]
    exact hsplits.keeps_iff

end Node

/-- A class with a constructor and a static method of that name. -/
def sharedName : SourceText :=
  .ofString "class A { constructor() {} m() {} static constructor() {} }"

/-- A method of that class, by its first byte and those of its name and its parameters. -/
def bareMethod (start name parameters : Nat) (modifiers : List Node) : Node :=
  ⟨"method_definition", true, start, parameters + 5, none,
    modifiers ++
      [⟨"property_identifier", true, name, parameters, some "name", []⟩,
       ⟨"formal_parameters", true, parameters, parameters + 2, some "parameters",
        [⟨"(", false, parameters, parameters + 1, none, []⟩,
         ⟨")", false, parameters + 1, parameters + 2, none, []⟩]⟩,
       ⟨"statement_block", true, parameters + 3, parameters + 5, some "body", []⟩]⟩

/-- The constructor and the method of another name. -/
def distinctMethods : List Node := [bareMethod 10 10 21 [], bareMethod 27 27 28 []]

/-- The static method. -/
def staticMethod : Node := bareMethod 34 41 52 [⟨"static", false, 34, 40, none, []⟩]

/-- The tree of the class with some of its members. -/
def classTree (members : List Node) : Node :=
  ⟨"class_declaration", true, 0, 59, none,
    [⟨"class", false, 0, 5, none, []⟩,
     ⟨"type_identifier", true, 6, 7, some "name", []⟩,
     ⟨"class_body", true, 8, 59, some "body", members⟩]⟩

theorem keeps_methods_iff_distinct :
    ∃ c read, (classTree distinctMethods).classDecl sharedName false = .ok (some c) ∧
      List.Forall₂ (Node.IsRead sharedName) distinctMethods read ∧ c.Keeps read ∧
      c.methods.length + c.ctor.toList.length = 2 := by
  have hread : (classTree distinctMethods).classDecl sharedName false =
      .ok (some
        { name := "A", stop := some 59,
          ctor := some
            { name := "constructor", start := 10, stop := some 26, isStatic := some false }
          methods :=
            [{ name := "m", start := 27, stop := some 33, isStatic := some false }] }) := rfl
  obtain ⟨c, read, hc, hmethods, -, hlength, hkeeps⟩ := Node.keeps_methods_iff rfl rfl hread
  refine ⟨c, read, hread.trans (congrArg _ hc), hmethods, hkeeps.mpr (by decide), ?_⟩
  exact hlength

/-- The static method takes the place of the constructor, which is lost. -/
theorem not_keeps_sharedName :
    ∃ c read, (classTree (distinctMethods ++ [staticMethod])).classDecl sharedName false =
        .ok (some c) ∧
      List.Forall₂ (Node.IsRead sharedName) (distinctMethods ++ [staticMethod]) read ∧
      ¬ c.Keeps read ∧ c.methods.length + c.ctor.toList.length ≠ read.length := by
  have hread : (classTree (distinctMethods ++ [staticMethod])).classDecl sharedName false =
      .ok (some
        { name := "A", stop := some 59,
          ctor := some
            { name := "constructor", start := 34, stop := some 57, isStatic := some true }
          methods :=
            [{ name := "m", start := 27, stop := some 33, isStatic := some false }] }) := rfl
  obtain ⟨c, read, hc, hmethods, hsplits⟩ := Node.exists_splits rfl rfl hread
  have hcount : read.countP (·.name = "constructor") = 2 := by
    rw [← Node.countP_isCalled hmethods]
    decide
  have hlength := hsplits.length_eq
  refine ⟨c, read, hread.trans (congrArg _ hc), hmethods, ?_, ?_⟩
  · rw [hsplits.keeps_iff, hcount]
    decide
  · omega

end CodeOutline
