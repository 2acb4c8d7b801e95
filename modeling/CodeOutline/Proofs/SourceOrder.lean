import CodeOutline.Proofs.Declaration.Origin
import CodeOutline.Proofs.Document.Ranges
import CodeOutline.Proofs.Outline.Sections
import CodeOutline.Proofs.SourceText
import CodeOutline.Proofs.Token.OfDeclaration
import Mathlib.Tactic.MkIffOfInductiveProp

/-!
# Source order

Where the nodes of a syntax tree lie inside their parents, one after another, the
declarations of the unit read from it lie one after another in the text, however
deep the statements are that they come from, and so do its imports. The lines of
the variables and of the functions of an outline therefore never decrease.

The order is followed in bytes, which the tree counts, and taken to characters at
the end: a later byte belongs to the same character or to a later one.
-/

namespace CodeOutline

/-! ## Trees in order -/

/-- A tree in which no node ends before it starts, and the children of a node lie
inside of it, one after another. -/
structure Node.Nested (tree : Node) : Prop where
  ends : ∀ n : Node, n.Within tree → n.start ≤ n.stop
  inside : ∀ n : Node, n.Within tree → ∀ c ∈ n.children, n.start ≤ c.start ∧ c.stop ≤ n.stop
  apart : ∀ n : Node, n.Within tree → n.children.Pairwise fun c c' => c.stop ≤ c'.start

/-- Nodes one after another between two bytes. -/
@[mk_iff]
structure Node.Spaced (low high : Nat) (nodes : List Node) : Prop where
  bounds : low ≤ high
  ends : ∀ n ∈ nodes, n.start ≤ n.stop
  inside : ∀ n ∈ nodes, low ≤ n.start ∧ n.stop ≤ high
  apart : nodes.Pairwise fun n n' => n.stop ≤ n'.start

namespace Node

theorem Nested.of_mem {c n : Node} (h : n.Nested) (hc : c ∈ n.children) : c.Nested := by
  have hwithin : ∀ m : Node, m.Within c → m.Within n := fun m hm => hm.trans (.of_mem hc)
  constructor
  · exact fun m hm => h.ends m (hwithin m hm)
  · exact fun m hm => h.inside m (hwithin m hm)
  · exact fun m hm => h.apart m (hwithin m hm)

theorem Nested.spaced {n : Node} (h : n.Nested) : Spaced n.start n.stop n.children := by
  constructor
  · exact h.ends n (.self n)
  · exact fun c hc => h.ends c (.of_mem hc)
  · exact h.inside n (.self n)
  · exact h.apart n (.self n)

theorem nested_mk_iff {kind : String} {named : Bool} {start stop : Nat}
    {field : Option String} {children : List Node} :
    Nested ⟨kind, named, start, stop, field, children⟩ ↔
      Spaced start stop children ∧ ∀ c ∈ children, c.Nested := by
  constructor
  · intro h
    exact ⟨h.spaced, fun c hc => h.of_mem hc⟩
  · rintro ⟨hspaced, hchildren⟩
    constructor
    all_goals
      intro n hn
      rcases within_mk_iff.mp hn with rfl | ⟨c, hc, hn⟩
    · exact hspaced.bounds
    · exact (hchildren c hc).ends n hn
    · exact hspaced.inside
    · exact (hchildren c hc).inside n hn
    · exact hspaced.apart
    · exact (hchildren c hc).apart n hn

theorem Spaced.filter {low high : Nat} {nodes : List Node} (h : Spaced low high nodes)
    (p : Node → Bool) : Spaced low high (nodes.filter p) := by
  constructor
  · exact h.bounds
  · exact fun n hn => h.ends n (List.mem_of_mem_filter hn)
  · exact fun n hn => h.inside n (List.mem_of_mem_filter hn)
  · exact h.apart.filter p

theorem Spaced.tail {low high : Nat} {n : Node} {rest : List Node}
    (h : Spaced low high (n :: rest)) : Spaced n.stop high rest := by
  have hapart := List.pairwise_cons.mp h.apart
  constructor
  · exact (h.inside n (by simp)).2
  · exact fun m hm => h.ends m (List.mem_cons_of_mem n hm)
  · exact fun m hm => ⟨hapart.1 m hm, (h.inside m (List.mem_cons_of_mem n hm)).2⟩
  · exact hapart.2

end Node

/-! ## Stretches in order -/

/-- The characters that a declaration covers. -/
def Declaration.extent : Declaration → Int × Option Int
  | .ofClass c => (c.start, c.stop)
  | .ofInterface i => (i.start, i.stop)
  | .ofVariable v => (v.start, v.stop)
  | .ofFunction f => (f.start, f.stop)
  | .unknown => (0, none)

/-- The characters that an import covers. -/
def Import.extent : Import → Int × Option Int
  | .ofNamed i => (i.start, i.stop)
  | .ofNamespace i => (i.start, i.stop)
  | .ofDefault i => (i.start, i.stop)
  | .ofBare i => (i.start, i.stop)
  | .unknown => (0, none)

/-- Stretches in source order: each ends, and not before its start, and a later one
does not start before that end. -/
structure InSourceOrder (extents : List (Int × Option Int)) : Prop where
  ends : ∀ e ∈ extents, ∃ stop, e.2 = some stop ∧ e.1 ≤ stop
  apart : extents.Pairwise fun e e' => ∀ stop ∈ e.2, stop ≤ e'.1

/-- Stretches one after another between two bytes of a text, each between bytes of
its own. -/
def FollowOn (s : SourceText) (high : Nat) : Nat → List (Int × Option Int) → Prop
  | low, [] => low ≤ high
  | low, e :: rest => ∃ a b i j : Nat, low ≤ a ∧ a ≤ b ∧ s.offset a = .ok i ∧ s.offset b = .ok j ∧
      e = ((i : Int), some (j : Int)) ∧ FollowOn s high b rest

namespace FollowOn

variable {s : SourceText} {low low' mid high : Nat} {es es' : List (Int × Option Int)}

theorem mono_low (h : FollowOn s high low es) (hlow : low' ≤ low) : FollowOn s high low' es := by
  cases es with
  | nil => exact Nat.le_trans hlow h
  | cons e rest =>
    obtain ⟨a, b, i, j, ha, hrest⟩ := h
    exact ⟨a, b, i, j, Nat.le_trans hlow ha, hrest⟩

theorem single {a i j : Nat} (hlow : low ≤ a) (hhigh : a ≤ high) (hi : s.offset a = .ok i)
    (hj : s.offset high = .ok j) : FollowOn s high low [((i : Int), some (j : Int))] :=
  ⟨a, high, i, j, hlow, hhigh, hi, hj, rfl, Nat.le_refl high⟩

theorem append (h : FollowOn s mid low es) (h' : FollowOn s high mid es') :
    FollowOn s high low (es ++ es') := by
  induction es generalizing low with
  | nil => exact h'.mono_low h
  | cons e rest ih =>
    obtain ⟨a, b, i, j, ha, hab, hi, hj, he, hrest⟩ := h
    exact ⟨a, b, i, j, ha, hab, hi, hj, he, ih hrest⟩

theorem widen (h : FollowOn s mid low es) (hlow : low' ≤ low) (hhigh : mid ≤ high) :
    FollowOn s high low' es := by
  have hall : FollowOn s high low (es ++ []) := h.append hhigh
  rw [List.append_nil] at hall
  exact hall.mono_low hlow

/-- What follows a place starts there or later. -/
theorem le_start (h : FollowOn s high low es) {k : Nat} (hk : s.offset low = .ok k) :
    ∀ e ∈ es, (k : Int) ≤ e.1 := by
  induction es generalizing low k with
  | nil => simp
  | cons e rest ih =>
    obtain ⟨a, b, i, j, ha, hab, hi, hj, rfl, hrest⟩ := h
    have hki : k ≤ i := SourceText.offset_mono ha hk hi
    have hij : i ≤ j := SourceText.offset_mono hab hi hj
    intro e' he'
    rcases List.mem_cons.mp he' with rfl | he'
    · exact Int.ofNat_le.mpr hki
    · have := ih hrest hj e' he'
      omega

/-- Stretches between bytes one after another are in source order, as offsets never decrease
from byte to byte. -/
theorem inSourceOrder (h : FollowOn s high low es) : InSourceOrder es := by
  induction es generalizing low with
  | nil => exact ⟨by simp, .nil⟩
  | cons e rest ih =>
    obtain ⟨a, b, i, j, -, hab, hi, hj, rfl, hrest⟩ := h
    have hij : i ≤ j := SourceText.offset_mono hab hi hj
    constructor
    · intro e' he'
      rcases List.mem_cons.mp he' with rfl | he'
      · exact ⟨j, rfl, Int.ofNat_le.mpr hij⟩
      · exact (ih hrest).ends e' he'
    · refine List.pairwise_cons.mpr ⟨?_, (ih hrest).apart⟩
      intro e' he' stop hstop
      cases hstop
      exact hrest.le_start hj e' he'

end FollowOn

/-! ## Single declarations -/

namespace Node

variable {s : SourceText}

theorem followOn_of_offsets {n : Node} (htree : n.Nested) {first last : Nat}
    (h : n.offsets s = .ok (first, last)) :
    FollowOn s n.stop n.start [((first : Int), some (last : Int))] := by
  obtain ⟨i, hi, h⟩ := Fault.bind_eq_ok.mp h
  obtain ⟨j, hj, h⟩ := Fault.bind_eq_ok.mp h
  cases h
  exact .single (Nat.le_refl _) (htree.ends n (.self n)) hi hj

/-- A span leaves out decorators, but starts inside of the node. -/
theorem followOn_of_span {n : Node} (htree : n.Nested) {first last : Nat}
    (h : n.span s = .ok (first, last)) :
    FollowOn s n.stop n.start [((first : Int), some (last : Int))] := by
  obtain ⟨i, hi, h⟩ := Fault.bind_eq_ok.mp h
  obtain ⟨j, hj, h⟩ := Fault.bind_eq_ok.mp h
  cases h
  cases hfound : n.children.find? (·.kind ≠ "decorator") with
  | none =>
    rw [hfound] at hi
    exact .single (Nat.le_refl _) (htree.ends n (.self n)) hi hj
  | some c =>
    rw [hfound] at hi
    have hmem := List.mem_of_find?_eq_some hfound
    have hinside := htree.inside n (.self n) c hmem
    have hends := htree.ends c (.of_mem hmem)
    exact .single hinside.1 (Nat.le_trans hends hinside.2) hi hj

/-- A stretch that is the span of a node. -/
def Covers (s : SourceText) (n : Node) (e : Int × Option Int) : Prop :=
  ∃ first last : Nat, n.span s = .ok (first, last) ∧ e = ((first : Int), some (last : Int))

theorem covers_of_classDecl {exported : Bool} {n : Node} {c : ClassDecl}
    (h : n.classDecl s exported = .ok (some c)) : n.Covers s (Declaration.ofClass c).extent := by
  rw [classDecl] at h
  split at h
  · obtain ⟨⟨first, last⟩, hspan, h⟩ := Fault.bind_eq_ok.mp h
    obtain ⟨name, -, h⟩ := Fault.bind_eq_ok.mp h
    obtain ⟨members, -, h⟩ := Fault.bind_eq_ok.mp h
    cases h
    exact ⟨first, last, hspan, rfl⟩
  · cases h

theorem covers_of_interfaceDecl {exported : Bool} {n : Node} {i : InterfaceDecl}
    (h : n.interfaceDecl s exported = .ok (some i)) :
    n.Covers s (Declaration.ofInterface i).extent := by
  rw [interfaceDecl] at h
  split at h
  · obtain ⟨⟨first, last⟩, hspan, h⟩ := Fault.bind_eq_ok.mp h
    obtain ⟨name, -, h⟩ := Fault.bind_eq_ok.mp h
    obtain ⟨members, -, h⟩ := Fault.bind_eq_ok.mp h
    cases h
    exact ⟨first, last, hspan, rfl⟩
  · cases h

theorem covers_of_functionDecl {exported : Bool} {n : Node} {f : FunctionDecl}
    (h : n.functionDecl s exported = .ok (some f)) :
    n.Covers s (Declaration.ofFunction f).extent := by
  rw [functionDecl] at h
  split at h
  · cases h
  · obtain ⟨⟨first, last⟩, hspan, h⟩ := Fault.bind_eq_ok.mp h
    obtain ⟨name, -, h⟩ := Fault.bind_eq_ok.mp h
    obtain ⟨type, -, h⟩ := Fault.bind_eq_ok.mp h
    obtain ⟨parameters, -, h⟩ := Fault.bind_eq_ok.mp h
    cases h
    exact ⟨first, last, hspan, rfl⟩

theorem covers_of_variableDecl {exported isConst : Bool} {n : Node} {v : VariableDecl}
    (h : n.variableDecl s exported isConst = .ok (some v)) :
    n.Covers s (Declaration.ofVariable v).extent := by
  rw [variableDecl] at h
  split at h
  · cases h
  split at h
  · cases h
  · obtain ⟨init, -, h⟩ := Fault.bind_eq_ok.mp h
    obtain ⟨⟨first, last⟩, hspan, h⟩ := Fault.bind_eq_ok.mp h
    obtain ⟨name, -, h⟩ := Fault.bind_eq_ok.mp h
    obtain ⟨type, -, h⟩ := Fault.bind_eq_ok.mp h
    cases h
    exact ⟨first, last, hspan, rfl⟩

/-- Whatever the clause says, the import covers its whole statement. -/
theorem extent_clauseImport {library : String} {start stop : Nat} {defaultName : Option String}
    {nodes : List Node} {i : Import}
    (h : clauseImport s library start stop defaultName nodes = .ok (some i)) :
    i.extent = ((start : Int), some (stop : Int)) := by
  induction nodes generalizing defaultName with
  | nil =>
    cases defaultName with
    | none => cases h
    | some name =>
      cases h
      rfl
  | cons n rest ih =>
    rw [clauseImport] at h
    by_cases hname : n.kind = "identifier"
    · rw [if_pos hname] at h
      obtain ⟨name, -, h⟩ := Fault.bind_eq_ok.mp h
      exact ih h
    rw [if_neg hname] at h
    by_cases hspace : n.kind = "namespace_import"
    · rw [if_pos hspace] at h
      split at h
      · cases h
        rfl
      · obtain ⟨name, -, h⟩ := Fault.bind_eq_ok.mp h
        cases h
        rfl
    rw [if_neg hspace] at h
    by_cases hnames : n.kind = "named_imports"
    · rw [if_pos hnames] at h
      obtain ⟨specifiers, -, h⟩ := Fault.bind_eq_ok.mp h
      cases h
      rfl
    rw [if_neg hnames] at h
    exact ih h

theorem followOn_of_importDecl {n : Node} (htree : n.Nested) {i : Import}
    (h : n.importDecl s = .ok (some i)) : FollowOn s n.stop n.start [i.extent] := by
  rw [importDecl] at h
  split at h
  · cases h
  · obtain ⟨library, -, h⟩ := Fault.bind_eq_ok.mp h
    obtain ⟨⟨start, stop⟩, hoffsets, h⟩ := Fault.bind_eq_ok.mp h
    have hextent : i.extent = ((start : Int), some (stop : Int)) := by
      dsimp only at h
      split at h
      · cases h
        rfl
      · exact extent_clauseImport h
    rw [hextent]
    exact followOn_of_offsets htree hoffsets

/-- What is read from nodes one after another, such as the declarators of a statement,
lies in the order of the nodes. -/
theorem followOn_collect {α : Type} {f : Node → Except Fault (Option α)}
    {extent : α → Int × Option Int} {low high : Nat} {nodes : List Node} {items : List α}
    (hspaced : Spaced low high nodes)
    (hf : ∀ n ∈ nodes, ∀ a, f n = .ok (some a) → FollowOn s n.stop n.start [extent a])
    (h : collect f nodes = .ok items) : FollowOn s high low (items.map extent) := by
  induction nodes generalizing low items with
  | nil =>
    cases h
    exact hspaced.bounds
  | cons n rest ih =>
    obtain ⟨item, hitem, h⟩ := Fault.bind_eq_ok.mp h
    obtain ⟨others, hothers, h⟩ := Fault.bind_eq_ok.mp h
    cases h
    have hlow : low ≤ n.start := (hspaced.inside n (by simp)).1
    have hends : n.start ≤ n.stop := hspaced.ends n (by simp)
    have hrest : FollowOn s high n.stop (others.map extent) :=
      ih hspaced.tail (fun m hm => hf m (List.mem_cons_of_mem n hm)) hothers
    cases item with
    | none => exact hrest.mono_low (Nat.le_trans hlow hends)
    | some a => exact ((hf n (by simp) a hitem).append hrest).mono_low hlow

end Node

/-! ## Source units -/

/-- A unit whose declarations, and whose imports, lie one after another between two
bytes of a text. -/
structure SourceUnit.FollowsOn (s : SourceText) (low high : Nat) (unit : SourceUnit) : Prop where
  declarations : FollowOn s high low (unit.declarations.map Declaration.extent)
  imports : FollowOn s high low (unit.imports.map Import.extent)

namespace SourceUnit.FollowsOn

variable {s : SourceText} {low low' mid high : Nat}

theorem widen {unit : SourceUnit} (h : unit.FollowsOn s low mid) (hlow : low' ≤ low)
    (hhigh : mid ≤ high) : unit.FollowsOn s low' high :=
  ⟨h.declarations.widen hlow hhigh, h.imports.widen hlow hhigh⟩

theorem append {a b : SourceUnit} (ha : a.FollowsOn s low mid) (hb : b.FollowsOn s mid high) :
    (a ++ b).FollowsOn s low high := by
  constructor
  · show FollowOn s high low ((a.declarations ++ b.declarations).map Declaration.extent)
    rw [List.map_append]
    exact ha.declarations.append hb.declarations
  · show FollowOn s high low ((a.imports ++ b.imports).map Import.extent)
    rw [List.map_append]
    exact ha.imports.append hb.imports

/-- Units follow each other as the nodes do that they are read from. -/
theorem concat {nodes : List Node} {units : List SourceUnit} (hspaced : Node.Spaced low high nodes)
    (h : List.Forall₂ (fun n unit => unit.FollowsOn s n.start n.stop) nodes units) :
    (SourceUnit.concat units).FollowsOn s low high := by
  induction h generalizing low with
  | nil => exact ⟨hspaced.bounds, hspaced.bounds⟩
  | cons hfirst _ ih =>
    exact (hfirst.append (ih hspaced.tail)).widen (hspaced.inside _ (by simp)).1 (Nat.le_refl _)

/-- One kind of declaration, read from a node if the node stands for one. -/
theorem of_lift {α : Type} {x : Except Fault (Option α)} {wrap : α → Declaration} {n : Node}
    (htree : n.Nested) (hcovers : ∀ a, x = .ok (some a) → n.Covers s (wrap a).extent)
    {unit : SourceUnit}
    (h : (do
      let decl ← Traced.lift x
      pure (⟨(decl.map wrap).toList, []⟩ : SourceUnit) : Traced SourceUnit).result = .ok unit) :
    unit.FollowsOn s n.start n.stop := by
  obtain ⟨decl, hx, h⟩ := Traced.result_bind_eq_ok.mp h
  cases h
  have hends : n.start ≤ n.stop := htree.ends n (.self n)
  cases decl with
  | none => exact ⟨hends, hends⟩
  | some a =>
    obtain ⟨first, last, hspan, hextent⟩ := hcovers a hx
    refine ⟨?_, hends⟩
    show FollowOn s n.stop n.start [(wrap a).extent]
    rw [hextent]
    exact Node.followOn_of_span htree hspan

end SourceUnit.FollowsOn

namespace Node

variable {s : SourceText}

theorem followsOn_variableDecls {exported : Bool} {n : Node} (htree : n.Nested)
    {decls : List VariableDecl} (h : n.variableDecls s exported = .ok decls) :
    SourceUnit.FollowsOn s n.start n.stop ⟨decls.map .ofVariable, []⟩ := by
  obtain ⟨isConst, -, h⟩ := Fault.bind_eq_ok.mp h
  refine ⟨?_, htree.ends n (.self n)⟩
  rw [List.map_map]
  refine followOn_collect (htree.spaced.filter _) ?_ h
  intro c hc v hv
  obtain ⟨first, last, hspan, hextent⟩ := covers_of_variableDecl hv
  rw [Function.comp, hextent]
  exact followOn_of_span (htree.of_mem (List.mem_of_mem_filter hc)) hspan

/-- Statements that lie one after another declare what lies one after another, if each declares
what lies inside of it. -/
theorem followsOn_statements {exported : Bool} {low high : Nat} {nodes : List Node}
    (hspaced : Spaced low high nodes)
    (hread : ∀ n ∈ nodes, ∀ unit, (statement s exported n).result = .ok unit →
      unit.FollowsOn s n.start n.stop)
    {unit : SourceUnit} (h : (statements s exported nodes).result = .ok unit) :
    unit.FollowsOn s low high := by
  obtain ⟨units, hunits, rfl⟩ := result_statements_eq_ok.mp h
  refine .concat hspaced (List.Forall₂.imp ?_ ((List.forall₂_and_left _ _).mpr ⟨hread, hunits⟩))
  intro n unit hn
  exact hn.1 unit hn.2

/-- What a statement declares and imports lies inside of it, in order. -/
theorem followsOn_statement (exported : Bool) {n : Node} (htree : n.Nested) {unit : SourceUnit}
    (h : (statement s exported n).result = .ok unit) : unit.FollowsOn s n.start n.stop := by
  induction n using childrenInduction generalizing exported unit with
  | node n ih =>
    have hends : n.start ≤ n.stop := htree.ends n (.self n)
    have hview := statementView s exported n
    generalize statement s exported n = read at h hview
    cases hview with
    | nothing =>
      cases h
      exact ⟨hends, hends⟩
    | ofImport =>
      obtain ⟨decl, hdecl, h⟩ := Traced.result_bind_eq_ok.mp h
      cases h
      cases decl with
      | none => exact ⟨hends, hends⟩
      | some i => exact ⟨hends, followOn_of_importDecl htree hdecl⟩
    | exporting c hkind hc =>
      have hmem := mem_children_of_exported? hc
      have hinside := htree.inside n (.self n) c hmem
      exact (ih c hmem true (htree.of_mem hmem) h).widen hinside.1 hinside.2
    | ambient =>
      refine followsOn_statements (htree.spaced.filter _) ?_ h
      intro c hc unit h
      have hmem := List.mem_of_mem_filter hc
      exact ih c hmem exported (htree.of_mem hmem) h
    | ofClass => exact .of_lift htree (fun c => covers_of_classDecl) h
    | ofInterface => exact .of_lift htree (fun i => covers_of_interfaceDecl) h
    | ofFunction => exact .of_lift htree (fun f => covers_of_functionDecl) h
    | ofVariables =>
      obtain ⟨decls, hdecls, h⟩ := Traced.result_bind_eq_ok.mp h
      cases h
      exact followsOn_variableDecls htree hdecls

end Node

theorem SourceUnit.followsOn_ofTree {text : String} {tree : Node} (htree : tree.Nested)
    {unit : SourceUnit} (h : (SourceUnit.ofTree text tree).result = .ok unit) :
    unit.FollowsOn (SourceText.ofString text) tree.start tree.stop := by
  refine Node.followsOn_statements htree.spaced ?_ h
  intro n hn unit h
  exact Node.followsOn_statement false (htree.of_mem hn) h

/-! ## Lines of an outline -/

/-- Where an entry stands; classes and interfaces do not say. -/
def Token.position? : Token → Option Range
  | .ofEntity _ => none
  | .ofMethod t => t.position
  | .ofVariable t => t.position
  | .ofImport t => t.position

/-- A section whose entries each stand on one line, none of them on a line before
that of an earlier entry. -/
def Outline.LinesInOrder (o : Outline) (sec : Section) : Prop :=
  ∃ ranges : List Range, (o.tokensIn sec).map Token.position? = ranges.map some ∧
    (∀ r ∈ ranges, r.stop.line = r.start.line) ∧
    ranges.Pairwise fun r r' => r.start.line ≤ r'.start.line

theorem InSourceOrder.starts {es : List (Int × Option Int)} (h : InSourceOrder es) :
    es.Pairwise fun e e' => e.1 ≤ e'.1 := by
  refine h.apart.imp_of_mem ?_
  intro e e' he _ hapart
  obtain ⟨stop, hstop, hle⟩ := h.ends e he
  exact Int.le_trans hle (hapart stop hstop)

/-- The declarations of one kind start in source order. -/
theorem InSourceOrder.starts_of_pick {α : Type} {decls : List Declaration}
    (h : InSourceOrder (decls.map Declaration.extent)) {pick : Declaration → Option α}
    {start : α → Int} (hpick : ∀ dec a, pick dec = some a → dec.extent.1 = start a) :
    (decls.filterMap pick).Pairwise fun a a' => start a ≤ start a' := by
  rw [List.pairwise_filterMap]
  refine (List.pairwise_map.mp h.starts).imp ?_
  intro dec dec' hle a ha a' ha'
  rw [← hpick dec a ha, ← hpick dec' a' ha']
  exact hle

/-- Entries that are looked for at starts in order stand on lines in order. -/
theorem Outline.linesInOrder_of_starts {α : Type} {o : Outline} {sec : Section} (d : Document)
    (items : List α) (name : α → String) (start : α → Int)
    (hplaced : List.Forall₂ (fun a t => t.position? = some (d.identifierRange (name a) (start a)))
      items (o.tokensIn sec))
    (hstarts : items.Pairwise fun a a' => start a ≤ start a') : o.LinesInOrder sec := by
  refine ⟨items.map fun a => d.identifierRange (name a) (start a), ?_, ?_, ?_⟩
  · generalize o.tokensIn sec = tokens at hplaced
    induction hplaced with
    | nil => rfl
    | cons hfirst _ ih =>
      rw [List.map_cons, List.map_cons, List.map_cons, hfirst, ih (List.pairwise_cons.mp hstarts).2]
  · intro r hr
    obtain ⟨a, -, rfl⟩ := List.mem_map.mp hr
    unfold Document.identifierRange
    cases d.sight (name a) (start a) <;> rfl
  · rw [List.pairwise_map]
    refine hstarts.imp ?_
    intro a a' hle
    rw [Document.line_identifierRange, Document.line_identifierRange]
    exact d.line_positionAt_mono hle

variable {d : Document} {config : Config} {unit : SourceUnit} {o : Outline}

/-- The entries for variables stand on lines in order: each stands on the line of its start, and
later starts are on no earlier lines. -/
theorem Outline.linesInOrder_globals (h : InSourceOrder (unit.declarations.map Declaration.extent))
    (ho : (Outline.ofUnit d config unit).result = .ok o) : o.LinesInOrder .globals := by
  refine linesInOrder_of_starts d unit.globals (·.name) (·.start) ?_ ?_
  · refine List.Forall₂.imp ?_ (Outline.lists_ofUnit ho).globals
    rintro v t ⟨tok, rfl, htok⟩
    exact VariableDecl.position_token htok
  · refine h.starts_of_pick ?_
    intro dec v hv
    rw [Declaration.asVariable?_eq_some.mp hv]
    rfl

theorem Outline.linesInOrder_functions
    (h : InSourceOrder (unit.declarations.map Declaration.extent))
    (ho : (Outline.ofUnit d config unit).result = .ok o) : o.LinesInOrder .functions := by
  refine linesInOrder_of_starts d unit.functions (·.name) (·.start) ?_ ?_
  · refine List.Forall₂.imp ?_ (Outline.lists_ofUnit ho).functions
    rintro f t ⟨tok, rfl, htok⟩
    exact FunctionDecl.position_token htok
  · refine h.starts_of_pick ?_
    intro dec f hf
    rw [Declaration.asFunction?_eq_some.mp hf]
    rfl

/-- If the nodes of a syntax tree lie inside their parents, one after another, then what
is read from it is in source order, and so are the lines of the variables and of the
functions in each outline of it. -/
theorem SourceUnit.inSourceOrder_ofTree {text : String} {tree : Node} {unit : SourceUnit}
    (htree : tree.Nested) (h : (SourceUnit.ofTree text tree).result = .ok unit) :
    InSourceOrder (unit.declarations.map Declaration.extent) ∧
      InSourceOrder (unit.imports.map Import.extent) ∧
      ∀ (d : Document) (config : Config) (o : Outline),
        (Outline.ofUnit d config unit).result = .ok o →
          o.LinesInOrder .globals ∧ o.LinesInOrder .functions := by
  have hfollows := SourceUnit.followsOn_ofTree htree h
  have horder := hfollows.declarations.inSourceOrder
  refine ⟨horder, hfollows.imports.inSourceOrder, ?_⟩
  intro d config o ho
  exact ⟨Outline.linesInOrder_globals horder ho, Outline.linesInOrder_functions horder ho⟩

/-! ## An example -/

/-- A text with a character of two bytes, two variables in one exported statement, an
ambient one, and a function after a decorator. -/
def wrappedText : String :=
  "import 'é';\nexport let u, v;\ndeclare var w;\n@d function f() \x7b\x7d\nimport 'b';"

/-- The syntax tree of `wrappedText`. -/
def wrappedTree : Node :=
  ⟨"program", true, 0, 75, none,
    [⟨"import_statement", true, 0, 12, none,
       [⟨"import", false, 0, 6, none, []⟩, ⟨"string", true, 7, 11, some "source", []⟩]⟩,
     ⟨"export_statement", true, 13, 29, none,
       [⟨"export", false, 13, 19, none, []⟩,
        ⟨"lexical_declaration", true, 20, 29, some "declaration",
          [⟨"let", false, 20, 23, some "kind", []⟩,
           ⟨"variable_declarator", true, 24, 25, none,
             [⟨"identifier", true, 24, 25, some "name", []⟩]⟩,
           ⟨"variable_declarator", true, 27, 28, none,
             [⟨"identifier", true, 27, 28, some "name", []⟩]⟩]⟩]⟩,
     ⟨"ambient_declaration", true, 30, 44, none,
       [⟨"declare", false, 30, 37, none, []⟩,
        ⟨"variable_declaration", true, 38, 44, none,
          [⟨"var", false, 38, 41, none, []⟩,
           ⟨"variable_declarator", true, 42, 43, none,
             [⟨"identifier", true, 42, 43, some "name", []⟩]⟩]⟩]⟩,
     ⟨"function_declaration", true, 45, 63, none,
       [⟨"decorator", true, 45, 47, none, []⟩, ⟨"function", false, 48, 56, none, []⟩,
        ⟨"identifier", true, 57, 58, some "name", []⟩]⟩,
     ⟨"import_statement", true, 64, 75, none,
       [⟨"import", false, 64, 70, none, []⟩, ⟨"string", true, 71, 74, some "source", []⟩]⟩]⟩

theorem nested_wrappedTree : wrappedTree.Nested := by
  simp [wrappedTree, Node.nested_mk_iff, Node.spaced_iff]

theorem inSourceOrder_wrapped :
    ∃ unit, wrappedTree.Nested ∧ (SourceUnit.ofTree wrappedText wrappedTree).result = .ok unit ∧
      unit.declarations.map Declaration.extent =
        [(23, some 24), (26, some 27), (41, some 42), (47, some 62)] ∧
      unit.imports.map Import.extent = [(0, some 11), (63, some 74)] ∧
      InSourceOrder (unit.declarations.map Declaration.extent) ∧
      InSourceOrder (unit.imports.map Import.extent) ∧
      ∃ o, (Outline.ofUnit { text := wrappedText } {} unit).result = .ok o ∧
        ((o.tokensIn .globals).map fun t => t.position?.map (·.start.line)) =
          [some 1, some 1, some 2] ∧
        o.LinesInOrder .globals ∧ o.LinesInOrder .functions := by
  have hunit : (SourceUnit.ofTree wrappedText wrappedTree).result =
      .ok ⟨[.ofVariable { name := "u", start := 23, stop := some 24, isExported := true },
        .ofVariable { name := "v", start := 26, stop := some 27, isExported := true },
        .ofVariable { name := "w", start := 41, stop := some 42 },
        .ofFunction { name := "f", start := 47, stop := some 62 }],
        [.ofBare ⟨"é", 0, some 11⟩, .ofBare ⟨"b", 63, some 74⟩]⟩ := rfl
  obtain ⟨hdeclarations, himports, hlines⟩ :=
    SourceUnit.inSourceOrder_ofTree nested_wrappedTree hunit
  refine ⟨_, nested_wrappedTree, hunit, rfl, rfl, hdeclarations, himports, _, rfl, ?_, ?_⟩
  · decide
  · exact hlines _ _ _ rfl

end CodeOutline
