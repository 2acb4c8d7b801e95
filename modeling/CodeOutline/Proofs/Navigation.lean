import CodeOutline.Proofs.Declaration.Origin
import CodeOutline.Proofs.Document.Lines
import CodeOutline.Proofs.Outline.Sections
import CodeOutline.Proofs.SourceText
import CodeOutline.Proofs.Text.Basic
import CodeOutline.Proofs.Token.OfDeclaration

/-!
# Tokens lead to names

The position of a token comes from a search of one line of the text for a name. If
the name part of the syntax tree stands on that line, then the search leads to that
part, or to the first place on the line at which the same name stands.
-/

namespace CodeOutline

/-! ## Names on a line -/

namespace Document

variable {d : Document} {name : List Char}

/-- A range that leads to the name between two offsets: it is exactly that stretch if
the name stands once on its line, and otherwise it has no width and is at the first
place on the line at which the name stands. -/
def LeadsTo (d : Document) (name : List Char) (start stop : Nat) (r : Range) : Prop :=
  let place := d.positionAt start
  let text := d.line place.line
  ((∃! i, Search.OccursAt name text i) ∧ r = ⟨place, d.positionAt stop⟩) ∨
    ((¬ ∃! i, Search.OccursAt name text i) ∧
      ∃ first : Nat, IsLeast {i | Search.OccursAt name text i} first ∧
        (first : Int) ≤ place.character ∧ r = Range.empty ⟨place.line, first⟩)

/-- A stretch without an LF stays on its line. -/
theorem LineSplit.prefix_line {before line after : List Char} (h : LineSplit d before line after)
    {k : Nat} (hk : k ≤ line.length) (hlf : '\n' ∉ name)
    (hname : name <+: d.chars.drop (before.length + k)) : name <+: line.drop k := by
  have hdrop : d.chars.drop (before.length + k) = line.drop k ++ after := by
    rw [h.chars_eq, ← List.drop_drop, List.drop_left, List.drop_append_of_le_length hk]
  rw [hdrop] at hname
  rcases h.after_starts with rfl | ⟨rest, rfl⟩
  · rw [List.append_nil] at hname
    exact hname
  · -- a longer stretch would hold the LF at the end of the line
    have hline : line.drop k ++ ['\n'] <+: line.drop k ++ '\n' :: rest := ⟨rest, by simp⟩
    rcases List.prefix_or_prefix_of_prefix hname hline with hpre | hpre
    · rcases List.prefix_concat_iff.mp hpre with rfl | hpre
      · simp at hlf
      · exact hpre
    · exact absurd (hpre.subset (by simp)) hlf

/-- A name without a CR is not cut off with the CRs at the end of a line. -/
theorem occursAt_trimEnd {line : List Char} {k : Nat} (hne : name ≠ []) (hcr : '\r' ∉ name)
    (hname : name <+: line.drop k) : Search.OccursAt name (Text.trimEnd (· = '\r') line) k := by
  obtain ⟨rest, hrest⟩ := hname
  have hk : k ≤ line.length := by
    by_contra hlong
    rw [List.drop_eq_nil_of_le (by omega)] at hrest
    exact hne (List.append_eq_nil_iff.mp hrest).1
  have hline : line = (line.take k ++ name) ++ rest := by
    rw [List.append_assoc, hrest, List.take_append_drop]
  have hlast : (line.take k ++ name).getLast? = some (name.getLast hne) := by
    rw [List.getLast?_append_of_ne_nil _ hne, List.getLast?_eq_some_getLast hne]
  have hkept : decide (name.getLast hne = '\r') = false := by
    rw [decide_eq_false_iff_not]
    intro hcut
    exact hcr (hcut ▸ List.getLast_mem hne)
  have htrim : Text.trimEnd (· = '\r') line =
      line.take k ++ (name ++ Text.trimEnd (· = '\r') rest) := by
    rw [← List.append_assoc, ← Text.trimEnd_append_of_kept hkept hlast rest, ← hline]
  rw [Search.OccursAt, htrim, List.drop_left' (by rw [List.length_take]; omega)]
  exact List.prefix_append _ _

/-- A search from an offset on the line of a name leads to the name. -/
theorem leadsTo_identifierRange {start stop : Nat} {offset : Int} (hne : name ≠ [])
    (hlf : '\n' ∉ name) (hcr : '\r' ∉ name) (hstop : stop ≤ d.chars.length)
    (hname : (d.chars.take stop).drop start = name)
    (hline : (d.positionAt start).line = (d.positionAt offset).line) :
    d.LeadsTo name start stop (d.identifierRange (String.ofList name) offset) := by
  have hlen : name.length = stop - start := by
    rw [← hname, List.length_drop, List.length_take, Nat.min_eq_left hstop]
  have hpos : 0 < name.length := List.length_pos_iff.mpr hne
  have hin : start ≤ d.chars.length := by omega
  obtain ⟨before, line, after, k, hsplit, hk, rfl⟩ := d.exists_lineSplit hin
  have hpre : name <+: d.chars.drop (before.length + k) := by
    rw [← hname, List.drop_take]
    exact List.take_prefix _ _
  have hon := hsplit.prefix_line hk hlf hpre
  have hend : k + name.length ≤ line.length := by
    have := hon.length_le
    rw [List.length_drop] at this
    omega
  obtain rfl : stop = before.length + (k + name.length) := by omega
  -- both ends of the name stand on the line, and so does the offset of the search
  have hfrom := hsplit.positionAt_eq hk
  have hto := hsplit.positionAt_eq hend
  have htext := hsplit.line_eq
  rw [hfrom] at hline
  have hsight : d.sight (String.ofList name) offset =
      Search.sight name (d.line (before.count '\n' : Nat)) := by
    rw [sight, ← hline, String.toList_ofList]
  have hocc : Search.OccursAt name (d.line (before.count '\n' : Nat)) k := by
    rw [htext]
    exact occursAt_trimEnd hne hcr hon
  rw [LeadsTo, hfrom, hto, identifierRange, hsight, ← hline, String.toList_ofList]
  rcases Search.sight_of_occursAt hne hocc with ⟨hone, hfound⟩ | ⟨hmany, first, hfirst, hfound⟩
  · refine .inl ⟨hone, ?_⟩
    rw [hfound]
    rfl
  · refine .inr ⟨hmany, first, hfirst, ?_, ?_⟩
    · exact Int.ofNat_le.mpr (hfirst.2 hocc)
    · rw [hfound]

end Document

/-! ## Names in a tree -/

/-- A tree of which every node starts and ends between characters of a text. -/
def Node.OnBoundaries (s : SourceText) (tree : Node) : Prop :=
  ∀ n : Node, n.Within tree → s.IsBoundary n.start ∧ s.IsBoundary n.stop

/-- A node with a name part, and the position of its token: unless the name is empty,
has a line break or starts on another line than the node's span, the position leads to
the name part. -/
def Node.NamedAt (d : Document) (s : SourceText) (n : Node) (position : Option Range) : Prop :=
  ∃ nameNode name first last start stop,
    n.child? "name" = some nameNode ∧ s.charsOf nameNode = .ok name ∧
    n.span s = .ok (first, last) ∧
    s.offset nameNode.start = .ok start ∧ s.offset nameNode.stop = .ok stop ∧
    (name ≠ [] → '\n' ∉ name → '\r' ∉ name →
      (d.positionAt start).line = (d.positionAt first).line →
      ∃ r, position = some r ∧ d.LeadsTo name start stop r)

section

variable {d : Document} {config : Config} {tree : Node}

theorem namedAt_identifierRange (htree : tree.OnBoundaries (.ofString d.text)) {n : Node}
    (hn : n.Within tree) {name : String} {start : Int}
    (h : n.HasName (.ofString d.text) name start) :
    n.NamedAt d (.ofString d.text) (some (d.identifierRange name start)) := by
  obtain ⟨nameNode, first, last, hchild, htext, hspan, rfl⟩ := h
  obtain ⟨cs, hcs, rfl⟩ := Fault.map_eq_ok.mp htext
  obtain ⟨⟨i, hi, hstart⟩, j, hj, hstop⟩ := htree nameNode ((Node.Within.of_child? hchild).trans hn)
  -- the bytes of the name part spell the characters between its offsets
  have hname : ((SourceText.ofString d.text).chars.take j).drop i = cs := by
    have hbetween := (SourceText.ofString d.text).charsBetween_byteAt i j
    rw [← hstart, ← hstop] at hbetween
    exact Except.ok.inj (hbetween.symm.trans hcs)
  refine ⟨nameNode, cs, first, last, i, j, hchild, hcs, hspan, ?_, ?_, ?_⟩
  · rw [hstart, SourceText.offset_byteAt _ hi]
  · rw [hstop, SourceText.offset_byteAt _ hj]
  · intro hne hlf hcr hline
    exact ⟨_, rfl, Document.leadsTo_identifierRange hne hlf hcr hj hname hline⟩

/-- The token of an item leads to its name: the item was read from some node of the
tree, and the position is that of the node's name. -/
def PlacedAtName (d : Document) (tree : Node) (readFrom : Node → Prop)
    (position : Option Range) : Prop :=
  (∃ n : Node, n.Within tree ∧ readFrom n) ∧
    ∀ n : Node, n.Within tree → readFrom n → n.NamedAt d (.ofString d.text) position

theorem placedAtName_identifierRange (htree : tree.OnBoundaries (.ofString d.text))
    {readFrom : Node → Prop} (hread : ∃ n : Node, n.Within tree ∧ readFrom n) {name : String}
    {start : Int} (hname : ∀ n : Node, readFrom n → n.HasName (.ofString d.text) name start) :
    PlacedAtName d tree readFrom (some (d.identifierRange name start)) :=
  ⟨hread, fun n hn hfrom => namedAt_identifierRange htree hn (hname n hfrom)⟩

/-- The tokens of methods and properties, each made from its own one and leading to
its name. -/
structure MembersPlaced (d : Document) (config : Config) (tree : Node) (methods : List Method)
    (properties : List Property) (methodTokens : List MethodToken)
    (propertyTokens : List PropertyToken) : Prop where
  methods : List.Forall₂ (fun m t => (m.token d).result = .ok t ∧
      PlacedAtName d tree (fun n => n.method (.ofString d.text) = .ok (some m)) t.position)
    methods methodTokens
  properties : List.Forall₂ (fun p t => (p.token d config.marker).result = .ok t ∧
      PlacedAtName d tree (fun n => n.property (.ofString d.text) = .ok (some p)) t.position)
    properties propertyTokens

theorem membersPlaced_of_origin (htree : tree.OnBoundaries (.ofString d.text)) {top : Node}
    (htop : top.Within tree) {methods : List Method} {properties : List Property}
    {methodTokens : List MethodToken} {propertyTokens : List PropertyToken}
    (horigin :
      (∀ m ∈ methods, ∃ n : Node, n.Within top ∧ n.method (.ofString d.text) = .ok (some m)) ∧
      ∀ p ∈ properties, ∃ n : Node, n.Within top ∧ n.property (.ofString d.text) = .ok (some p))
    (hmethods : List.Forall₂ (fun m t => (m.token d).result = .ok t) methods methodTokens)
    (hproperties : List.Forall₂ (fun p t => (p.token d config.marker).result = .ok t) properties
      propertyTokens) :
    MembersPlaced d config tree methods properties methodTokens propertyTokens := by
  constructor
  · refine List.Forall₂.imp ?_ ((List.forall₂_and_left _ _).mpr ⟨horigin.1, hmethods⟩)
    rintro m t ⟨⟨n, hn, hread⟩, htok⟩
    refine ⟨htok, ?_⟩
    rw [Method.position_token htok]
    exact placedAtName_identifierRange htree ⟨n, hn.trans htop, hread⟩
      fun _ => Node.hasName_of_method
  · refine List.Forall₂.imp ?_ ((List.forall₂_and_left _ _).mpr ⟨horigin.2, hproperties⟩)
    rintro p t ⟨⟨n, hn, hread⟩, htok⟩
    refine ⟨htok, ?_⟩
    rw [Property.position_token htok]
    exact placedAtName_identifierRange htree ⟨n, hn.trans htop, hread⟩
      fun _ => Node.hasName_of_property

/-! ## Outlines -/

/-- An outline each of whose tokens leads to its name. The tokens of a section are those
of the declarations of its kind, in order; of an interface's properties those that are
public are shown. -/
structure Outline.LeadsToNames (d : Document) (config : Config) (tree : Node) (unit : SourceUnit)
    (o : Outline) : Prop where
  functions : List.Forall₂ (fun f t => ∃ tok, t = .ofMethod tok ∧ (f.token d).result = .ok tok ∧
      PlacedAtName d tree (fun n => (Declaration.ofFunction f).ReadFrom (.ofString d.text) n)
        tok.position)
    unit.functions (o.tokensIn .functions)
  globals : List.Forall₂ (fun v t => ∃ tok, t = .ofVariable tok ∧
      (v.token d config).result = .ok tok ∧
      PlacedAtName d tree (fun n => (Declaration.ofVariable v).ReadFrom (.ofString d.text) n)
        tok.position)
    unit.globals (o.tokensIn .globals)
  classes : List.Forall₂ (fun c t => ∃ tok methods properties, t = .ofEntity tok ∧
      (c.token d config).result = .ok tok ∧
      tok.methods = some methods ∧ tok.properties = some properties ∧
      MembersPlaced d config tree c.allMethods c.properties methods properties)
    unit.classes (o.tokensIn .classes)
  interfaces : List.Forall₂ (fun i t => ∃ tok methods properties, t = .ofEntity tok ∧
      (i.token d config).result = .ok tok ∧
      tok.methods = some methods ∧
      tok.properties = some (properties.filter (·.visibility = "public")) ∧
      MembersPlaced d config tree i.methods i.properties methods properties)
    unit.interfaces (o.tokensIn .interfaces)

/-- The declarations of a kind, each with the node it was read from. -/
theorem SourceUnit.ReadWithin.of_pick {α : Type} {s : SourceText} {unit : SourceUnit}
    (h : unit.ReadWithin s tree) (pick : Declaration → Option α) (wrap : α → Declaration)
    (hpick : ∀ dec a, pick dec = some a → dec = wrap a) :
    ∀ a ∈ unit.declarations.filterMap pick,
      ∃ n : Node, n.Within tree ∧ (wrap a).ReadFrom s n := by
  intro a ha
  obtain ⟨dec, hdec, hsome⟩ := List.mem_filterMap.mp ha
  rw [← hpick dec a hsome]
  exact h dec hdec

/-- If the nodes of a syntax tree start and end between characters, then every token of
the outline leads to the name of what it was made for. -/
theorem Outline.leadsToNames_ofUnit {unit : SourceUnit} {o : Outline}
    (htree : tree.OnBoundaries (.ofString d.text))
    (hunit : (SourceUnit.ofTree d.text tree).result = .ok unit)
    (ho : (Outline.ofUnit d config unit).result = .ok o) :
    Outline.LeadsToNames d config tree unit o := by
  have hread := SourceUnit.readWithin_ofTree hunit
  have hlists := Outline.lists_ofUnit ho
  constructor
  · have horigin := hread.of_pick Declaration.asFunction? .ofFunction
      fun _ _ => Declaration.asFunction?_eq_some.mp
    refine List.Forall₂.imp ?_ ((List.forall₂_and_left _ _).mpr ⟨horigin, hlists.functions⟩)
    rintro f t ⟨hfrom, tok, rfl, htok⟩
    refine ⟨tok, rfl, htok, ?_⟩
    rw [FunctionDecl.position_token htok]
    refine placedAtName_identifierRange htree hfrom ?_
    rintro n ⟨exported, hn⟩
    exact Node.hasName_of_functionDecl hn
  · have horigin := hread.of_pick Declaration.asVariable? .ofVariable
      fun _ _ => Declaration.asVariable?_eq_some.mp
    refine List.Forall₂.imp ?_ ((List.forall₂_and_left _ _).mpr ⟨horigin, hlists.globals⟩)
    rintro v t ⟨hfrom, tok, rfl, htok⟩
    refine ⟨tok, rfl, htok, ?_⟩
    rw [VariableDecl.position_token htok]
    refine placedAtName_identifierRange htree hfrom ?_
    rintro n ⟨exported, isConst, hn⟩
    exact Node.hasName_of_variableDecl hn
  · have horigin := hread.of_pick Declaration.asClass? .ofClass
      fun _ _ => Declaration.asClass?_eq_some.mp
    refine List.Forall₂.imp ?_ ((List.forall₂_and_left _ _).mpr ⟨horigin, hlists.classes⟩)
    rintro c t ⟨⟨n, hn, exported, hread⟩, tok, rfl, htok⟩
    obtain ⟨methods, properties, hms, hps, htokens⟩ := ClassDecl.result_token htok
    exact ⟨tok, methods, properties, rfl, htok, by rw [htokens], by rw [htokens],
      membersPlaced_of_origin htree hn (Node.classDecl_origin hread) hms hps⟩
  · have horigin := hread.of_pick Declaration.asInterface? .ofInterface
      fun _ _ => Declaration.asInterface?_eq_some.mp
    refine List.Forall₂.imp ?_ ((List.forall₂_and_left _ _).mpr ⟨horigin, hlists.interfaces⟩)
    rintro i t ⟨⟨n, hn, exported, hread⟩, tok, rfl, htok⟩
    obtain ⟨methods, properties, hms, hps, htokens⟩ := InterfaceDecl.result_token htok
    exact ⟨tok, methods, properties, rfl, htok, by rw [htokens], by rw [htokens],
      membersPlaced_of_origin htree hn (Node.interfaceDecl_origin hread) hms hps⟩

end

/-! ## An example -/

/-- A text with characters of two bytes and a line that ends in CR LF. The name of the
function stands twice on its line, the name of the variable once. -/
def twoLines : String := "/* é */ function f() {}\r\nvar añb"

/-- The syntax tree of `twoLines`. -/
def twoLineTree : Node :=
  ⟨"program", true, 0, 34, none,
    [⟨"function_declaration", true, 9, 24, none,
       [⟨"function", false, 9, 17, none, []⟩, ⟨"identifier", true, 18, 19, some "name", []⟩]⟩,
     ⟨"variable_declaration", true, 26, 34, none,
       [⟨"var", false, 26, 29, none, []⟩,
        ⟨"variable_declarator", true, 30, 34, none,
          [⟨"identifier", true, 30, 34, some "name", []⟩]⟩]⟩]⟩

theorem onBoundaries_twoLineTree : twoLineTree.OnBoundaries (.ofString twoLines) := by
  intro n hn
  simp only [twoLineTree, Node.within_mk_iff, List.mem_cons, List.not_mem_nil, false_and, or_false,
    exists_false, exists_eq_or_imp, exists_eq_left] at hn
  rcases hn with rfl | (rfl | rfl | rfl) | rfl | rfl | rfl | rfl <;> decide

theorem leadsToNames_twoLines :
    ∃ unit o, twoLineTree.OnBoundaries (.ofString twoLines) ∧
      (SourceUnit.ofTree twoLines twoLineTree).result = .ok unit ∧
      (Outline.ofUnit { text := twoLines } {} unit).result = .ok o ∧
      o.functions = some [.ofMethod
        { name := "f", visibility := "protected", isStatic := true,
          position := some ⟨⟨0, 8⟩, ⟨0, 8⟩⟩ }] ∧
      o.globals = some [.ofVariable
        { name := "añb", visibility := "protected", position := some ⟨⟨1, 4⟩, ⟨1, 7⟩⟩ }] ∧
      Outline.LeadsToNames { text := twoLines } {} twoLineTree unit o := by
  have hunit : (SourceUnit.ofTree twoLines twoLineTree).result =
      .ok ⟨[.ofFunction { name := "f", start := 8, stop := some 23 },
        .ofVariable { name := "añb", start := 29, stop := some 32 }], []⟩ := rfl
  have houtline : (Outline.ofUnit { text := twoLines } {}
      ⟨[.ofFunction { name := "f", start := 8, stop := some 23 },
        .ofVariable { name := "añb", start := 29, stop := some 32 }], []⟩).result =
      .ok ⟨false, none, none,
        some [.ofMethod
          { name := "f", visibility := "protected", isStatic := true,
            position := some ⟨⟨0, 8⟩, ⟨0, 8⟩⟩ }],
        some [.ofVariable
          { name := "añb", visibility := "protected", position := some ⟨⟨1, 4⟩, ⟨1, 7⟩⟩ }],
        none⟩ := by
    decide
  exact ⟨_, _, onBoundaries_twoLineTree, hunit, houtline, rfl, rfl,
    Outline.leadsToNames_ofUnit onBoundaries_twoLineTree hunit houtline⟩

end CodeOutline
