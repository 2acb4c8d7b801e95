import CodeOutline.Proofs.Skeleton.Tiling
import CodeOutline.Proofs.Token.OfDeclaration

/-!
# The constants of a skeleton

A class or interface is outlined with a marker before the names of its read-only
properties, and a skeleton takes that marker off again. So whatever the marker is, the
skeleton of an outlined class or interface has a line for each property that is static,
read-only and public, under the name that the property was declared with.
-/

namespace CodeOutline

/-! ## Properties that are constants -/

/-- Whether a property is a public constant. The flags that are not known are read off
the text. -/
def Property.isConstant (d : Document) (p : Property) : Bool :=
  p.isStatic.getD (d.modifiers p.start p.stop).isStatic &&
    p.isReadonly.getD (d.modifiers p.start p.stop).isReadonly &&
    Visibility.ofCode p.access = "public"

/-- Whether a property is shown as a public constant. -/
def PropertyToken.isConstant (t : PropertyToken) : Bool :=
  t.isStatic && t.isReadonly && t.visibility = "public"

theorem Property.flags_eq (d : Document) (p : Property) :
    p.flags d = ⟨p.isReadonly.getD (d.modifiers p.start p.stop).isReadonly,
      p.isStatic.getD (d.modifiers p.start p.stop).isStatic⟩ := by
  unfold Property.flags
  cases p.isReadonly <;> cases p.isStatic <;> rfl

/-- What the token of a property says of it as a constant. -/
theorem Property.result_token {d : Document} {marker : String} {p : Property} {tok : PropertyToken}
    (h : (p.token d marker).result = .ok tok) :
    p.value.normalize (valueTypeOr p.valueType p.type) = .ok tok.value ∧
      tok.isConstant = p.isConstant d := by
  obtain ⟨value, hvalue, rfl⟩ := Document.result_locate_bind h
  refine ⟨hvalue, ?_⟩
  simp only [PropertyToken.isConstant, Property.isConstant, Property.flags_eq]

/-- Of properties with tokens, the constants are those whose tokens are. -/
theorem Property.forall₂_filter_isConstant {d : Document} {marker : String} {ps : List Property}
    {toks : List PropertyToken}
    (h : List.Forall₂ (fun p t => (p.token d marker).result = .ok t) ps toks) :
    List.Forall₂ (fun p t => (p.token d marker).result = .ok t)
      (ps.filter (Property.isConstant d)) (toks.filter PropertyToken.isConstant) := by
  refine List.rel_filter ?_ h
  intro p t ht
  simp only [(Property.result_token ht).2]

namespace Skeleton

theorem constants_of_none {t : EntityToken} (hnone : t.constants = none) :
    constants t = (t.properties.getD []).filter PropertyToken.isConstant := by
  simp only [constants, hnone, List.filter_filter]
  apply List.filter_congr
  intro p _
  exact Bool.and_comm _ _

theorem constants_eq {t : EntityToken} {toks : List PropertyToken} (hnone : t.constants = none)
    (hproperties : t.properties = some toks) :
    constants t = toks.filter PropertyToken.isConstant := by
  rw [constants_of_none hnone, hproperties, Option.getD_some]

/-- What is not public may be left out before. -/
theorem filter_isConstant_public (toks : List PropertyToken) :
    (toks.filter (·.visibility = "public")).filter PropertyToken.isConstant =
      toks.filter PropertyToken.isConstant := by
  rw [List.filter_filter]
  apply List.filter_congr
  intro p _
  simp [PropertyToken.isConstant, Bool.and_assoc]

/-! ## The line of a constant -/

/-- A marker that was put before a name is taken off again, and nothing else is. -/
theorem unmarked_markedName (marker name : String) :
    unmarked marker (markedName marker true name) = name := by
  simp [unmarked, markedName, String.ofList_toList]

/-- What the line of a constant starts with. -/
def constantStart : String := indent ++ "public static readonly "

/-- An edit that writes a property as a constant: under its own name, and with the
canonical text of its default value unless that is empty. -/
def WrittenAs (p : Property) (e : TextEdit) : Prop :=
  ∃ value, p.value.normalize (valueTypeOr p.valueType p.type) = .ok value ∧
    e.text = constantStart ++ p.name ++ (if value = "" then "" else " = " ++ value) ++ ";" ++ "\n"

theorem constantLine_def (marker : String) (c : PropertyToken) :
    constantLine marker c =
      "public static readonly " ++ unmarked marker c.name ++ assigned c.value ++ ";" := rfl

/-- The line of a constant has the name of the property that it was made for. -/
theorem writtenAs_constantLine {d : Document} {marker : String} {p : Property}
    {tok : PropertyToken} (h : (p.token d marker).result = .ok tok)
    (hconstant : tok.isConstant = true) {e : TextEdit}
    (he : e.text = indent ++ constantLine marker tok ++ "\n") : WrittenAs p e := by
  refine ⟨tok.value, (Property.result_token h).1, ?_⟩
  rw [PropertyToken.isConstant, Bool.and_eq_true, Bool.and_eq_true] at hconstant
  rw [he]
  simp only [constantLine_def, Property.name_token h, hconstant.1.2, unmarked_markedName, assigned,
    constantStart, String.append_assoc]

/-! ## Edits that write no constant -/

/-- The block of a method. -/
def methodBlock (withBodies : Bool) (m : MethodToken) : String :=
  indent ++ signature m ++ (if withBodies then throwingBody else ";")

theorem mem_methodBlocks {withBodies : Bool} {ms : List MethodToken} {block : String}
    (h : block ∈ methodBlocks withBodies ms) :
    block = "" ∨ ∃ m ∈ ms, block = methodBlock withBodies m := by
  cases withBodies with
  | false =>
    obtain ⟨m, hm, rfl⟩ := List.mem_map.mp h
    exact .inr ⟨m, hm, rfl⟩
  | true =>
    rcases mem_of_mem_intersperse h with rfl | h
    · exact .inl rfl
    · obtain ⟨m, hm, rfl⟩ := List.mem_map.mp h
      exact .inr ⟨m, hm, rfl⟩

/-- A word that stands at the start of a name and a bracket stands at the start of the
name, if it has no bracket itself. -/
theorem prefix_of_prefix_bracket {word name rest : List Char} (hword : '(' ∉ word)
    (h : word <+: name ++ '(' :: rest) : word <+: name := by
  rcases List.prefix_or_prefix_of_prefix h (List.prefix_append name _) with hshort | ⟨more, rfl⟩
  · exact hshort
  · cases more with
    | nil => simp
    | cons c more =>
      rw [List.prefix_append_right_inj, List.cons_prefix_cons] at h
      exact absurd (by simp [h.1]) hword

theorem toList_signature (m : MethodToken) :
    ∃ rest, (signature m).toList = "public ".toList ++ (m.name.toList ++ '(' :: rest) := by
  have hbracket : "(".toList = ['('] := rfl
  have hsignature : signature m = "public " ++ m.name ++ "(" ++
      ", ".intercalate (m.arguments.map argument) ++ ")" ++ returned m.type := rfl
  rw [hsignature]
  simp only [String.toList_append, List.append_assoc, hbracket, List.singleton_append]
  exact ⟨_, rfl⟩

/-- A method whose block starts like a constant has a name that starts so. -/
theorem prefix_name_of_methodBlock {withBodies : Bool} {m : MethodToken}
    (h : constantStart.toList <+: (methodBlock withBodies m ++ "\n").toList) :
    "static readonly ".toList <+: m.name.toList := by
  obtain ⟨rest, hrest⟩ := toList_signature m
  have hstart : constantStart.toList =
      indent.toList ++ ("public ".toList ++ "static readonly ".toList) := rfl
  rw [hstart, methodBlock, String.toList_append, String.toList_append, String.toList_append, hrest,
    List.append_assoc, List.append_assoc, List.append_assoc, List.prefix_append_right_inj,
    List.prefix_append_right_inj, List.append_assoc] at h
  exact prefix_of_prefix_bracket (by decide) h

/-- Of what is no line of a constant, only a method can start like one. -/
theorem startsConstant_of_rest {withBodies : Bool} {name block : String} {gap : List String}
    {ms : List MethodToken} (hgap : ∀ b ∈ gap, b = "")
    (hblock : block ∈ ("export " ++ name) :: (gap ++ methodBlocks withBodies ms ++ ["\x7d"]))
    (h : constantStart.toList <+: (block ++ "\n").toList) :
    ∃ m ∈ ms, block = methodBlock withBodies m ∧ "static readonly ".toList <+: m.name.toList := by
  have hempty : ¬ constantStart.toList <+: ("" ++ "\n").toList := by decide
  simp only [List.mem_cons, List.mem_append, List.not_mem_nil, or_false] at hblock
  rcases hblock with rfl | (hb | hb) | rfl
  · have hexport : ("export " ++ name ++ "\n").toList =
        'e' :: ("xport ".toList ++ (name ++ "\n").toList) := by
      rw [String.append_assoc, String.toList_append]
      rfl
    rw [hexport] at h
    exact absurd (List.cons_prefix_cons.mp h).1 (by decide)
  · rw [hgap block hb] at h
    exact absurd h hempty
  · rcases mem_methodBlocks hb with rfl | ⟨m, hm, rfl⟩
    · exact absurd h hempty
    · exact ⟨m, hm, rfl, prefix_name_of_methodBlock h⟩
  · exact absurd h (by decide)

/-! ## Skeletons -/

theorem layout_append (line : Nat) (first second : List String) :
    ∃ next, layout line (first ++ second) = layout line first ++ layout next second := by
  induction first generalizing line with
  | nil => exact ⟨line, rfl⟩
  | cons block rest ih =>
    obtain ⟨next, hnext⟩ := ih (line + (block.toList.splitOn '\n').length)
    refine ⟨next, ?_⟩
    rw [List.cons_append, layout, hnext]
    rfl

theorem exists_block_of_mem_layout {line : Nat} {blocks : List String} {e : TextEdit}
    (h : e ∈ layout line blocks) : ∃ block ∈ blocks, e.text = block ++ "\n" := by
  have htext : e.text ∈ (layout line blocks).map (·.text) := List.mem_map_of_mem h
  rw [map_text_layout] at htext
  obtain ⟨block, hblock, htext⟩ := List.mem_map.mp htext
  exact ⟨block, hblock, htext.symm⟩

/-- The lines laid out for constants write the properties that these were made for. -/
theorem writtenAs_layout {d : Document} {marker : String} {ps : List Property}
    {toks : List PropertyToken}
    (h : List.Forall₂ (fun p t => (p.token d marker).result = .ok t) ps toks)
    (hconstant : ∀ t ∈ toks, t.isConstant = true) (line : Nat) :
    List.Forall₂ WrittenAs ps
      (layout line (toks.map fun c => indent ++ constantLine marker c)) := by
  induction h generalizing line with
  | nil => exact .nil
  | cons ht _ ih =>
    obtain ⟨hfirst, hrest⟩ := List.forall_mem_cons.mp hconstant
    exact .cons (writtenAs_constantLine ht hfirst rfl) (ih hrest _)

theorem length_methodBlocks (withBodies : Bool) (ms : List MethodToken) :
    (methodBlocks withBodies ms).length = if withBodies then 2 * ms.length - 1 else ms.length := by
  cases withBodies <;> simp [methodBlocks]

theorem isEmpty_methodBlocks (withBodies : Bool) (ms : List MethodToken) :
    (methodBlocks withBodies ms).isEmpty = ms.isEmpty := by
  rw [Bool.eq_iff_iff, List.isEmpty_iff_length_eq_zero, List.isEmpty_iff_length_eq_zero,
    length_methodBlocks]
  split <;> omega

/-- The first line of a skeleton. -/
def opening (name : String) (withBodies : Bool) : String :=
  "export " ++ ((if withBodies then "class" else "interface") ++ " " ++ name ++ " \x7b")

/-- The blank line after the constants, if there are constants and methods. -/
def gapLines (t : EntityToken) : List String :=
  if 0 < (constants t).length ∧ 0 < (methods t).length then [""] else []

/-- The blocks of a skeleton: its first line, the lines of its constants, and the rest. -/
theorem blocks_eq (name : String) (t : EntityToken) (withBodies : Bool) (marker : String) :
    blocks name t withBodies marker = opening name withBodies ::
      (((constants t).map fun c => indent ++ constantLine marker c) ++
        (gapLines t ++ methodBlocks withBodies (methods t) ++ ["\x7d"])) := by
  have hgap : gapLines t =
      if ((constants t).map fun c => indent ++ constantLine marker c).isEmpty ||
        (methodBlocks withBodies (methods t)).isEmpty then [] else [""] := by
    rw [gapLines, isEmpty_methodBlocks, List.isEmpty_map]
    cases constants t <;> cases methods t <;> simp
  rw [hgap]
  simp only [blocks, opening, List.append_assoc, List.cons_append, List.nil_append,
    String.append_assoc]

/-- Edits that write the public constants among properties, after their first line: each
once, in order, and no other constant. What starts like a constant among the other edits is
a method whose name starts so. -/
def WritesConstants (d : Document) (ps : List Property) (withBodies : Bool)
    (ms : List MethodToken) (edits : List TextEdit) : Prop :=
  ∃ head lines others, edits = head :: (lines ++ others) ∧
    List.Forall₂ WrittenAs (ps.filter (Property.isConstant d)) lines ∧
    ∀ e ∈ head :: others, constantStart.toList <+: e.text.toList →
      ∃ m ∈ ms, e.text = methodBlock withBodies m ++ "\n" ∧
        "static readonly ".toList <+: m.name.toList

theorem writesConstants_of_tokens {d : Document} {config : Config} {ps : List Property}
    {toks : List PropertyToken}
    (h : List.Forall₂ (fun p t => (p.token d config.marker).result = .ok t) ps toks)
    {t : EntityToken} (hconstants : constants t = toks.filter PropertyToken.isConstant)
    (name : String) (withBodies : Bool) :
    WritesConstants d ps withBodies (methods t) (generate name t withBodies config) := by
  have hgap : ∀ b ∈ gapLines t, b = "" := by
    intro b hb
    unfold gapLines at hb
    split at hb
    · exact List.mem_singleton.mp hb
    · simp at hb
  obtain ⟨next, hnext⟩ := layout_append
    (0 + ((opening name withBodies).toList.splitOn '\n').length)
    ((constants t).map fun c => indent ++ constantLine config.marker c)
    (gapLines t ++ methodBlocks withBodies (methods t) ++ ["\x7d"])
  have hedits := congrArg (layout 0) (blocks_eq name t withBodies config.marker)
  rw [layout, hnext, hconstants] at hedits
  refine ⟨_, _, _, hedits, ?_, ?_⟩
  · refine writtenAs_layout (Property.forall₂_filter_isConstant h) ?_ _
    intro c hc
    exact (List.mem_filter.mp hc).2
  · intro e he hstart
    have hblock : ∃ block ∈ opening name withBodies ::
        (gapLines t ++ methodBlocks withBodies (methods t) ++ ["\x7d"]),
      e.text = block ++ "\n" := by
      rcases List.mem_cons.mp he with rfl | he
      · exact ⟨_, by simp, rfl⟩
      · obtain ⟨block, hblock, htext⟩ := exists_block_of_mem_layout he
        exact ⟨block, List.mem_cons_of_mem _ hblock, htext⟩
    obtain ⟨block, hblock, htext⟩ := hblock
    rw [htext] at hstart ⊢
    obtain ⟨m, hm, rfl, hname⟩ := startsConstant_of_rest hgap hblock hstart
    exact ⟨m, hm, rfl, hname⟩

/-- Whatever the marker is, the skeleton of a class or interface that was outlined with it
writes the constants that were declared, under the names they were declared with. -/
theorem writesConstants_generate (d : Document) (config : Config) (name : String)
    (withBodies : Bool) :
    (∀ (c : ClassDecl) (tok : EntityToken), (c.token d config).result = .ok tok →
      WritesConstants d c.properties withBodies (methods tok)
        (generate name tok withBodies config)) ∧
    (∀ (i : InterfaceDecl) (tok : EntityToken), (i.token d config).result = .ok tok →
      WritesConstants d i.properties withBodies (methods tok)
        (generate name tok withBodies config)) := by
  constructor
  · intro c tok h
    obtain ⟨ms, toks, -, hps, rfl⟩ := ClassDecl.result_token h
    exact writesConstants_of_tokens hps (constants_eq rfl rfl) name withBodies
  · intro i tok h
    obtain ⟨ms, toks, -, hps, rfl⟩ := InterfaceDecl.result_token h
    refine writesConstants_of_tokens hps ?_ name withBodies
    rw [constants_eq rfl rfl, filter_isConstant_public]

/-- A text that starts with the declaration of a constant. -/
def constantText : Document := { text := "static readonly abc = 1;" }

/-- Properties of which two are public constants: one that says so, and one of which the
text does. -/
def mixedProperties : List Property :=
  [{ name := "abc", stop := some 24, value := .str "1", valueType := some "number" },
   { name := "x", access := some 0, isStatic := some true, isReadonly := some true },
   { name := "ab", isStatic := some true, isReadonly := some true },
   { name := "y", isStatic := some false, isReadonly := some true }]

/-- With a marker that one of the names starts with and another is, the names come out as
they were declared. -/
theorem writesConstants_generate_mixed :
    ∃ tok shown,
      (ClassDecl.token constantText ⟨"ab"⟩ { name := "C", properties := mixedProperties }).result =
        .ok tok ∧
      (InterfaceDecl.token constantText ⟨"ab"⟩
        { name := "I", properties := mixedProperties }).result = .ok shown ∧
      (generate "S" tok true ⟨"ab"⟩).map (·.text) =
        ["export class S \x7b\n", "    public static readonly abc = 1;\n",
         "    public static readonly ab;\n", "\x7d\n"] ∧
      WritesConstants constantText mixedProperties true (methods tok)
        (generate "S" tok true ⟨"ab"⟩) ∧
      WritesConstants constantText mixedProperties false (methods shown)
        (generate "S" shown false ⟨"ab"⟩) := by
  have hclass := (writesConstants_generate constantText ⟨"ab"⟩ "S" true).1
    { name := "C", properties := mixedProperties } _ rfl
  have hinterface := (writesConstants_generate constantText ⟨"ab"⟩ "S" false).2
    { name := "I", properties := mixedProperties } _ rfl
  exact ⟨_, _, rfl, rfl, by decide +kernel, hclass, hinterface⟩

end Skeleton

end CodeOutline
