import CodeOutline.Proofs.Outline.Sections
import CodeOutline.Proofs.Token.OfDeclaration

/-!
# Outlines keep what a unit declares

An outline is determined by what a unit declares of each kind: a section is absent if
there is nothing of its kind, and otherwise has one token for each item, in source order.
How the kinds are interleaved, and what of no outlined kind stands among them, makes no
difference, not even to whether there is an outline.
-/

namespace CodeOutline

/-! ## Imports that are outlined -/

/-- Whether an import is of a kind that is outlined: of single names, if they are known,
or of a whole library. -/
def Import.isOutlined : Import → Bool
  | .ofNamed i => i.specifiers.isSome
  | .ofNamespace _ => true
  | _ => false

/-- The imports of a unit that are outlined, in source order. -/
def SourceUnit.outlinedImports (unit : SourceUnit) : List Import :=
  unit.imports.filter Import.isOutlined

theorem Import.isSome_token? (d : Document) (i : Import) :
    (i.token? d).isSome = i.isOutlined := by
  cases i <;> simp [Import.token?, Import.isOutlined]

/-- The token of an import comes with the section of imports if there is one. -/
theorem Import.result_token (d : Document) (i : Import) :
    (i.token d).result = .ok ((i.token? d).map fun t => (.imports, .ofImport t)) := by
  rw [Import.token]
  cases i.token? d <;> rfl

/-! ## What tokens show -/

section

variable (d : Document) (config : Config)

/-- The token that a method has by itself, under its name. -/
def Method.ShownAs (m : Method) (t : MethodToken) : Prop :=
  (m.token d).result = .ok t ∧ t.name = m.name

/-- The token that a property has by itself, under its name, marked if it is read-only. -/
def Property.ShownAs (p : Property) (t : PropertyToken) : Prop :=
  (p.token d config.marker).result = .ok t ∧
    t.name = markedName config.marker t.isReadonly p.name

/-- The token of a class: a method for its constructor and for each of its methods, and a
property for each of its properties, in order. -/
def ClassDecl.ShownAs (c : ClassDecl) (t : Token) : Prop :=
  ∃ tok methods properties, t = .ofEntity tok ∧ (c.token d config).result = .ok tok ∧
    tok.name = c.name ∧ tok.methods = some methods ∧ tok.properties = some properties ∧
    List.Forall₂ (Method.ShownAs d)
      (c.ctor.toList.map (fun m => { m with name := ctorName }) ++ c.methods) methods ∧
    List.Forall₂ (Property.ShownAs d config) c.properties properties

/-- The token of an interface: a method for each of its methods, and a property for each
of its properties that is public, in order. -/
def InterfaceDecl.ShownAs (i : InterfaceDecl) (t : Token) : Prop :=
  ∃ tok methods properties, t = .ofEntity tok ∧ (i.token d config).result = .ok tok ∧
    tok.name = i.name ∧ tok.methods = some methods ∧ tok.properties = some properties ∧
    List.Forall₂ (Method.ShownAs d) i.methods methods ∧
    List.Forall₂ (Property.ShownAs d config)
      (i.properties.filter (Visibility.ofCode ·.access = "public")) properties

/-- The token of a variable, under its name, marked if it is constant. -/
def VariableDecl.ShownAs (v : VariableDecl) (t : Token) : Prop :=
  ∃ tok, t = .ofVariable tok ∧ (v.token d config).result = .ok tok ∧
    tok.name = markedName config.marker v.isConst v.name

/-- The token of a function, under its name. -/
def FunctionDecl.ShownAs (f : FunctionDecl) (t : Token) : Prop :=
  ∃ tok, t = .ofMethod tok ∧ (f.token d).result = .ok tok ∧ tok.name = f.name

/-- The token of an import. -/
def Import.ShownAs (i : Import) (t : Token) : Prop :=
  ∃ tok, t = .ofImport tok ∧ i.token? d = some tok

end

namespace Outline

variable {d : Document} {config : Config} {unit : SourceUnit} {o : Outline}

theorem shownAs_class {c : ClassDecl} {tok : EntityToken}
    (h : (c.token d config).result = .ok tok) : c.ShownAs d config (.ofEntity tok) := by
  obtain ⟨methods, properties, hms, hps, rfl⟩ := ClassDecl.result_token h
  rw [ClassDecl.allMethods_eq] at hms
  refine ⟨_, methods, properties, rfl, h, rfl, rfl, rfl, ?_, ?_⟩
  · exact hms.imp fun m t ht => ⟨ht, Method.name_token ht⟩
  · exact hps.imp fun p t ht => ⟨ht, Property.name_token ht⟩

theorem shownAs_interface {i : InterfaceDecl} {tok : EntityToken}
    (h : (i.token d config).result = .ok tok) : i.ShownAs d config (.ofEntity tok) := by
  obtain ⟨methods, properties, hms, hps, rfl⟩ := InterfaceDecl.result_token h
  refine ⟨_, methods, _, rfl, h, rfl, rfl, rfl, ?_, ?_⟩
  · exact hms.imp fun m t ht => ⟨ht, Method.name_token ht⟩
  · exact (Property.forall₂_filter_public hps).imp fun p t ht => ⟨ht, Property.name_token ht⟩

/-! ## Sections that are there have tokens -/

/-- No section is there without a token. -/
def NoneEmpty (o : Outline) : Prop :=
  ∀ sec, o.members sec ≠ some []

theorem NoneEmpty.push (h : o.NoneEmpty) (s : Section) (t : Token) : (o.push s t).NoneEmpty := by
  intro sec
  rw [members_push]
  split
  · simp [extended]
  · exact h sec

theorem NoneEmpty.pushAll (h : o.NoneEmpty) (tokens : List (Section × Token)) :
    (o.pushAll tokens).NoneEmpty := by
  induction tokens generalizing o with
  | nil => exact h
  | cons t tokens ih => exact ih (h.push t.1 t.2)

/-- No section of an outline is empty, as each was made by a push. -/
theorem noneEmpty_ofUnit (h : (ofUnit d config unit).result = .ok o) : o.NoneEmpty := by
  obtain ⟨declared, imported, -, -, rfl⟩ := ofUnit_eq_ok h
  refine NoneEmpty.pushAll ?_ _
  intro sec
  cases sec <;> simp [members]

theorem strict_pushAll (o : Outline) (tokens : List (Section × Token)) :
    (o.pushAll tokens).strict = o.strict := by
  induction tokens generalizing o with
  | nil => rfl
  | cons t tokens ih => exact (ih (o.push t.1 t.2)).trans (strict_push o t.1 t.2)

/-! ## Sections by kind -/

/-- A section for items of one kind: it is absent if there are none, and otherwise has one
token for each, in order. -/
def SectionOf {α : Type} (shows : α → Token → Prop) (items : List α) :
    Option (List Token) → Prop
  | none => items = []
  | some tokens => items ≠ [] ∧ List.Forall₂ shows items tokens

/-- A section that lists the tokens of items is one for those items: without items it has no
tokens, and so it is absent. -/
theorem sectionOf_members {α : Type} {shows : α → Token → Prop} {items : List α} (sec : Section)
    (hnone : o.NoneEmpty) (h : List.Forall₂ shows items (o.tokensIn sec)) :
    SectionOf shows items (o.members sec) := by
  rw [tokensIn] at h
  cases hsec : o.members sec with
  | none =>
    rw [hsec, Option.getD_none] at h
    exact List.forall₂_nil_right_iff.mp h
  | some tokens =>
    rw [hsec, Option.getD_some] at h
    refine ⟨?_, h⟩
    rintro rfl
    rw [List.forall₂_nil_left_iff.mp h] at hsec
    exact hnone sec hsec

theorem exists_of_forall₂ {α β : Type} {R : α → β → Prop} {xs : List α} {ys : List β}
    (h : List.Forall₂ R xs ys) {x : α} (hx : x ∈ xs) : ∃ y, R x y := by
  induction h with
  | nil => simp at hx
  | cons hR _ ih =>
    rcases List.mem_cons.mp hx with rfl | hx
    · exact ⟨_, hR⟩
    · exact ih hx

theorem SectionOf.exists_of_mem {α : Type} {shows : α → Token → Prop} {items : List α}
    {tokens : Option (List Token)} (h : SectionOf shows items tokens) {a : α} (ha : a ∈ items) :
    ∃ t, shows a t := by
  cases tokens with
  | none =>
    rw [show items = [] from h] at ha
    simp at ha
  | some tokens => exact exists_of_forall₂ h.2 ha

/-- There is one section for items, if each item is shown by one token. -/
theorem SectionOf.unique {α : Type} {shows : α → Token → Prop} {items : List α}
    {tokens tokens' : Option (List Token)} (hshows : Relator.RightUnique shows)
    (h : SectionOf shows items tokens) (h' : SectionOf shows items tokens') :
    tokens = tokens' := by
  cases tokens with
  | none =>
    cases tokens' with
    | none => rfl
    | some tokens' => exact absurd h h'.1
  | some tokens =>
    cases tokens' with
    | none => exact absurd h' h.1
    | some tokens' => rw [List.right_unique_forall₂' hshows h.2 h'.2]

theorem tokenFor?_of_declaration {dec : Declaration} {item : Option (Section × Token)}
    (h : (dec.token d config).result = .ok item) : tokenFor? .imports item = none := by
  cases places_of_token h <;> rfl

/-- The section of imports lists the tokens of the imports that are outlined, in their order. -/
theorem imports_ofUnit (h : (ofUnit d config unit).result = .ok o) :
    List.Forall₂ (Import.ShownAs d) unit.outlinedImports (o.tokensIn .imports) := by
  obtain ⟨declared, imported, hdeclared, himported, rfl⟩ := ofUnit_eq_ok h
  have hnone : declared.filterMap (tokenFor? .imports) = [] := by
    rw [List.filterMap_eq_nil_iff]
    intro item hitem
    obtain ⟨dec, -, hdec⟩ := Traced.exists_of_mem_each hdeclared hitem
    exact tokenFor?_of_declaration hdec
  have hempty : ({ strict := d.isStrict } : Outline).tokensIn .imports = [] := rfl
  rw [tokensIn_pushAll, hempty, List.nil_append, List.filterMap_append, hnone, List.nil_append,
    SourceUnit.outlinedImports, ← List.filterMap_eq_filter]
  refine forall₂_filterMap ?_ (Traced.result_each_eq_ok.mp himported)
  intro i item hitem
  rw [Import.result_token] at hitem
  cases hitem
  rw [Option.guard, ← Import.isSome_token? d]
  cases htok : i.token? d with
  | none => exact .inl ⟨rfl, rfl⟩
  | some tok => exact .inr ⟨i, .ofImport tok, rfl, rfl, tok, rfl, htok⟩

/-! ## Outlines -/

/-- An outline that has exactly what a unit declares and imports, section by section. -/
structure Conserves (d : Document) (config : Config) (unit : SourceUnit) (o : Outline) :
    Prop where
  strict : o.strict = d.isStrict
  classes : SectionOf (ClassDecl.ShownAs d config) unit.classes o.classes
  interfaces : SectionOf (InterfaceDecl.ShownAs d config) unit.interfaces o.interfaces
  functions : SectionOf (FunctionDecl.ShownAs d) unit.functions o.functions
  globals : SectionOf (VariableDecl.ShownAs d config) unit.globals o.globals
  imports : SectionOf (Import.ShownAs d) unit.outlinedImports o.imports

theorem conserves_of_result (h : (ofUnit d config unit).result = .ok o) :
    Conserves d config unit o := by
  have hlists := lists_ofUnit h
  have hnone := noneEmpty_ofUnit h
  constructor
  · obtain ⟨declared, imported, -, -, rfl⟩ := ofUnit_eq_ok h
    exact strict_pushAll _ _
  · refine sectionOf_members .classes hnone (hlists.classes.imp ?_)
    rintro c t ⟨tok, rfl, htok⟩
    exact shownAs_class htok
  · refine sectionOf_members .interfaces hnone (hlists.interfaces.imp ?_)
    rintro i t ⟨tok, rfl, htok⟩
    exact shownAs_interface htok
  · refine sectionOf_members .functions hnone (hlists.functions.imp ?_)
    rintro f t ⟨tok, rfl, htok⟩
    exact ⟨tok, rfl, htok, FunctionDecl.name_token htok⟩
  · refine sectionOf_members .globals hnone (hlists.globals.imp ?_)
    rintro v t ⟨tok, rfl, htok⟩
    exact ⟨tok, rfl, htok, VariableDecl.name_token htok⟩
  · exact sectionOf_members .imports hnone (imports_ofUnit h)

/-- Where each kind has its tokens, every declaration has one. -/
theorem Conserves.exists_token (h : Conserves d config unit o) {dec : Declaration}
    (hdec : dec ∈ unit.declarations) : ∃ item, (dec.token d config).result = .ok item := by
  cases dec with
  | ofClass c =>
    have hc : c ∈ unit.classes := List.mem_filterMap.mpr ⟨_, hdec, rfl⟩
    obtain ⟨t, tok, -, -, -, htok, -⟩ := h.classes.exists_of_mem hc
    exact ⟨_, Traced.result_bind_eq_ok.mpr ⟨tok, htok, rfl⟩⟩
  | ofInterface i =>
    have hi : i ∈ unit.interfaces := List.mem_filterMap.mpr ⟨_, hdec, rfl⟩
    obtain ⟨t, tok, -, -, -, htok, -⟩ := h.interfaces.exists_of_mem hi
    exact ⟨_, Traced.result_bind_eq_ok.mpr ⟨tok, htok, rfl⟩⟩
  | ofVariable v =>
    have hv : v ∈ unit.globals := List.mem_filterMap.mpr ⟨_, hdec, rfl⟩
    obtain ⟨t, tok, -, htok, -⟩ := h.globals.exists_of_mem hv
    exact ⟨_, Traced.result_bind_eq_ok.mpr ⟨tok, htok, rfl⟩⟩
  | ofFunction f =>
    have hf : f ∈ unit.functions := List.mem_filterMap.mpr ⟨_, hdec, rfl⟩
    obtain ⟨t, tok, -, htok, -⟩ := h.functions.exists_of_mem hf
    exact ⟨_, Traced.result_bind_eq_ok.mpr ⟨tok, htok, rfl⟩⟩
  | unknown => exact ⟨none, rfl⟩

/-- A unit with an outline that has what it declares can be outlined: each of its declarations
is shown by some token, so that none of them fails. -/
theorem Conserves.exists_outline (h : Conserves d config unit o) :
    ∃ o', (ofUnit d config unit).result = .ok o' := by
  obtain ⟨declared, hdeclared⟩ := Traced.exists_result_each fun dec hdec => h.exists_token hdec
  have himports : ∀ i ∈ unit.imports, ∃ item, (i.token d).result = .ok item := fun i _ =>
    ⟨_, i.result_token d⟩
  obtain ⟨imported, himported⟩ := Traced.exists_result_each himports
  exact ⟨_, Traced.result_bind_eq_ok.mpr ⟨declared, hdeclared,
    Traced.result_bind_eq_ok.mpr ⟨imported, himported, rfl⟩⟩⟩

/-- A token that wraps the one outcome of a computation is the only one. -/
theorem rightUnique_of_run {α β γ : Type} {shows : α → Token → Prop} (run : α → γ)
    (wrap : β → Token) {ok : β → γ} (hok : Function.Injective ok)
    (h : ∀ a t, shows a t → ∃ b, t = wrap b ∧ run a = ok b) : Relator.RightUnique shows := by
  intro a t t' ht ht'
  obtain ⟨b, rfl, hb⟩ := h a t ht
  obtain ⟨b', rfl, hb'⟩ := h a t' ht'
  rw [hok (hb.symm.trans hb')]

/-- What a unit declares leaves no choice for its outline. -/
theorem Conserves.unique {o' : Outline} (h : Conserves d config unit o)
    (h' : Conserves d config unit o') : o = o' := by
  have hstrict : o.strict = o'.strict := h.strict.trans h'.strict.symm
  have hok {α : Type} : Function.Injective (Except.ok : α → Except Fault α) :=
    fun _ _ => Except.ok.inj
  have hclasses : o.classes = o'.classes := by
    refine h.classes.unique (rightUnique_of_run (·.token d config |>.result) .ofEntity hok ?_)
      h'.classes
    rintro c t ⟨tok, _, _, rfl, htok, -⟩
    exact ⟨tok, rfl, htok⟩
  have hinterfaces : o.interfaces = o'.interfaces := by
    refine h.interfaces.unique (rightUnique_of_run (·.token d config |>.result) .ofEntity hok ?_)
      h'.interfaces
    rintro i t ⟨tok, _, _, rfl, htok, -⟩
    exact ⟨tok, rfl, htok⟩
  have hfunctions : o.functions = o'.functions := by
    refine h.functions.unique (rightUnique_of_run (·.token d |>.result) .ofMethod hok ?_)
      h'.functions
    rintro f t ⟨tok, rfl, htok, -⟩
    exact ⟨tok, rfl, htok⟩
  have hglobals : o.globals = o'.globals := by
    refine h.globals.unique (rightUnique_of_run (·.token d config |>.result) .ofVariable hok ?_)
      h'.globals
    rintro v t ⟨tok, rfl, htok, -⟩
    exact ⟨tok, rfl, htok⟩
  have himports : o.imports = o'.imports := by
    refine h.imports.unique (rightUnique_of_run (Import.token? d) .ofImport ?_ fun _ _ => id)
      h'.imports
    exact fun _ _ => Option.some.inj
  cases o
  cases o'
  simp_all

/-- The outline of a unit is the one that has what the unit declares and imports. -/
theorem result_ofUnit_iff :
    (ofUnit d config unit).result = .ok o ↔ Conserves d config unit o := by
  constructor
  · exact conserves_of_result
  · intro h
    obtain ⟨o', ho'⟩ := h.exists_outline
    rw [h.unique (conserves_of_result ho'), ho']

end Outline

/-- Units that declare and import the same of each kind, in the same order. -/
structure SourceUnit.SameByKind (a b : SourceUnit) : Prop where
  classes : a.classes = b.classes
  interfaces : a.interfaces = b.interfaces
  functions : a.functions = b.functions
  globals : a.globals = b.globals
  imports : a.outlinedImports = b.outlinedImports

/-- A unit has an outline exactly if there is one that conserves what it declares and
imports, and it is that one. Hence another unit with the same of each kind has the same
outline, or has none either. -/
theorem Outline.conserves_ofUnit (d : Document) (config : Config) (unit : SourceUnit) :
    (∀ o, (Outline.ofUnit d config unit).result = .ok o ↔ Outline.Conserves d config unit o) ∧
      ∀ other : SourceUnit, unit.SameByKind other → ∀ o,
        (Outline.ofUnit d config unit).result = .ok o ↔
          (Outline.ofUnit d config other).result = .ok o := by
  refine ⟨fun o => Outline.result_ofUnit_iff, fun other hsame o => ?_⟩
  rw [Outline.result_ofUnit_iff, Outline.result_ofUnit_iff]
  constructor
  · rintro ⟨hs, hc, hi, hf, hg, hm⟩
    exact ⟨hs, hsame.classes ▸ hc, hsame.interfaces ▸ hi, hsame.functions ▸ hf,
      hsame.globals ▸ hg, hsame.imports ▸ hm⟩
  · rintro ⟨hs, hc, hi, hf, hg, hm⟩
    exact ⟨hs, hsame.classes ▸ hc, hsame.interfaces ▸ hi, hsame.functions ▸ hf,
      hsame.globals ▸ hg, hsame.imports ▸ hm⟩

/-- A text with a function, a variable and another function. -/
def mixedText : Document := { text := "function f() \x7b\x7d var v; function g() \x7b\x7d" }

/-- The declarations of `mixedText` as they stand, with one of an unknown kind among them,
and two imports, of which one is outlined. -/
def mixedUnit : SourceUnit :=
  { declarations :=
      [.ofFunction { name := "f", start := 0 }, .unknown, .ofVariable { name := "v", start := 16 },
       .ofFunction { name := "g", start := 23 }]
    imports := [.ofBare { library := "b" }, .ofNamespace { library := "l", localName := "n" }] }

/-- What of `mixedUnit` is outlined, the variable first. -/
def sortedUnit : SourceUnit :=
  { declarations :=
      [.ofVariable { name := "v", start := 16 }, .ofFunction { name := "f", start := 0 },
       .ofFunction { name := "g", start := 23 }]
    imports := [.ofNamespace { library := "l", localName := "n" }] }

theorem conserves_ofUnit_mixed :
    ∃ o, mixedUnit.SameByKind sortedUnit ∧
      (Outline.ofUnit mixedText {} mixedUnit).result = .ok o ∧
      (Outline.ofUnit mixedText {} sortedUnit).result = .ok o ∧
      Outline.Conserves mixedText {} mixedUnit o ∧
      o.classes = none ∧ (o.tokensIn .functions).map Token.name = ["f", "g"] := by
  have hsame : mixedUnit.SameByKind sortedUnit := ⟨rfl, rfl, rfl, rfl, rfl⟩
  obtain ⟨hconserves, hother⟩ := Outline.conserves_ofUnit mixedText {} mixedUnit
  refine ⟨_, hsame, rfl, (hother sortedUnit hsame _).mp rfl, (hconserves _).mp rfl, ?_, ?_⟩
  · decide
  · decide

end CodeOutline
