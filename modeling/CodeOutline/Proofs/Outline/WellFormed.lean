import CodeOutline.Proofs.Document.Ranges
import CodeOutline.Proofs.Outline.Conservation

/-!
# Outlines are well formed

Whatever a unit says of its declarations, and leaves out, the tokens of its outline have
one of the three visibilities, a type, marked names where they are read-only, and
positions that lie in the document.
-/

namespace CodeOutline

/-! ## Parts of tokens -/

theorem typeOrAny_ne_empty (type : Option String) : typeOrAny type ≠ "" := by
  unfold typeOrAny
  split
  · split
    · decide
    · rename_i h
      simpa using h
  · decide

theorem Visibility.ofExported_mem_names (exported : Bool) : ofExported exported ∈ names := by
  cases exported <;> simp [ofExported, names]

/-- A position that is set, to a range that lies in the document. -/
def Document.Places (d : Document) (position : Option Range) : Prop :=
  ∃ r, position = some r ∧ d.Holds r

theorem Document.places_identifierRange (d : Document) (name : String) (offset : Int) :
    d.Places (some (d.identifierRange name offset)) :=
  ⟨_, rfl, d.holds_identifierRange name offset⟩

/-! ## Tokens of members -/

/-- An argument: it has a type, and no position. -/
structure VariableToken.IsArgument (t : VariableToken) : Prop where
  visibility : t.visibility ∈ Visibility.names
  type_ne : t.type ≠ ""
  position : t.position = none

/-- A method or function, apart from whether it has a type. -/
structure MethodToken.WellFormed (d : Document) (t : MethodToken) : Prop where
  visibility : t.visibility ∈ Visibility.names
  type_ne : t.type ≠ some ""
  arguments : ∀ a ∈ t.arguments, a.IsArgument
  position : d.Places t.position

/-- A method of a class or interface: it has a type unless it is a constructor. -/
structure MethodToken.IsMember (d : Document) (t : MethodToken) : Prop extends t.WellFormed d where
  type_iff : t.type = none ↔ t.name = ctorName

/-- A property, with the marker before its name if it is read-only. -/
structure PropertyToken.IsMember (d : Document) (marker : String) (p : Property)
    (t : PropertyToken) : Prop where
  visibility : t.visibility ∈ Visibility.names
  type_ne : t.type ≠ ""
  name_eq : t.isReadonly = true → t.name = marker ++ p.name
  position : d.Places t.position

variable {d : Document} {config : Config}

theorem Parameter.isArgument_token {p : Parameter} {t : VariableToken} (h : p.token = .ok t) :
    t.IsArgument := by
  obtain ⟨value, -, h⟩ := Fault.bind_eq_ok.mp h
  cases h
  exact ⟨Visibility.ofCode_mem_names p.access, typeOrAny_ne_empty p.type, rfl⟩

theorem isArgument_of_mem {ps : List Parameter} {ts : List VariableToken}
    (h : argumentTokens ps = .ok ts) : ∀ t ∈ ts, t.IsArgument := by
  induction ps generalizing ts with
  | nil =>
    cases h
    simp
  | cons p ps ih =>
    rw [argumentTokens, List.mapM_cons] at h
    obtain ⟨t, ht, h⟩ := Fault.bind_eq_ok.mp h
    obtain ⟨rest, hrest, h⟩ := Fault.bind_eq_ok.mp h
    cases h
    intro a ha
    rcases List.mem_cons.mp ha with rfl | ha
    · exact Parameter.isArgument_token ht
    · exact ih hrest a ha

/-- A method is shown as a member: under a visibility, with a place in the document, and with a
type unless it is a constructor. -/
theorem Method.isMember_token {m : Method} {t : MethodToken} (h : (m.token d).result = .ok t) :
    t.IsMember d := by
  obtain ⟨arguments, harguments, rfl⟩ := Document.result_locate_bind h
  refine ⟨⟨Visibility.ofCode_mem_names m.access, ?_, isArgument_of_mem harguments,
    d.places_identifierRange m.name m.start⟩, ?_⟩
  · dsimp only
    split
    · simp
    · simpa using typeOrAny_ne_empty m.type
  · dsimp only
    split <;> simp_all

/-- A property is shown as a member, with the marker if the token says that it is read-only. -/
theorem Property.isMember_token {marker : String} {p : Property} {t : PropertyToken}
    (h : (p.token d marker).result = .ok t) : t.IsMember d marker p := by
  have hname := Property.name_token h
  obtain ⟨value, -, rfl⟩ := Document.result_locate_bind h
  refine ⟨Visibility.ofCode_mem_names p.access, typeOrAny_ne_empty p.type, ?_,
    d.places_identifierRange p.name p.start⟩
  intro hreadonly
  rw [hname, hreadonly]
  rfl

/-! ## Tokens of the top level -/

/-- A variable, with the marker before its name if it is constant. -/
structure VariableDecl.WellShown (d : Document) (config : Config) (v : VariableDecl)
    (t : VariableToken) : Prop where
  visibility : t.visibility ∈ Visibility.names
  type_ne : t.type ≠ ""
  name_eq : v.isConst = true → t.name = config.marker ++ v.name
  position : d.Places t.position

/-- A class: its first method is a constructor if it declares one. -/
structure ClassDecl.WellShown (d : Document) (config : Config) (c : ClassDecl)
    (t : EntityToken) : Prop where
  visibility : t.visibility ∈ Visibility.names
  methods : ∃ ms, t.methods = some ms ∧ (∀ m ∈ ms, m.IsMember d) ∧
    (c.ctor.isSome = true → ms.head?.map (·.name) = some ctorName)
  properties : ∃ ps, t.properties = some ps ∧
    List.Forall₂ (PropertyToken.IsMember d config.marker) c.properties ps

/-- An interface: its properties are public, and are those of its public ones. -/
structure InterfaceDecl.WellShown (d : Document) (config : Config) (i : InterfaceDecl)
    (t : EntityToken) : Prop where
  visibility : t.visibility ∈ Visibility.names
  methods : ∃ ms, t.methods = some ms ∧ ∀ m ∈ ms, m.IsMember d
  properties : ∃ ps, t.properties = some ps ∧ (∀ p ∈ ps, p.visibility = "public") ∧
    List.Forall₂ (PropertyToken.IsMember d config.marker)
      (i.properties.filter (Visibility.ofCode ·.access = "public")) ps

theorem VariableDecl.wellShown_token {v : VariableDecl} {t : VariableToken}
    (h : (v.token d config).result = .ok t) : v.WellShown d config t := by
  have hname := VariableDecl.name_token h
  obtain ⟨value, -, rfl⟩ := Document.result_locate_bind h
  refine ⟨Visibility.ofExported_mem_names v.isExported, typeOrAny_ne_empty v.type, ?_,
    d.places_identifierRange v.name v.start⟩
  intro hconst
  rw [hname, hconst]
  rfl

theorem FunctionDecl.wellFormed_token {f : FunctionDecl} {t : MethodToken}
    (h : (f.token d).result = .ok t) : t.WellFormed d ∧ t.type ≠ none := by
  obtain ⟨arguments, harguments, rfl⟩ := Document.result_locate_bind h
  refine ⟨⟨Visibility.ofExported_mem_names f.isExported, ?_, isArgument_of_mem harguments,
    d.places_identifierRange f.name f.start⟩, by simp⟩
  simpa using typeOrAny_ne_empty f.type

theorem isMember_of_forall₂ {ms : List Method} {ts : List MethodToken}
    (h : List.Forall₂ (fun m t => (m.token d).result = .ok t) ms ts) : ∀ t ∈ ts, t.IsMember d := by
  intro t ht
  obtain ⟨m, hm⟩ := Outline.exists_of_forall₂ h.flip ht
  exact Method.isMember_token hm

/-- A class is shown with members that are well formed, its constructor first. -/
theorem ClassDecl.wellShown_token {c : ClassDecl} {t : EntityToken}
    (h : (c.token d config).result = .ok t) : c.WellShown d config t := by
  obtain ⟨ms, ps, hms, hps, rfl⟩ := ClassDecl.result_token h
  refine ⟨Visibility.ofExported_mem_names c.isExported, ⟨ms, rfl, isMember_of_forall₂ hms, ?_⟩,
    ps, rfl, hps.imp fun p t ht => Property.isMember_token ht⟩
  intro hctor
  obtain ⟨m, hm⟩ := Option.isSome_iff_exists.mp hctor
  rw [ClassDecl.allMethods, hm] at hms
  cases hms with
  | cons ht _ => simp [Method.name_token ht]

/-- An interface is shown with methods that are well formed, and with its public properties
alone. -/
theorem InterfaceDecl.wellShown_token {i : InterfaceDecl} {t : EntityToken}
    (h : (i.token d config).result = .ok t) : i.WellShown d config t := by
  obtain ⟨ms, ps, hms, hps, rfl⟩ := InterfaceDecl.result_token h
  refine ⟨Visibility.ofExported_mem_names i.isExported, ⟨ms, rfl, isMember_of_forall₂ hms⟩,
    _, rfl, ?_,
    (Property.forall₂_filter_public hps).imp fun p t ht => Property.isMember_token ht⟩
  intro p hp
  simpa using (List.mem_filter.mp hp).2

/-- An import stands at one place of the document. -/
theorem Import.position_token? {i : Import} {t : ImportToken} (h : i.token? d = some t) :
    ∃ p, t.position = some (Range.empty p) ∧ d.Holds (Range.empty p) := by
  cases i with
  | ofNamed i =>
    obtain ⟨specifiers, -, rfl⟩ := Option.map_eq_some_iff.mp h
    exact ⟨_, rfl, d.holds_positionAt i.start⟩
  | ofNamespace i =>
    cases h
    exact ⟨_, rfl, d.holds_positionAt i.start⟩
  | _ => cases h

/-! ## Outlines -/

namespace Outline

/-- An outline whose tokens are well formed, each against the declaration it was made
for. -/
structure WellFormed (d : Document) (config : Config) (unit : SourceUnit) (o : Outline) :
    Prop where
  classes : List.Forall₂ (fun c t => ∃ tok, t = .ofEntity tok ∧ c.WellShown d config tok)
    unit.classes (o.tokensIn .classes)
  interfaces : List.Forall₂ (fun i t => ∃ tok, t = .ofEntity tok ∧ i.WellShown d config tok)
    unit.interfaces (o.tokensIn .interfaces)
  functions :
    List.Forall₂ (fun _ t => ∃ tok, t = .ofMethod tok ∧ tok.WellFormed d ∧ tok.type ≠ none)
      unit.functions (o.tokensIn .functions)
  globals : List.Forall₂ (fun v t => ∃ tok, t = .ofVariable tok ∧ v.WellShown d config tok)
    unit.globals (o.tokensIn .globals)
  imports : List.Forall₂ (fun _ t => ∃ tok p, t = .ofImport tok ∧
      tok.position = some (Range.empty p) ∧ d.Holds (Range.empty p))
    unit.outlinedImports (o.tokensIn .imports)

/-- The outline of a unit is well formed, whatever names, types, flags, numbers of
visibility and offsets the unit has. -/
theorem wellFormed_ofUnit {unit : SourceUnit} {o : Outline}
    (h : (ofUnit d config unit).result = .ok o) : WellFormed d config unit o := by
  have hlists := lists_ofUnit h
  constructor
  · refine hlists.classes.imp ?_
    rintro c t ⟨tok, rfl, htok⟩
    exact ⟨tok, rfl, ClassDecl.wellShown_token htok⟩
  · refine hlists.interfaces.imp ?_
    rintro i t ⟨tok, rfl, htok⟩
    exact ⟨tok, rfl, InterfaceDecl.wellShown_token htok⟩
  · refine hlists.functions.imp ?_
    rintro f t ⟨tok, rfl, htok⟩
    exact ⟨tok, rfl, FunctionDecl.wellFormed_token htok⟩
  · refine hlists.globals.imp ?_
    rintro v t ⟨tok, rfl, htok⟩
    exact ⟨tok, rfl, VariableDecl.wellShown_token htok⟩
  · refine (imports_ofUnit h).imp ?_
    rintro i t ⟨tok, rfl, htok⟩
    obtain ⟨p, hp, hholds⟩ := Import.position_token? htok
    exact ⟨tok, p, rfl, hp, hholds⟩

end Outline

/-- A text with a class on a line that ends in CR LF. -/
def oddText : Document := { text := "class A \x7b readonly b \x7d\r\nx" }

/-- A unit that says little of what it declares, and some of it wrongly: flags, types and
visibility are missing or unknown, and offsets lie outside the text. -/
def oddUnit : SourceUnit :=
  { declarations :=
      [.ofClass
         { name := "A", ctor := some { name := "new", start := -5, type := some "T" },
           properties := [{ name := "b", start := 10, access := some 7 }] },
       .ofInterface
         { name := "I"
           methods := [{ name := "m", type := some "", parameters := [{ name := "a" }] }],
           properties := [{ name := "p", access := some 0 }, { name := "q", start := 1000 }] },
       .ofFunction { name := "constructor", type := some "" },
       .ofVariable { name := "x", start := 1000, isConst := true }]
    imports := [.ofNamespace { library := "l", localName := "n", start := -1000 }] }

theorem wellFormed_ofUnit_odd :
    ∃ o, (Outline.ofUnit oddText {} oddUnit).result = .ok o ∧
      Outline.WellFormed oddText {} oddUnit o ∧
      o.classes = some [.ofEntity
        { name := "A",
          methods := some [{ name := "constructor", type := none,
                             position := some ⟨⟨0, 0⟩, ⟨0, 0⟩⟩ }],
          properties := some [{ name := "@b", isReadonly := true,
                                position := some ⟨⟨0, 19⟩, ⟨0, 20⟩⟩ }] }] ∧
      o.globals = some [.ofVariable
        { name := "@x", visibility := "protected", position := some ⟨⟨1, 0⟩, ⟨1, 1⟩⟩ }] := by
  refine ⟨_, rfl, Outline.wellFormed_ofUnit rfl, ?_, ?_⟩
  · decide
  · decide

end CodeOutline
