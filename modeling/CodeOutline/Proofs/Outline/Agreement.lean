import CodeOutline.Outline
import CodeOutline.Proofs.Traced

/-!
# Documents that look the same

An outline reads a document only at the offsets of its declarations: for the position
of an offset, how a name occurs on its line, and the flags that a stretch of text
shows. If a second document shows the same at offsets that are moved, then the unit
with its offsets moved has the same outline over it.
-/

namespace CodeOutline

/-! ## The offsets of a unit -/

/-- The offsets at which an item starts and, if known, ends. -/
def spanOffsets (start : Int) (stop : Option Int) : List Int :=
  start :: stop.toList

namespace Parameter

def offsets (p : Parameter) : List Int := spanOffsets p.start p.stop

def mapOffsets (f : Int → Int) (p : Parameter) : Parameter :=
  { p with start := f p.start, stop := p.stop.map f }

end Parameter

namespace Property

def offsets (p : Property) : List Int := spanOffsets p.start p.stop

def mapOffsets (f : Int → Int) (p : Property) : Property :=
  { p with start := f p.start, stop := p.stop.map f }

end Property

namespace Method

def offsets (m : Method) : List Int :=
  spanOffsets m.start m.stop ++ m.parameters.flatMap Parameter.offsets

def mapOffsets (f : Int → Int) (m : Method) : Method :=
  { m with start := f m.start, stop := m.stop.map f,
           parameters := m.parameters.map (Parameter.mapOffsets f) }

end Method

namespace ClassDecl

def offsets (c : ClassDecl) : List Int :=
  spanOffsets c.start c.stop ++ c.ctor.toList.flatMap Method.offsets ++
    c.methods.flatMap Method.offsets ++ c.properties.flatMap Property.offsets

def mapOffsets (f : Int → Int) (c : ClassDecl) : ClassDecl :=
  { c with start := f c.start, stop := c.stop.map f, ctor := c.ctor.map (Method.mapOffsets f),
           methods := c.methods.map (Method.mapOffsets f),
           properties := c.properties.map (Property.mapOffsets f) }

end ClassDecl

namespace InterfaceDecl

def offsets (i : InterfaceDecl) : List Int :=
  spanOffsets i.start i.stop ++ i.methods.flatMap Method.offsets ++
    i.properties.flatMap Property.offsets

def mapOffsets (f : Int → Int) (i : InterfaceDecl) : InterfaceDecl :=
  { i with start := f i.start, stop := i.stop.map f,
           methods := i.methods.map (Method.mapOffsets f),
           properties := i.properties.map (Property.mapOffsets f) }

end InterfaceDecl

namespace VariableDecl

def offsets (v : VariableDecl) : List Int := spanOffsets v.start v.stop

def mapOffsets (f : Int → Int) (v : VariableDecl) : VariableDecl :=
  { v with start := f v.start, stop := v.stop.map f }

end VariableDecl

namespace FunctionDecl

def offsets (g : FunctionDecl) : List Int :=
  spanOffsets g.start g.stop ++ g.parameters.flatMap Parameter.offsets

def mapOffsets (f : Int → Int) (g : FunctionDecl) : FunctionDecl :=
  { g with start := f g.start, stop := g.stop.map f,
           parameters := g.parameters.map (Parameter.mapOffsets f) }

end FunctionDecl

namespace Declaration

def offsets : Declaration → List Int
  | .ofClass c => c.offsets
  | .ofInterface i => i.offsets
  | .ofVariable v => v.offsets
  | .ofFunction g => g.offsets
  | .unknown => []

def mapOffsets (f : Int → Int) : Declaration → Declaration
  | .ofClass c => .ofClass (c.mapOffsets f)
  | .ofInterface i => .ofInterface (i.mapOffsets f)
  | .ofVariable v => .ofVariable (v.mapOffsets f)
  | .ofFunction g => .ofFunction (g.mapOffsets f)
  | .unknown => .unknown

end Declaration

namespace Import

def offsets : Import → List Int
  | .ofNamed i => spanOffsets i.start i.stop
  | .ofNamespace i => spanOffsets i.start i.stop
  | .ofDefault i => spanOffsets i.start i.stop
  | .ofBare i => spanOffsets i.start i.stop
  | .unknown => []

def mapOffsets (f : Int → Int) : Import → Import
  | .ofNamed i => .ofNamed { i with start := f i.start, stop := i.stop.map f }
  | .ofNamespace i => .ofNamespace { i with start := f i.start, stop := i.stop.map f }
  | .ofDefault i => .ofDefault { i with start := f i.start, stop := i.stop.map f }
  | .ofBare i => .ofBare { i with start := f i.start, stop := i.stop.map f }
  | .unknown => .unknown

end Import

namespace SourceUnit

/-- All offsets at which something in a unit starts or ends. -/
def offsets (unit : SourceUnit) : List Int :=
  unit.declarations.flatMap Declaration.offsets ++ unit.imports.flatMap Import.offsets

/-- The unit with all of its offsets moved. -/
def mapOffsets (f : Int → Int) (unit : SourceUnit) : SourceUnit :=
  ⟨unit.declarations.map (Declaration.mapOffsets f), unit.imports.map (Import.mapOffsets f)⟩

end SourceUnit

/-! ## What an outline reads -/

/-- At moved offsets, a second document shows what the first one shows at offsets that
satisfy `p`. -/
structure Document.Agrees (d d' : Document) (f : Int → Int) (p : Int → Prop) : Prop where
  isStrict_eq : d'.isStrict = d.isStrict
  positionAt_eq : ∀ {offset : Int}, p offset → d'.positionAt (f offset) = d.positionAt offset
  sight_eq : ∀ (name : String) {offset : Int}, p offset →
    d'.sight name (f offset) = d.sight name offset
  modifiers_eq : ∀ {start : Int} {stop : Option Int},
    (∀ offset ∈ spanOffsets start stop, p offset) →
    d'.modifiers (f start) (stop.map f) = d.modifiers start stop

namespace Document.Agrees

variable {d d' : Document} {f : Int → Int} {p : Int → Prop}

/-- An identifier is found alike from an offset in the one document and from where it is moved
to in the other. -/
theorem locate_eq (h : Agrees d d' f p) (name : String) {offset : Int} (ho : p offset) :
    d'.locate name (f offset) = d.locate name offset := by
  have hnotes : d'.identifierNotes name (f offset) = d.identifierNotes name offset := by
    rw [identifierNotes, identifierNotes, h.sight_eq name ho, h.positionAt_eq ho]
  have hrange : d'.identifierRange name (f offset) = d.identifierRange name offset := by
    rw [identifierRange, identifierRange, h.sight_eq name ho, h.positionAt_eq ho]
  rw [locate, locate, hnotes, hrange]

/-! ## Members -/

/-- A property is shown alike by two documents that agree: they see the same modifiers and the
same place of its name, and all else is its own. -/
theorem token_property (h : Agrees d d' f p) (marker : String) {q : Property}
    (hq : ∀ offset ∈ q.offsets, p offset) :
    (q.mapOffsets f).token d' marker = q.token d marker := by
  -- only for a flag that is not known is the text looked at
  have hflags : (q.mapOffsets f).flags d' = q.flags d := by
    have hseen : d'.modifiers (q.mapOffsets f).start (q.mapOffsets f).stop =
        d.modifiers q.start q.stop := h.modifiers_eq hq
    simp only [Property.flags, hseen]
    rfl
  have hlocate : d'.locate (q.mapOffsets f).name (q.mapOffsets f).start = d.locate q.name q.start :=
    h.locate_eq q.name (hq q.start (by simp [Property.offsets, spanOffsets]))
  simp only [Property.token, hflags, hlocate]
  rfl

/-- Arguments have no position. -/
theorem argumentTokens_map (qs : List Parameter) :
    argumentTokens (qs.map (Parameter.mapOffsets f)) = argumentTokens qs := by
  rw [argumentTokens, argumentTokens, List.mapM_map]
  rfl

theorem token_method (h : Agrees d d' f p) {m : Method} (hm : ∀ offset ∈ m.offsets, p offset) :
    (m.mapOffsets f).token d' = m.token d := by
  have hspan : ∀ offset ∈ spanOffsets m.start m.stop, p offset :=
    fun offset ho => hm offset (List.mem_append_left _ ho)
  have hstatic : (m.mapOffsets f).staticFlag d' = m.staticFlag d := by
    have hseen : d'.modifiers (m.mapOffsets f).start (m.mapOffsets f).stop =
        d.modifiers m.start m.stop := h.modifiers_eq hspan
    rw [Method.staticFlag, Method.staticFlag, hseen]
    rfl
  have hlocate : d'.locate (m.mapOffsets f).name (m.mapOffsets f).start = d.locate m.name m.start :=
    h.locate_eq m.name (hspan m.start (by simp [spanOffsets]))
  have harguments : argumentTokens (m.mapOffsets f).parameters = argumentTokens m.parameters :=
    argumentTokens_map m.parameters
  simp only [Method.token, hstatic, hlocate, harguments]
  rfl

theorem methodTokens_map (h : Agrees d d' f p) {ms : List Method}
    (hms : ∀ offset ∈ ms.flatMap Method.offsets, p offset) :
    methodTokens d' (ms.map (Method.mapOffsets f)) = methodTokens d ms := by
  refine Traced.each_map fun m hm => h.token_method ?_
  intro offset ho
  exact hms offset (List.mem_flatMap.mpr ⟨m, hm, ho⟩)

theorem propertyTokens_map (h : Agrees d d' f p) (marker : String) {qs : List Property}
    (hqs : ∀ offset ∈ qs.flatMap Property.offsets, p offset) :
    propertyTokens d' marker (qs.map (Property.mapOffsets f)) = propertyTokens d marker qs := by
  refine Traced.each_map fun q hq => h.token_property marker ?_
  intro offset ho
  exact hqs offset (List.mem_flatMap.mpr ⟨q, hq, ho⟩)

/-! ## Declarations and imports -/

theorem allMethods_mapOffsets (c : ClassDecl) :
    (c.mapOffsets f).allMethods = c.allMethods.map (Method.mapOffsets f) := by
  cases hctor : c.ctor <;>
    simp [ClassDecl.allMethods, ClassDecl.mapOffsets, hctor, Method.mapOffsets]

theorem offsets_allMethods (c : ClassDecl) :
    c.allMethods.flatMap Method.offsets =
      c.ctor.toList.flatMap Method.offsets ++ c.methods.flatMap Method.offsets := by
  cases hctor : c.ctor <;> simp [ClassDecl.allMethods, hctor, Method.offsets]

/-- A class is shown alike: its constructor and its other methods are moved like any method, and
its properties like any property. -/
theorem token_class (h : Agrees d d' f p) (config : Config) {c : ClassDecl}
    (hc : ∀ offset ∈ c.offsets, p offset) :
    (c.mapOffsets f).token d' config = c.token d config := by
  have hmethods : methodTokens d' (c.mapOffsets f).allMethods = methodTokens d c.allMethods := by
    rw [allMethods_mapOffsets]
    refine h.methodTokens_map ?_
    intro offset ho
    rw [offsets_allMethods] at ho
    exact hc offset (by simp only [ClassDecl.offsets, List.mem_append] at ho ⊢; tauto)
  have hproperties : propertyTokens d' config.marker (c.mapOffsets f).properties =
      propertyTokens d config.marker c.properties :=
    h.propertyTokens_map config.marker fun offset ho => hc offset (List.mem_append_right _ ho)
  simp only [ClassDecl.token, hmethods, hproperties]
  rfl

theorem token_interface (h : Agrees d d' f p) (config : Config) {i : InterfaceDecl}
    (hi : ∀ offset ∈ i.offsets, p offset) :
    (i.mapOffsets f).token d' config = i.token d config := by
  have hmethods : methodTokens d' (i.mapOffsets f).methods = methodTokens d i.methods :=
    h.methodTokens_map fun offset ho =>
      hi offset (List.mem_append_left _ (List.mem_append_right _ ho))
  have hproperties : propertyTokens d' config.marker (i.mapOffsets f).properties =
      propertyTokens d config.marker i.properties :=
    h.propertyTokens_map config.marker fun offset ho => hi offset (List.mem_append_right _ ho)
  simp only [InterfaceDecl.token, hmethods, hproperties]
  rfl

theorem token_variable (h : Agrees d d' f p) (config : Config) {v : VariableDecl}
    (hv : ∀ offset ∈ v.offsets, p offset) :
    (v.mapOffsets f).token d' config = v.token d config := by
  have hlocate : d'.locate (v.mapOffsets f).name (v.mapOffsets f).start = d.locate v.name v.start :=
    h.locate_eq v.name (hv v.start (by simp [VariableDecl.offsets, spanOffsets]))
  simp only [VariableDecl.token, hlocate]
  rfl

theorem token_function (h : Agrees d d' f p) {g : FunctionDecl}
    (hg : ∀ offset ∈ g.offsets, p offset) : (g.mapOffsets f).token d' = g.token d := by
  have hlocate : d'.locate (g.mapOffsets f).name (g.mapOffsets f).start = d.locate g.name g.start :=
    h.locate_eq g.name (hg g.start (by simp [FunctionDecl.offsets, spanOffsets]))
  have harguments : argumentTokens (g.mapOffsets f).parameters = argumentTokens g.parameters :=
    argumentTokens_map g.parameters
  simp only [FunctionDecl.token, hlocate, harguments]
  rfl

/-- A declaration is shown alike, whatever its kind. -/
theorem token_declaration (h : Agrees d d' f p) (config : Config) {dec : Declaration}
    (hdec : ∀ offset ∈ dec.offsets, p offset) :
    (dec.mapOffsets f).token d' config = dec.token d config := by
  cases dec with
  | ofClass c => simp only [Declaration.mapOffsets, Declaration.token, h.token_class config hdec]
  | ofInterface i =>
    simp only [Declaration.mapOffsets, Declaration.token, h.token_interface config hdec]
  | ofVariable v =>
    simp only [Declaration.mapOffsets, Declaration.token, h.token_variable config hdec]
  | ofFunction g => simp only [Declaration.mapOffsets, Declaration.token, h.token_function hdec]
  | unknown => rfl

/-- An import is shown alike, in the kinds that have a token. -/
theorem token_import (h : Agrees d d' f p) {i : Import} (hi : ∀ offset ∈ i.offsets, p offset) :
    (i.mapOffsets f).token d' = i.token d := by
  have htoken : (i.mapOffsets f).token? d' = i.token? d := by
    cases i with
    | ofNamed i =>
      have hstart : p i.start := hi i.start (by simp [Import.offsets, spanOffsets])
      simp only [Import.mapOffsets, Import.token?, h.positionAt_eq hstart]
    | ofNamespace i =>
      have hstart : p i.start := hi i.start (by simp [Import.offsets, spanOffsets])
      simp only [Import.mapOffsets, Import.token?, h.positionAt_eq hstart]
    | _ => rfl
  have hkind : (i.mapOffsets f).kindName = i.kindName := by
    cases i <;> rfl
  rw [Import.token, Import.token, htoken, hkind]

/-- The unit with its offsets moved has the same outline over the second document, and
leaves the same notes, also where it fails. -/
theorem ofUnit_eq (h : Agrees d d' f p) (config : Config) {unit : SourceUnit}
    (hunit : ∀ offset ∈ unit.offsets, p offset) :
    Outline.ofUnit d' config (unit.mapOffsets f) = Outline.ofUnit d config unit := by
  have hdeclared : Traced.each (Declaration.token d' config) (unit.mapOffsets f).declarations =
      Traced.each (Declaration.token d config) unit.declarations := by
    refine Traced.each_map fun dec hdec => h.token_declaration config ?_
    intro offset ho
    exact hunit offset (List.mem_append_left _ (List.mem_flatMap.mpr ⟨dec, hdec, ho⟩))
  have himported : Traced.each (Import.token d') (unit.mapOffsets f).imports =
      Traced.each (Import.token d) unit.imports := by
    refine Traced.each_map fun i hi => h.token_import ?_
    intro offset ho
    exact hunit offset (List.mem_append_right _ (List.mem_flatMap.mpr ⟨i, hi, ho⟩))
  rw [Outline.ofUnit, Outline.ofUnit, hdeclared, himported, h.isStrict_eq]

end Document.Agrees

end CodeOutline
