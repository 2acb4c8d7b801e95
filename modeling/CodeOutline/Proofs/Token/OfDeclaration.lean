import CodeOutline.Proofs.Traced
import CodeOutline.Token.OfDeclaration

/-!
# What the tokens of declarations show

The token of an item with a name of its own is placed where a search for that name
from the start of the item leads. A class shows all of its members, an interface its
methods and those of its properties that are public.
-/

namespace CodeOutline

variable {d : Document} {config : Config}

/-! ## Positions -/

/-- The search for a name never fails, so that a token made after it has its range. -/
theorem Document.result_locate_bind {α β : Type} {x : Traced α} {name : String} {start : Int}
    {make : α → Range → β} {b : β}
    (h : (do
      let a ← x
      let position ← d.locate name start
      pure (make a position)).result = .ok b) :
    ∃ a, x.result = .ok a ∧ b = make a (d.identifierRange name start) := by
  obtain ⟨a, hx, h⟩ := Traced.result_bind_eq_ok.mp h
  obtain ⟨position, hposition, h⟩ := Traced.result_bind_eq_ok.mp h
  cases hposition
  cases h
  exact ⟨a, hx, rfl⟩

theorem Property.position_token {marker : String} {p : Property} {tok : PropertyToken}
    (h : (p.token d marker).result = .ok tok) :
    tok.position = some (d.identifierRange p.name p.start) := by
  obtain ⟨value, -, rfl⟩ := Document.result_locate_bind h
  rfl

theorem Method.position_token {m : Method} {tok : MethodToken}
    (h : (m.token d).result = .ok tok) :
    tok.position = some (d.identifierRange m.name m.start) := by
  obtain ⟨arguments, -, rfl⟩ := Document.result_locate_bind h
  rfl

theorem VariableDecl.position_token {v : VariableDecl} {tok : VariableToken}
    (h : (v.token d config).result = .ok tok) :
    tok.position = some (d.identifierRange v.name v.start) := by
  obtain ⟨value, -, rfl⟩ := Document.result_locate_bind h
  rfl

theorem FunctionDecl.position_token {f : FunctionDecl} {tok : MethodToken}
    (h : (f.token d).result = .ok tok) :
    tok.position = some (d.identifierRange f.name f.start) := by
  obtain ⟨arguments, -, rfl⟩ := Document.result_locate_bind h
  rfl

/-! ## Names and visibility -/

theorem Property.name_token {marker : String} {p : Property} {tok : PropertyToken}
    (h : (p.token d marker).result = .ok tok) :
    tok.name = markedName marker tok.isReadonly p.name := by
  obtain ⟨value, -, rfl⟩ := Document.result_locate_bind h
  rfl

theorem Property.visibility_token {marker : String} {p : Property} {tok : PropertyToken}
    (h : (p.token d marker).result = .ok tok) : tok.visibility = Visibility.ofCode p.access := by
  obtain ⟨value, -, rfl⟩ := Document.result_locate_bind h
  rfl

theorem Method.name_token {m : Method} {tok : MethodToken} (h : (m.token d).result = .ok tok) :
    tok.name = m.name := by
  obtain ⟨arguments, -, rfl⟩ := Document.result_locate_bind h
  rfl

theorem VariableDecl.name_token {v : VariableDecl} {tok : VariableToken}
    (h : (v.token d config).result = .ok tok) :
    tok.name = markedName config.marker v.isConst v.name := by
  obtain ⟨value, -, rfl⟩ := Document.result_locate_bind h
  rfl

theorem FunctionDecl.name_token {f : FunctionDecl} {tok : MethodToken}
    (h : (f.token d).result = .ok tok) : tok.name = f.name := by
  obtain ⟨arguments, -, rfl⟩ := Document.result_locate_bind h
  rfl

/-! ## Members -/

/-- The constructor of a class comes first among its methods, under the name of constructors. -/
theorem ClassDecl.allMethods_eq (c : ClassDecl) :
    c.allMethods = c.ctor.toList.map (fun m => { m with name := ctorName }) ++ c.methods := by
  rw [ClassDecl.allMethods]
  cases c.ctor <;> rfl

/-- The token of a class has a method for each of its methods, the constructor first, and a
property for each of its properties, both in order. -/
theorem ClassDecl.result_token {c : ClassDecl} {tok : EntityToken}
    (h : (c.token d config).result = .ok tok) :
    ∃ methods properties,
      List.Forall₂ (fun m t => (m.token d).result = .ok t) c.allMethods methods ∧
      List.Forall₂ (fun p t => (p.token d config.marker).result = .ok t) c.properties
        properties ∧
      tok = { name := c.name, visibility := Visibility.ofExported c.isExported,
              methods := some methods, properties := some properties } := by
  obtain ⟨methods, hmethods, h⟩ := Traced.result_bind_eq_ok.mp h
  obtain ⟨properties, hproperties, h⟩ := Traced.result_bind_eq_ok.mp h
  cases h
  exact ⟨methods, properties, Traced.result_each_eq_ok.mp hmethods,
    Traced.result_each_eq_ok.mp hproperties, rfl⟩

/-- The token of an interface has a method for each of its methods and, unlike that of a class,
a property only for those that are public. -/
theorem InterfaceDecl.result_token {i : InterfaceDecl} {tok : EntityToken}
    (h : (i.token d config).result = .ok tok) :
    ∃ methods properties,
      List.Forall₂ (fun m t => (m.token d).result = .ok t) i.methods methods ∧
      List.Forall₂ (fun p t => (p.token d config.marker).result = .ok t) i.properties
        properties ∧
      tok = { name := i.name, visibility := Visibility.ofExported i.isExported,
              methods := some methods,
              properties := some (properties.filter (·.visibility = "public")) } := by
  obtain ⟨properties, hproperties, h⟩ := Traced.result_bind_eq_ok.mp h
  obtain ⟨methods, hmethods, h⟩ := Traced.result_bind_eq_ok.mp h
  cases h
  exact ⟨methods, properties, Traced.result_each_eq_ok.mp hmethods,
    Traced.result_each_eq_ok.mp hproperties, rfl⟩

/-- The properties that an interface shows are those of its public ones. -/
theorem Property.forall₂_filter_public {marker : String} {ps : List Property}
    {toks : List PropertyToken}
    (h : List.Forall₂ (fun p t => (p.token d marker).result = .ok t) ps toks) :
    List.Forall₂ (fun p t => (p.token d marker).result = .ok t)
      (ps.filter (Visibility.ofCode ·.access = "public"))
      (toks.filter (·.visibility = "public")) := by
  refine List.rel_filter ?_ h
  intro p t ht
  simp [Property.visibility_token ht]

end CodeOutline
