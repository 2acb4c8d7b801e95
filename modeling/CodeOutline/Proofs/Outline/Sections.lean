import CodeOutline.Outline
import CodeOutline.Proofs.Traced

/-!
# The sections of an outline

Each section of the outline of a source unit lists the tokens of the declarations
of its kind, in source order.
-/

namespace CodeOutline

/-! ## Declarations by kind -/

namespace Declaration

/-- The class that a declaration is. -/
def asClass? : Declaration → Option ClassDecl
  | .ofClass c => some c
  | _ => none

/-- The interface that a declaration is. -/
def asInterface? : Declaration → Option InterfaceDecl
  | .ofInterface i => some i
  | _ => none

/-- The variable that a declaration is. -/
def asVariable? : Declaration → Option VariableDecl
  | .ofVariable v => some v
  | _ => none

/-- The function that a declaration is. -/
def asFunction? : Declaration → Option FunctionDecl
  | .ofFunction f => some f
  | _ => none

theorem asClass?_eq_some {dec : Declaration} {c : ClassDecl} :
    dec.asClass? = some c ↔ dec = .ofClass c := by
  cases dec <;> simp [asClass?]

theorem asInterface?_eq_some {dec : Declaration} {i : InterfaceDecl} :
    dec.asInterface? = some i ↔ dec = .ofInterface i := by
  cases dec <;> simp [asInterface?]

theorem asVariable?_eq_some {dec : Declaration} {v : VariableDecl} :
    dec.asVariable? = some v ↔ dec = .ofVariable v := by
  cases dec <;> simp [asVariable?]

theorem asFunction?_eq_some {dec : Declaration} {f : FunctionDecl} :
    dec.asFunction? = some f ↔ dec = .ofFunction f := by
  cases dec <;> simp [asFunction?]

end Declaration

namespace SourceUnit

/-- The classes of a unit, in source order. -/
def classes (unit : SourceUnit) : List ClassDecl := unit.declarations.filterMap Declaration.asClass?

/-- The interfaces of a unit, in source order. -/
def interfaces (unit : SourceUnit) : List InterfaceDecl :=
  unit.declarations.filterMap Declaration.asInterface?

/-- The variables of a unit, in source order. -/
def globals (unit : SourceUnit) : List VariableDecl :=
  unit.declarations.filterMap Declaration.asVariable?

/-- The functions of a unit, in source order. -/
def functions (unit : SourceUnit) : List FunctionDecl :=
  unit.declarations.filterMap Declaration.asFunction?

end SourceUnit

namespace Outline

/-! ## Pushing tokens -/

/-- The tokens of a section, none if it is absent. -/
def tokensIn (o : Outline) (sec : Section) : List Token :=
  (o.members sec).getD []

/-- The token of a pair whose section is the given one. -/
def tokenFor? (sec : Section) (t : Option (Section × Token)) : Option Token :=
  (t.filter (·.1 = sec)).map (·.2)

theorem tokensIn_push (o : Outline) (s sec : Section) (t : Token) :
    (o.push s t).tokensIn sec = o.tokensIn sec ++ (tokenFor? sec (some (s, t))).toList := by
  by_cases h : sec = s
  · subst h
    simp [tokensIn, tokenFor?, members_push, extended, Option.filter_some]
  · simp [tokensIn, tokenFor?, members_push, h, Ne.symm h]

/-- After pushes, a section has the tokens that were pushed to it, in the order of the pushes
and after those that it had. -/
theorem tokensIn_pushAll (o : Outline) (sec : Section) (items : List (Option (Section × Token))) :
    (o.pushAll (items.filterMap id)).tokensIn sec =
      o.tokensIn sec ++ items.filterMap (tokenFor? sec) := by
  induction items generalizing o with
  | nil => simp [pushAll]
  | cons item items ih =>
    cases item with
    | none => exact ih o
    | some t =>
      have hstep : o.pushAll ((some t :: items).filterMap id) =
          (o.push t.1 t.2).pushAll (items.filterMap id) := rfl
      rw [hstep, ih, tokensIn_push, List.append_assoc]
      cases h : tokenFor? sec (some t) with
      | none => simp [h]
      | some t' => simp [h]

/-! ## The outline of a unit -/

variable {d : Document} {config : Config} {unit : SourceUnit} {o : Outline}

/-- An outline that is made of a unit is what the tokens of its declarations and then those of
its imports make, pushed one after another. -/
theorem ofUnit_eq_ok (h : (ofUnit d config unit).result = .ok o) :
    ∃ declared imported,
      (Traced.each (Declaration.token d config) unit.declarations).result = .ok declared ∧
      (Traced.each (Import.token d) unit.imports).result = .ok imported ∧
      o = pushAll { strict := d.isStrict } ((declared ++ imported).filterMap id) := by
  obtain ⟨declared, hdeclared, h⟩ := Traced.result_bind_eq_ok.mp h
  obtain ⟨imported, himported, h⟩ := Traced.result_bind_eq_ok.mp h
  cases h
  exact ⟨declared, imported, hdeclared, himported, rfl⟩

theorem tokenFor?_of_import {sec : Section} (hsec : sec ≠ .imports) {i : Import}
    {item : Option (Section × Token)} (h : (i.token d).result = .ok item) :
    tokenFor? sec item = none := by
  rw [Import.token] at h
  split at h
  · cases h
    simp [tokenFor?, Ne.symm hsec]
  · cases h
    rfl

/-- Lists that correspond item by item still do after both were filtered, if the filters drop
corresponding items. -/
theorem forall₂_filterMap {α β γ δ : Type} {P : α → β → Prop} {R : γ → δ → Prop}
    {f : α → Option γ} {g : β → Option δ}
    (hfg : ∀ x y, P x y →
      (f x = none ∧ g y = none) ∨ ∃ a b, f x = some a ∧ g y = some b ∧ R a b)
    {xs : List α} {ys : List β} (h : List.Forall₂ P xs ys) :
    List.Forall₂ R (xs.filterMap f) (ys.filterMap g) := by
  induction h with
  | nil => exact .nil
  | cons hP _ ih =>
    rcases hfg _ _ hP with ⟨hf, hg⟩ | ⟨a, b, hf, hg, hR⟩
    · rw [List.filterMap_cons_none hf, List.filterMap_cons_none hg]
      exact ih
    · rw [List.filterMap_cons_some hf, List.filterMap_cons_some hg]
      exact .cons hR ih

/-- If the tokens for a section are those of the declarations of a kind, the section
lists them in source order. -/
theorem forall₂_tokensIn {α : Type} {sec : Section} (hsec : sec ≠ .imports)
    {pick : Declaration → Option α} {R : α → Token → Prop}
    (hpick : ∀ dec item, (dec.token d config).result = .ok item →
      (pick dec = none ∧ tokenFor? sec item = none) ∨
        ∃ a t, pick dec = some a ∧ tokenFor? sec item = some t ∧ R a t)
    (h : (ofUnit d config unit).result = .ok o) :
    List.Forall₂ R (unit.declarations.filterMap pick) (o.tokensIn sec) := by
  obtain ⟨declared, imported, hdeclared, himported, rfl⟩ := ofUnit_eq_ok h
  have hempty : ({ strict := d.isStrict } : Outline).tokensIn sec = [] := by
    cases sec <;> rfl
  -- imports only reach their own section
  have hnone : imported.filterMap (tokenFor? sec) = [] := by
    rw [List.filterMap_eq_nil_iff]
    intro item hitem
    obtain ⟨i, -, hi⟩ := Traced.exists_of_mem_each himported hitem
    exact tokenFor?_of_import hsec hi
  rw [tokensIn_pushAll, hempty, List.nil_append, List.filterMap_append, hnone, List.append_nil]
  exact forall₂_filterMap hpick (Traced.result_each_eq_ok.mp hdeclared)

/-- What the sections for declarations list: the tokens of the classes, interfaces,
functions and variables. -/
structure Lists (d : Document) (config : Config) (unit : SourceUnit) (o : Outline) : Prop where
  classes : List.Forall₂ (fun c t => ∃ tok, t = .ofEntity tok ∧ (c.token d config).result = .ok tok)
    unit.classes (o.tokensIn .classes)
  interfaces :
    List.Forall₂ (fun i t => ∃ tok, t = .ofEntity tok ∧ (i.token d config).result = .ok tok)
      unit.interfaces (o.tokensIn .interfaces)
  functions : List.Forall₂ (fun f t => ∃ tok, t = .ofMethod tok ∧ (f.token d).result = .ok tok)
    unit.functions (o.tokensIn .functions)
  globals :
    List.Forall₂ (fun v t => ∃ tok, t = .ofVariable tok ∧ (v.token d config).result = .ok tok)
      unit.globals (o.tokensIn .globals)

/-- The token that a declaration has, with the section of its kind. -/
inductive Places (d : Document) (config : Config) :
    Declaration → Option (Section × Token) → Prop where
  | ofClass {c : ClassDecl} {tok : EntityToken} (h : (c.token d config).result = .ok tok) :
      Places d config (.ofClass c) (some (.classes, .ofEntity tok))
  | ofInterface {i : InterfaceDecl} {tok : EntityToken} (h : (i.token d config).result = .ok tok) :
      Places d config (.ofInterface i) (some (.interfaces, .ofEntity tok))
  | ofVariable {v : VariableDecl} {tok : VariableToken} (h : (v.token d config).result = .ok tok) :
      Places d config (.ofVariable v) (some (.globals, .ofVariable tok))
  | ofFunction {f : FunctionDecl} {tok : MethodToken} (h : (f.token d).result = .ok tok) :
      Places d config (.ofFunction f) (some (.functions, .ofMethod tok))
  | unknown : Places d config .unknown none

/-- The token that a declaration has goes to the section of its kind. -/
theorem places_of_token {dec : Declaration} {item : Option (Section × Token)}
    (h : (dec.token d config).result = .ok item) : Places d config dec item := by
  cases dec with
  | ofClass c =>
    obtain ⟨tok, htok, h⟩ := Traced.result_bind_eq_ok.mp h
    cases h
    exact .ofClass htok
  | ofInterface i =>
    obtain ⟨tok, htok, h⟩ := Traced.result_bind_eq_ok.mp h
    cases h
    exact .ofInterface htok
  | ofVariable v =>
    obtain ⟨tok, htok, h⟩ := Traced.result_bind_eq_ok.mp h
    cases h
    exact .ofVariable htok
  | ofFunction f =>
    obtain ⟨tok, htok, h⟩ := Traced.result_bind_eq_ok.mp h
    cases h
    exact .ofFunction htok
  | unknown =>
    cases h
    exact .unknown

/-- Each section for declarations lists the tokens of the declarations of its kind, in their
order: tokens for other sections are dropped, and those of imports are for another. -/
theorem lists_ofUnit (h : (ofUnit d config unit).result = .ok o) : Lists d config unit o := by
  constructor
  · refine forall₂_tokensIn (by decide) ?_ h
    intro dec item hitem
    cases places_of_token hitem with
    | ofClass htok => exact .inr ⟨_, _, rfl, rfl, _, rfl, htok⟩
    | _ => exact .inl ⟨rfl, rfl⟩
  · refine forall₂_tokensIn (by decide) ?_ h
    intro dec item hitem
    cases places_of_token hitem with
    | ofInterface htok => exact .inr ⟨_, _, rfl, rfl, _, rfl, htok⟩
    | _ => exact .inl ⟨rfl, rfl⟩
  · refine forall₂_tokensIn (by decide) ?_ h
    intro dec item hitem
    cases places_of_token hitem with
    | ofFunction htok => exact .inr ⟨_, _, rfl, rfl, _, rfl, htok⟩
    | _ => exact .inl ⟨rfl, rfl⟩
  · refine forall₂_tokensIn (by decide) ?_ h
    intro dec item hitem
    cases places_of_token hitem with
    | ofVariable htok => exact .inr ⟨_, _, rfl, rfl, _, rfl, htok⟩
    | _ => exact .inl ⟨rfl, rfl⟩

end Outline

end CodeOutline
