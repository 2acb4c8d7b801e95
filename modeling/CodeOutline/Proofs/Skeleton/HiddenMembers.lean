import CodeOutline.Proofs.Skeleton.Constants
import Mathlib.Logic.Relation

/-!
# Members that a skeleton does not show

A skeleton shows the public methods and constants of a class or interface. Two of them that
have the same of these, in the same order, have the same skeleton, edit by edit. So nothing
that is done to the other members can be seen in it.
-/

namespace CodeOutline

/-! ## Changes of members that are not shown -/

/-- One change of a list in members that are not shown: one of them is added, removed,
replaced by another, or changes places with its neighbour. -/
inductive HiddenEdit {α : Type} (shown : α → Bool) : List α → List α → Prop
  | add (front back : List α) {x : α} (hx : shown x = false) :
      HiddenEdit shown (front ++ back) (front ++ x :: back)
  | remove (front back : List α) {x : α} (hx : shown x = false) :
      HiddenEdit shown (front ++ x :: back) (front ++ back)
  | replace (front back : List α) {x y : α} (hx : shown x = false) (hy : shown y = false) :
      HiddenEdit shown (front ++ x :: back) (front ++ y :: back)
  | swap (front back : List α) {x y : α} (h : shown x = false ∨ shown y = false) :
      HiddenEdit shown (front ++ x :: y :: back) (front ++ y :: x :: back)

/-- A change of members that are not shown leaves those that are, in their order. -/
theorem HiddenEdit.filter_eq {α : Type} {shown : α → Bool} {xs ys : List α}
    (h : HiddenEdit shown xs ys) : xs.filter shown = ys.filter shown := by
  cases h with
  | add front back hx => simp [hx]
  | remove front back hx => simp [hx]
  | replace front back hx hy => simp [hx, hy]
  | swap front back h =>
    rcases h with hx | hy
    · simp [List.filter_cons, hx]
    · simp [List.filter_cons, hy]

/-- Whether a method is shown as public. -/
def MethodToken.isPublic (m : MethodToken) : Bool := m.visibility = "public"

/-- Whether a property is shown as public. -/
def PropertyToken.isPublic (p : PropertyToken) : Bool := p.visibility = "public"

namespace EntityToken

/-- One change of a class or interface in members that a skeleton does not show. Its
properties are not shown at all if it names its constants, and else those are shown that
are public constants. -/
inductive HiddenChange : EntityToken → EntityToken → Prop
  | methods {t : EntityToken} {ms ms' : List MethodToken} (ht : t.methods = some ms)
      (h : HiddenEdit MethodToken.isPublic ms ms') : HiddenChange t { t with methods := some ms' }
  | constants {t : EntityToken} {cs cs' : List PropertyToken} (ht : t.constants = some cs)
      (h : HiddenEdit PropertyToken.isPublic cs cs') :
      HiddenChange t { t with constants := some cs' }
  | properties {t : EntityToken} {ps ps' : List PropertyToken} (hnone : t.constants = none)
      (ht : t.properties = some ps) (h : HiddenEdit PropertyToken.isConstant ps ps') :
      HiddenChange t { t with properties := some ps' }
  | unusedProperties {t : EntityToken} {cs : List PropertyToken} (ht : t.constants = some cs)
      (ps : Option (List PropertyToken)) : HiddenChange t { t with properties := ps }

/-! ## What a skeleton shows -/

/-- The public ones among the methods. -/
def publicMethods (t : EntityToken) : List MethodToken :=
  (t.methods.getD []).filter MethodToken.isPublic

/-- The public ones among the constants that are named, or else among the properties that
are static and read-only. -/
def publicConstants (t : EntityToken) : List PropertyToken :=
  match t.constants with
  | some cs => cs.filter PropertyToken.isPublic
  | none => (t.properties.getD []).filter PropertyToken.isConstant

/-- Two classes or interfaces that have the same public methods and constants. -/
structure ShowsSame (t u : EntityToken) : Prop where
  methods_eq : t.publicMethods = u.publicMethods
  constants_eq : t.publicConstants = u.publicConstants

theorem HiddenChange.showsSame {t u : EntityToken} (h : HiddenChange t u) : t.ShowsSame u := by
  cases h with
  | methods ht h =>
    refine ⟨?_, rfl⟩
    simp only [publicMethods, ht, Option.getD_some, h.filter_eq]
  | constants ht h =>
    refine ⟨rfl, ?_⟩
    simp only [publicConstants, ht, h.filter_eq]
  | properties hnone ht h =>
    refine ⟨rfl, ?_⟩
    simp only [publicConstants, hnone, ht, Option.getD_some, h.filter_eq]
  | unusedProperties ht ps =>
    refine ⟨rfl, ?_⟩
    simp only [publicConstants, ht]

theorem showsSame_of_hiddenChanges {t u : EntityToken}
    (h : Relation.ReflTransGen HiddenChange t u) : t.ShowsSame u := by
  induction h with
  | refl => exact ⟨rfl, rfl⟩
  | tail _ hlast ih =>
    have hstep := hlast.showsSame
    exact ⟨ih.methods_eq.trans hstep.methods_eq, ih.constants_eq.trans hstep.constants_eq⟩

end EntityToken

/-! ## Skeletons -/

namespace Skeleton

theorem methods_eq_publicMethods (t : EntityToken) : methods t = t.publicMethods := rfl

theorem constants_eq_publicConstants (t : EntityToken) : constants t = t.publicConstants := by
  cases hconstants : t.constants with
  | some cs =>
    simp only [constants, EntityToken.publicConstants, hconstants]
    rfl
  | none =>
    rw [constants_of_none hconstants]
    simp only [EntityToken.publicConstants, hconstants]

/-- A skeleton is made of the public methods and constants alone. -/
theorem generate_of_showsSame {t u : EntityToken} (h : t.ShowsSame u) (name : String)
    (withBodies : Bool) (config : Config) :
    generate name t withBodies config = generate name u withBodies config := by
  have hmethods : methods t = methods u := by
    rw [methods_eq_publicMethods, h.methods_eq, methods_eq_publicMethods]
  have hconstants : constants t = constants u := by
    rw [constants_eq_publicConstants, h.constants_eq, constants_eq_publicConstants]
  simp only [generate, blocks, hmethods, hconstants]

/-- A class or interface has the skeleton of any other that has the same public methods and
constants, and so of any that it becomes by changes to its other members. -/
theorem generate_hides (name : String) (withBodies : Bool) (config : Config) (t u : EntityToken) :
    (t.ShowsSame u → generate name t withBodies config = generate name u withBodies config) ∧
    (Relation.ReflTransGen EntityToken.HiddenChange t u →
      generate name t withBodies config = generate name u withBodies config) := by
  constructor
  · intro h
    exact generate_of_showsSame h name withBodies config
  · intro h
    exact generate_of_showsSame (EntityToken.showsSame_of_hiddenChanges h) name withBodies config

/-- A class with a public and a private method, and with a property beside a constant. -/
def openClass : EntityToken :=
  { name := "A", methods := some [{ name := "run" }, { name := "check", visibility := "private" }],
    properties := some [{ name := "@MAX", value := "1", isStatic := true, isReadonly := true },
      { name := "count" }] }

/-- The class with a protected method before the public one, and with a private constant. -/
def reworkedClass : EntityToken :=
  { openClass with
    methods := some [{ name := "verify", visibility := "protected" }, { name := "run" }],
    properties := some [{ name := "@MAX", value := "1", isStatic := true, isReadonly := true },
      { name := "@MIN", visibility := "private", isStatic := true, isReadonly := true }] }

theorem hiddenChanges_reworkedClass :
    Relation.ReflTransGen EntityToken.HiddenChange openClass reworkedClass := by
  have hswap : HiddenEdit MethodToken.isPublic
      [{ name := "run" }, { name := "check", visibility := "private" }]
      [{ name := "check", visibility := "private" }, { name := "run" }] :=
    .swap [] [] (.inr rfl)
  have hmethod : HiddenEdit MethodToken.isPublic
      [{ name := "check", visibility := "private" }, { name := "run" }]
      [{ name := "verify", visibility := "protected" }, { name := "run" }] :=
    .replace [] ([{ name := "run" }] : List MethodToken) rfl rfl
  have hproperty : HiddenEdit PropertyToken.isConstant
      [{ name := "@MAX", value := "1", isStatic := true, isReadonly := true }, { name := "count" }]
      [{ name := "@MAX", value := "1", isStatic := true, isReadonly := true },
       { name := "@MIN", visibility := "private", isStatic := true, isReadonly := true }] :=
    .replace ([{ name := "@MAX", value := "1", isStatic := true, isReadonly := true }] :
      List PropertyToken) [] rfl rfl
  exact ((Relation.ReflTransGen.single (.methods rfl hswap)).tail (.methods rfl hmethod)).tail
    (.properties rfl rfl hproperty)

/-- What is done to the other members of a class cannot be seen in its skeleton. -/
theorem generate_hides_reworkedClass :
    openClass.ShowsSame reworkedClass ∧
      Relation.ReflTransGen EntityToken.HiddenChange openClass reworkedClass ∧
      generate "S" openClass true {} = generate "S" reworkedClass true {} ∧
      generate "S" openClass false {} = generate "S" reworkedClass false {} ∧
      (generate "S" reworkedClass false {}).map (·.text) =
        ["export interface S \x7b\n", "    public static readonly MAX = 1;\n", "\n",
         "    public run(): any;\n", "\x7d\n"] := by
  have hsame : openClass.ShowsSame reworkedClass := ⟨by decide, by decide⟩
  exact ⟨hsame, hiddenChanges_reworkedClass,
    (generate_hides "S" true {} openClass reworkedClass).1 hsame,
    (generate_hides "S" false {} openClass reworkedClass).2 hiddenChanges_reworkedClass,
    by decide +kernel⟩

end Skeleton

end CodeOutline
