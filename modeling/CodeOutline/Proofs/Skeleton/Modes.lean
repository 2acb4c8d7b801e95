import CodeOutline.Proofs.Skeleton.HiddenMembers
import Mathlib.Data.List.Chain

/-!
# The two kinds of skeletons

A skeleton is a class with throwing methods, or an interface. Both have the same lines for
the constants, and methods with the same signatures in the same order. They differ in what
follows a signature, and in the blank lines, which part the methods of a class only.
-/

namespace CodeOutline.Skeleton

/-! ## What is written -/

/-- The lines of the public constants. -/
def constantLines (marker : String) (t : EntityToken) : List String :=
  t.publicConstants.map fun c => indent ++ constantLine marker c

/-- The lines of the signatures of the public methods. -/
def signatureLines (t : EntityToken) : List String :=
  t.publicMethods.map fun m => indent ++ signature m

/-- The lines of the body of a method that throws. -/
def stubLines : List String :=
  ["    \x7b", "        throw new Error(\"Not implemented\");", "    \x7d"]

/-- What is written for a method with a signature: the lines of its body under it, or a
semicolon after it. -/
def methodText (withBodies : Bool) (signature : String) : String :=
  if withBodies then "\n".intercalate (signature :: stubLines) else signature ++ ";"

@[simp] theorem length_constantLines (marker : String) (t : EntityToken) :
    (constantLines marker t).length = t.publicConstants.length :=
  List.length_map _

@[simp] theorem length_signatureLines (t : EntityToken) :
    (signatureLines t).length = t.publicMethods.length :=
  List.length_map _

theorem methodText_eq (withBodies : Bool) (s : String) :
    methodText withBodies s = s ++ (if withBodies then throwingBody else ";") := by
  cases withBodies with
  | false => rfl
  | true =>
    simp only [methodText, stubLines, String.intercalate_cons_cons, String.intercalate_singleton,
      String.append_assoc, if_true]
    rfl

/-! ## Where it is written -/

/-- The number of the edit of a method: before it there are the first line, the constants
with a blank line after them, and the methods before it, in a class each with a blank line
after it. -/
def methodPlace (withBodies : Bool) (constants k : Nat) : Nat :=
  constants + (if 0 < constants then 2 else 1) + (if withBodies then 2 * k else k)

/-- The numbers of the blank edits: the one after the last constant, if methods follow, and
in a class the one after each method but the last. -/
def IsBlankPlace (withBodies : Bool) (constants methods place : Nat) : Prop :=
  (0 < constants ∧ 0 < methods ∧ place = constants + 1) ∨
    (withBodies = true ∧ ∃ k, k + 1 < methods ∧ place = methodPlace withBodies constants k + 1)

/-- How many edits there are. -/
def editCount (withBodies : Bool) (constants methods : Nat) : Nat :=
  constants + methods + 2 + (if 0 < constants ∧ 0 < methods then 1 else 0) +
    (if withBodies then methods - 1 else 0)

/-- The last method stands right before the last edit. -/
theorem editCount_eq (withBodies : Bool) (c : Nat) {m : Nat} (hm : 0 < m) :
    editCount withBodies c m = methodPlace withBodies c (m - 1) + 2 := by
  simp only [editCount, methodPlace, hm, and_true]
  split <;> split <;> omega

theorem IsBlankPlace.bounds {withBodies : Bool} {c m place : Nat}
    (h : IsBlankPlace withBodies c m place) : 0 < place ∧ place + 1 < editCount withBodies c m := by
  rcases h with ⟨hc, hm, rfl⟩ | ⟨rfl, k, hk, rfl⟩
  · rw [editCount_eq withBodies c hm, methodPlace, if_pos hc]
    omega
  · rw [editCount_eq true c (by omega)]
    simp only [methodPlace, if_true]
    omega

/-- No two blank edits follow each other. -/
theorem IsBlankPlace.not_next {withBodies : Bool} {c m place : Nat}
    (h : IsBlankPlace withBodies c m place) : ¬ IsBlankPlace withBodies c m (place + 1) := by
  rintro (⟨hc, -, hplace⟩ | ⟨hbodies, j, -, hplace⟩)
  · rcases h with ⟨-, -, rfl⟩ | ⟨-, k, -, rfl⟩
    · omega
    · rw [methodPlace, if_pos hc] at hplace
      omega
  · rcases h with ⟨hc, -, rfl⟩ | ⟨-, k, -, rfl⟩
    · rw [methodPlace, if_pos hc] at hplace
      omega
    · -- the blank edits between methods are two apart
      simp only [methodPlace, hbodies, if_true] at hplace
      omega

/-- Every edit is the first, that of a constant, that of a method, blank or the last. -/
theorem place_cases {withBodies : Bool} {c m place : Nat}
    (h : place < editCount withBodies c m) :
    place = 0 ∨ (∃ k < c, place = k + 1) ∨ (∃ k < m, place = methodPlace withBodies c k) ∨
      IsBlankPlace withBodies c m place ∨ place + 1 = editCount withBodies c m := by
  by_cases hzero : place = 0
  · exact .inl hzero
  by_cases hconstant : place ≤ c
  · exact .inr (.inl ⟨place - 1, by omega, by omega⟩)
  refine .inr (.inr ?_)
  by_cases hlast : place + 1 = editCount withBodies c m
  · exact .inr (.inr hlast)
  have hm : 0 < m := by
    by_contra hnone
    obtain rfl : m = 0 := by omega
    simp [editCount] at h hlast
    omega
  by_cases hgap : 0 < c ∧ place = c + 1
  · exact .inr (.inl (.inl ⟨hgap.1, hm, hgap.2⟩))
  -- the edits from the first method up to the last
  rw [editCount_eq withBodies c hm] at h hlast
  simp only [methodPlace] at h hlast
  have hfirst : methodPlace withBodies c 0 ≤ place := by
    simp only [methodPlace, Nat.mul_zero, ite_self]
    split <;> omega
  obtain ⟨j, rfl⟩ := Nat.exists_eq_add_of_le hfirst
  simp only [methodPlace, Nat.mul_zero, ite_self, Nat.add_zero] at h hlast ⊢
  cases withBodies with
  | false =>
    simp only [Bool.false_eq_true, if_false] at h hlast
    exact .inl ⟨j, by omega, rfl⟩
  | true =>
    -- methods and the blank edits after them take turns
    simp only [if_true] at h hlast
    obtain ⟨k, rfl | rfl⟩ : ∃ k, j = 2 * k ∨ j = 2 * k + 1 := ⟨j / 2, by omega⟩
    · exact .inl ⟨k, by omega, rfl⟩
    · exact .inr (.inl (.inr ⟨rfl, k, by omega, rfl⟩))

/-! ## The blocks of a skeleton -/

theorem getElem?_methodBlocks (withBodies : Bool) (ms : List MethodToken) (k : Nat) :
    (methodBlocks withBodies ms)[if withBodies then 2 * k else k]? =
      (ms[k]?).map fun m => methodText withBodies (indent ++ signature m) := by
  cases withBodies with
  | false => simp [methodBlocks, methodText]
  | true => simp [methodBlocks, methodText_eq]

theorem getElem?_methodBlocks_blank {ms : List MethodToken} {k : Nat} (hk : k + 1 < ms.length) :
    (methodBlocks true ms)[2 * k + 1]? = some "" := by
  rw [methodBlocks, if_pos rfl, List.getElem?_intersperse_two_mul_add_one]
  rwa [List.length_map]

variable (name : String) (t : EntityToken) (withBodies : Bool) (marker : String)

theorem blocks_eq_lines :
    blocks name t withBodies marker = opening name withBodies ::
      (constantLines marker t ++
        (gapLines t ++ methodBlocks withBodies t.publicMethods ++ ["\x7d"])) := by
  rw [blocks_eq, constants_eq_publicConstants, methods_eq_publicMethods, constantLines]

theorem length_gapLines : (gapLines t).length =
    if 0 < t.publicConstants.length ∧ 0 < t.publicMethods.length then 1 else 0 := by
  rw [gapLines, constants_eq_publicConstants, methods_eq_publicMethods]
  split <;> rfl

theorem length_blocks : (blocks name t withBodies marker).length =
    editCount withBodies t.publicConstants.length t.publicMethods.length := by
  simp only [blocks_eq_lines, editCount, List.length_cons, List.length_append, length_constantLines,
    length_gapLines, length_methodBlocks, List.length_nil]
  grind

theorem getElem?_blocks_constant {k : Nat} (hk : k < t.publicConstants.length) :
    (blocks name t withBodies marker)[k + 1]? = (constantLines marker t)[k]? := by
  rw [blocks_eq_lines, List.getElem?_cons_succ, List.getElem?_append_left (by simpa using hk)]

/-- What comes after the blank line behind the constants. -/
theorem getElem?_blocks_rest {k : Nat}
    (hk : k < (methodBlocks withBodies t.publicMethods).length) :
    (blocks name t withBodies marker)[t.publicConstants.length + (gapLines t).length + 1 + k]? =
      (methodBlocks withBodies t.publicMethods)[k]? := by
  rw [blocks_eq_lines, ← length_constantLines marker t]
  grind

/-- The block of a method is found at its place, behind the constants and the methods before it
with their blank lines. -/
theorem getElem?_blocks_method {k : Nat} (hk : k < t.publicMethods.length) :
    (blocks name t withBodies marker)[methodPlace withBodies t.publicConstants.length k]? =
      ((signatureLines t)[k]?).map (methodText withBodies) := by
  have hplace : methodPlace withBodies t.publicConstants.length k =
      t.publicConstants.length + (gapLines t).length + 1 + (if withBodies then 2 * k else k) := by
    have hm : 0 < t.publicMethods.length := by omega
    simp only [methodPlace, length_gapLines, hm, and_true]
    split <;> omega
  rw [hplace, getElem?_blocks_rest, getElem?_methodBlocks, signatureLines, List.getElem?_map,
    Option.map_map]
  · rfl
  · rw [length_methodBlocks]
    split <;> omega

theorem getElem?_blocks_blank {place : Nat}
    (h : IsBlankPlace withBodies t.publicConstants.length t.publicMethods.length place) :
    (blocks name t withBodies marker)[place]? = some "" := by
  rcases h with ⟨hc, hm, rfl⟩ | ⟨rfl, k, hk, rfl⟩
  · have hgap : gapLines t = [""] := by
      rw [gapLines, constants_eq_publicConstants, methods_eq_publicMethods, if_pos ⟨hc, hm⟩]
    rw [blocks_eq_lines, hgap, List.getElem?_cons_succ, List.getElem?_append_right (by simp),
      length_constantLines, Nat.sub_self]
    rfl
  · have hplace : methodPlace true t.publicConstants.length k + 1 =
        t.publicConstants.length + (gapLines t).length + 1 + (2 * k + 1) := by
      have hm : 0 < t.publicMethods.length := by omega
      simp only [methodPlace, length_gapLines, hm, and_true, if_true]
      split <;> omega
    rw [hplace, getElem?_blocks_rest, getElem?_methodBlocks_blank hk]
    rw [length_methodBlocks, if_pos rfl]
    omega

theorem getLast?_blocks : (blocks name t withBodies marker).getLast? = some "\x7d" := by
  rw [blocks_eq_lines]
  simp only [← List.cons_append, ← List.append_assoc, List.getLast?_concat]

/-- The blank blocks are those at the places of blank edits. -/
theorem eq_empty_iff_isBlankPlace {place : Nat} {block : String}
    (h : (blocks name t withBodies marker)[place]? = some block) :
    block = "" ↔
      IsBlankPlace withBodies t.publicConstants.length t.publicMethods.length place := by
  constructor
  · rintro rfl
    have hlt := (List.getElem?_eq_some_iff.mp h).1
    rw [length_blocks] at hlt
    rcases place_cases hlt with rfl | ⟨k, hk, rfl⟩ | ⟨k, hk, rfl⟩ | hblank | hlast
    · rw [blocks_eq_lines] at h
      simp [opening] at h
    · rw [getElem?_blocks_constant name t withBodies marker hk] at h
      simp [constantLines, indent] at h
    · rw [getElem?_blocks_method name t withBodies marker hk] at h
      simp [signatureLines, methodText_eq, indent] at h
    · exact hblank
    · have hclosing := getLast?_blocks name t withBodies marker
      rw [List.getLast?_eq_getElem?, length_blocks, ← hlast, Nat.add_sub_cancel, h] at hclosing
      simp at hclosing
  · intro hblank
    rw [getElem?_blocks_blank name t withBodies marker hblank] at h
    exact (Option.some.inj h).symm

/-! ## The edits of a skeleton -/

/-- Edits that write a stub from the lines of its constants and of its signatures. -/
structure LaidOut (name : String) (withBodies : Bool) (constants signatures : List String)
    (edits : List TextEdit) : Prop where
  /-- There are as many edits as constants and methods, one at each end, one between
  constants and methods, and in a class one between each two methods. -/
  length_eq : edits.length = constants.length + signatures.length + 2 +
    (if 0 < constants.length ∧ 0 < signatures.length then 1 else 0) +
    (if withBodies then signatures.length - 1 else 0)
  opening_text : (edits.head?).map (·.text) = some (opening name withBodies ++ "\n")
  closing_text : (edits.getLast?).map (·.text) = some "\x7d\n"
  constant_text : ∀ k line, constants[k]? = some line →
    (edits[k + 1]?).map (·.text) = some (line ++ "\n")
  method_text : ∀ k line, signatures[k]? = some line →
    (edits[methodPlace withBodies constants.length k]?).map (·.text) =
      some (methodText withBodies line ++ "\n")
  blank_iff : ∀ place e, edits[place]? = some e →
    (e.text = "\n" ↔ IsBlankPlace withBodies constants.length signatures.length place)
  /-- No two blank edits follow each other. -/
  blanks_apart : edits.IsChain fun e next => ¬ (e.text = "\n" ∧ next.text = "\n")
  /-- Neither the first edit nor the last is blank. -/
  blanks_inside : ∀ e, edits.head? = some e ∨ edits.getLast? = some e → e.text ≠ "\n"

variable (config : Config)

theorem map_text_getElem?_generate (place : Nat) :
    ((generate name t withBodies config)[place]?).map (·.text) =
      ((blocks name t withBodies config.marker)[place]?).map (· ++ "\n") := by
  rw [← List.getElem?_map, ← List.getElem?_map, generate, map_text_layout]

theorem length_generate : (generate name t withBodies config).length =
    editCount withBodies t.publicConstants.length t.publicMethods.length := by
  have hlength := congrArg List.length (map_text_layout 0 (blocks name t withBodies config.marker))
  rwa [List.length_map, List.length_map, length_blocks] at hlength

/-- The edits that write a blank line are those at the blank places, as no other block is
empty. -/
theorem blank_iff_isBlankPlace {place : Nat} {e : TextEdit}
    (h : (generate name t withBodies config)[place]? = some e) :
    e.text = "\n" ↔
      IsBlankPlace withBodies t.publicConstants.length t.publicMethods.length place := by
  have htext := map_text_getElem?_generate name t withBodies config place
  rw [h, Option.map_some] at htext
  obtain ⟨block, hblock, htext⟩ := Option.map_eq_some_iff.mp htext.symm
  rw [← htext, String.append_eq_right_iff]
  exact eq_empty_iff_isBlankPlace name t withBodies config.marker hblock

/-- Every stub, with bodies and without, is written from the same lines of constants and
signatures. -/
theorem laidOut_generate (name : String) (t : EntityToken) (config : Config) (withBodies : Bool) :
    LaidOut name withBodies (constantLines config.marker t) (signatureLines t)
      (generate name t withBodies config) := by
  have hconstants := length_constantLines config.marker t
  have hmethods := length_signatureLines t
  have htext := map_text_getElem?_generate name t withBodies config
  have hlength := length_generate name t withBodies config
  have hblank := @blank_iff_isBlankPlace name t withBodies config
  constructor
  · rw [hconstants, hmethods, hlength, editCount]
  · rw [List.head?_eq_getElem?, htext, blocks_eq_lines]
    rfl
  · rw [List.getLast?_eq_getElem?, htext, hlength, ← length_blocks name t withBodies config.marker,
      ← List.getLast?_eq_getElem?, getLast?_blocks]
    rfl
  · intro k line hline
    have hk := (List.getElem?_eq_some_iff.mp hline).1
    rw [htext, getElem?_blocks_constant _ _ _ _ (by omega), hline]
    rfl
  · intro k line hline
    have hk := (List.getElem?_eq_some_iff.mp hline).1
    rw [htext, hconstants, getElem?_blocks_method _ _ _ _ (by omega), hline]
    rfl
  · intro place e he
    rw [hconstants, hmethods]
    exact hblank he
  · refine List.isChain_iff_getElem.mpr fun place hplace => ?_
    rintro ⟨hfirst, hsecond⟩
    rw [hblank (List.getElem?_eq_getElem _)] at hfirst hsecond
    exact hfirst.not_next hsecond
  · rintro e (he | he) htext
    · rw [List.head?_eq_getElem?] at he
      have hplace := ((hblank he).mp htext).bounds
      omega
    · rw [List.getLast?_eq_getElem?, hlength] at he
      have hplace := ((hblank he).mp htext).bounds
      omega

end CodeOutline.Skeleton
