import CodeOutline.Json.Basic
import CodeOutline.Json.Reader

/-!
# Spellings of JSON strings

A character stands in a JSON string as itself or escaped: by a letter, by its number, or as
two halves. Each spelling is read as the characters it spells, so it spells nothing else. A
spelling without escapes is the text itself, and any other is longer.
-/

namespace CodeOutline.Json

/-- The ways to write a character between the quotes of a string. -/
inductive CharSpelling : Char → List Char → Prop where
  | plain {c : Char} (hquote : c ≠ '"') (hslash : c ≠ '\\') (hcontrol : 0x20 ≤ c.toNat) :
      CharSpelling c [c]
  | short {letter c : Char} (h : shortEscape? letter = some c) : CharSpelling c ['\\', letter]
  | unit {a b d e c : Char} (h : unitOf? a b d e = some c.toNat) :
      CharSpelling c ['\\', 'u', a, b, d, e]
  | halves {a b d e a' b' d' e' c : Char} {first second : Nat}
      (hfirst : unitOf? a b d e = some first) (hsecond : unitOf? a' b' d' e' = some second)
      (hhalf : isFirstHalf first = true) (hhalf' : isSecondHalf second = true)
      (hjoin : c.toNat = 0x10000 + (first - 0xd800) * 0x400 + (second - 0xdc00)) :
      CharSpelling c ['\\', 'u', a, b, d, e, '\\', 'u', a', b', d', e']

/-- The ways to write a text between the quotes of a string. -/
inductive TextSpelling : List Char → List Char → Prop where
  | nil : TextSpelling [] []
  | cons {c : Char} {cs here rest : List Char} (h : CharSpelling c here)
      (hrest : TextSpelling cs rest) : TextSpelling (c :: cs) (here ++ rest)

/-! ## Reading a spelling -/

/-- A stretch of a string is read as some units, whatever follows it. -/
def ReadsAs (here : List Char) (units : List Nat) : Prop :=
  ∀ rest, units? (here ++ rest) = (units? rest).map fun read => (units ++ read.1, read.2)

theorem ReadsAs.append {here here' : List Char} {units units' : List Nat}
    (h : ReadsAs here units) (h' : ReadsAs here' units') :
    ReadsAs (here ++ here') (units ++ units') := by
  intro rest
  rw [List.append_assoc, h, h']
  cases units? rest with
  | none => rfl
  | some read => simp

theorem readsAs_nil : ReadsAs [] [] := by
  intro rest
  rw [List.nil_append]
  cases units? rest <;> rfl

theorem readsAs_plain {c : Char} (hquote : c ≠ '"') (hslash : c ≠ '\\')
    (hcontrol : 0x20 ≤ c.toNat) : ReadsAs [c] [c.toNat] := by
  intro rest
  have hkept : ¬ (c = '\\' ∨ c.toNat < 0x20) := by
    rintro (h | h)
    · exact hslash h
    · omega
  rw [List.singleton_append, units?, if_neg hkept]
  · cases units? rest <;> rfl
  · exact hquote
  · intro _ _ _ _ _ h _
    exact hslash h
  · intro _ _ h _
    exact hslash h

theorem readsAs_short {letter c : Char} (h : shortEscape? letter = some c) :
    ReadsAs ['\\', letter] [c.toNat] := by
  intro rest
  have hletter : letter ≠ 'u' := by
    rintro rfl
    simp [shortEscape?] at h
  show units? ('\\' :: letter :: rest) = _
  rw [units?, h]
  · cases units? rest <;> rfl
  · intro _ _ _ _ _ hu _
    exact hletter hu

theorem readsAs_unit {a b d e : Char} {unit : Nat} (h : unitOf? a b d e = some unit) :
    ReadsAs ['\\', 'u', a, b, d, e] [unit] := by
  intro rest
  show units? ('\\' :: 'u' :: a :: b :: d :: e :: rest) = _
  rw [units?, h]
  cases units? rest <;> rfl

/-- A character has a number of its own, so none is half of another. -/
theorem not_half (c : Char) : isFirstHalf c.toNat = false ∧ isSecondHalf c.toNat = false := by
  have hvalid : c.toNat < 0xd800 ∨ 0xdfff < c.toNat ∧ c.toNat < 0x110000 := c.valid
  simp only [isFirstHalf, isSecondHalf, Bool.and_eq_false_imp, decide_eq_true_eq,
    decide_eq_false_iff_not]
  omega

theorem joinHalves_cons_toNat (c : Char) (more : List Nat) :
    joinHalves (c.toNat :: more) = c :: joinHalves more := by
  obtain ⟨hfirst, hsecond⟩ := not_half c
  have hchar : charOf c.toNat = c := by
    rw [charOf, hfirst, hsecond]
    exact Char.ofNat_toNat c
  cases more with
  | nil => simp only [joinHalves, hchar]
  | cons unit more => rw [joinHalves, hfirst, Bool.false_and, if_neg (by decide), hchar]

theorem CharSpelling.exists_readsAs {c : Char} {here : List Char} (h : CharSpelling c here) :
    ∃ units, ReadsAs here units ∧
      ∀ more, joinHalves (units ++ more) = c :: joinHalves more := by
  cases h with
  | plain hquote hslash hcontrol =>
    exact ⟨[c.toNat], readsAs_plain hquote hslash hcontrol, joinHalves_cons_toNat c⟩
  | short h => exact ⟨[c.toNat], readsAs_short h, joinHalves_cons_toNat c⟩
  | unit h => exact ⟨[c.toNat], readsAs_unit h, joinHalves_cons_toNat c⟩
  | halves hfirst hsecond hhalf hhalf' hjoin =>
    refine ⟨_, (readsAs_unit hfirst).append (readsAs_unit hsecond), fun more => ?_⟩
    rw [List.append_assoc, List.singleton_append, List.singleton_append, joinHalves, hhalf,
      hhalf', Bool.and_self, if_pos rfl, ← hjoin, Char.ofNat_toNat]

theorem TextSpelling.exists_readsAs {cs text : List Char} (h : TextSpelling cs text) :
    ∃ units, ReadsAs text units ∧ joinHalves units = cs := by
  induction h with
  | nil => exact ⟨[], readsAs_nil, rfl⟩
  | cons h _ ih =>
    obtain ⟨units, hreads, hjoin⟩ := h.exists_readsAs
    obtain ⟨units', hreads', hjoin'⟩ := ih
    exact ⟨units ++ units', hreads.append hreads', by rw [hjoin, hjoin']⟩

/-- A string is read as the text that it spells. -/
theorem TextSpelling.string? {cs text : List Char} (h : TextSpelling cs text)
    (after : List Char) : string? (text ++ '"' :: after) = some (String.ofList cs, after) := by
  obtain ⟨units, hreads, hjoin⟩ := h.exists_readsAs
  rw [Json.string?, hreads, units?]
  simp only [Option.map_some, List.append_nil, hjoin]

/-- What is between two quotes spells one text. -/
theorem TextSpelling.unique {cs cs' text : List Char} (h : TextSpelling cs text)
    (h' : TextSpelling cs' text) : cs = cs' := by
  have hread := h.string? []
  rw [h'.string? []] at hread
  have htext := congrArg Prod.fst (Option.some.inj hread)
  exact (String.ofList_injective htext).symm

/-! ## Texts that spell themselves -/

theorem CharSpelling.length_pos {c : Char} {here : List Char} (h : CharSpelling c here) :
    0 < here.length := by
  cases h <;> simp

/-- A character that is written without a backslash is written as itself. -/
theorem CharSpelling.eq_of_not_mem {c : Char} {here : List Char} (h : CharSpelling c here)
    (hslash : '\\' ∉ here) : here = [c] := by
  cases h <;> simp_all

theorem CharSpelling.not_mem_of_length {c : Char} {here : List Char} (h : CharSpelling c here)
    (hlen : here.length = 1) : '\\' ∉ here := by
  cases h with
  | plain _ hslash _ => simpa using hslash.symm
  | short _ => simp at hlen
  | unit _ => simp at hlen
  | halves _ _ _ _ _ => simp at hlen

theorem TextSpelling.length_le {cs text : List Char} (h : TextSpelling cs text) :
    cs.length ≤ text.length := by
  induction h with
  | nil => exact Nat.le_refl 0
  | cons h _ ih =>
    have := h.length_pos
    rw [List.length_append, List.length_cons]
    omega

theorem TextSpelling.eq_of_not_mem {cs text : List Char} (h : TextSpelling cs text)
    (hslash : '\\' ∉ text) : text = cs := by
  induction h with
  | nil => rfl
  | cons h _ ih =>
    rw [List.mem_append, not_or] at hslash
    rw [h.eq_of_not_mem hslash.1, ih hslash.2]
    rfl

/-- An escape makes a spelling longer than what it spells. -/
theorem TextSpelling.not_mem_of_length {cs text : List Char} (h : TextSpelling cs text)
    (hlen : text.length = cs.length) : '\\' ∉ text := by
  induction h with
  | nil => simp
  | cons h hrest ih =>
    have hpos := h.length_pos
    have hle := hrest.length_le
    rw [List.length_append, List.length_cons] at hlen
    rw [List.mem_append, not_or]
    exact ⟨h.not_mem_of_length (by omega), ih (by omega)⟩

/-- A text spells itself exactly if it has no escapes. -/
theorem TextSpelling.eq_iff {cs text : List Char} (h : TextSpelling cs text) :
    text = cs ↔ '\\' ∉ text :=
  ⟨fun heq => h.not_mem_of_length (congrArg List.length heq), h.eq_of_not_mem⟩

/-! ## Writing strings -/

theorem digitIn?_hexDigit {value : Nat} (h : value < 16) :
    Numeral.digitIn? 16 (Text.hexDigit value) = some value := by
  have hall : ∀ d < 16, Numeral.digitIn? 16 (Text.hexDigit d) = some d := by decide
  exact hall value h

/-- The escape of a unit, with its digits. -/
theorem unitEscape_eq {unit : Nat} (h : unit < 0x10000) :
    ∃ a b d e, unitEscape unit = ['\\', 'u', a, b, d, e] ∧ unitOf? a b d e = some unit := by
  refine ⟨_, _, _, _, rfl, ?_⟩
  simp only [unitOf?, List.foldlM_cons, List.foldlM_nil,
    digitIn?_hexDigit (Nat.mod_lt _ (by decide)), Option.map_some, Option.bind_eq_bind,
    Option.bind_some, Option.pure_def, Option.some.injEq]
  omega

/-- A character beyond the units is two of them. -/
theorem charSpelling_halves {c : Char} (h : 0x10000 ≤ c.toNat) :
    CharSpelling c (unitEscape (0xd800 + (c.toNat - 0x10000) / 0x400)
      ++ unitEscape (0xdc00 + (c.toNat - 0x10000) % 0x400)) := by
  have hvalid : c.toNat < 0xd800 ∨ 0xdfff < c.toNat ∧ c.toNat < 0x110000 := c.valid
  have hfirst : 0xd800 + (c.toNat - 0x10000) / 0x400 < 0xdc00 := by omega
  have hsecond : 0xdc00 + (c.toNat - 0x10000) % 0x400 < 0xe000 := by omega
  obtain ⟨a, b, d, e, hescape, hunit⟩ := unitEscape_eq (Nat.lt_trans hfirst (by decide))
  obtain ⟨a', b', d', e', hescape', hunit'⟩ := unitEscape_eq (Nat.lt_trans hsecond (by decide))
  rw [hescape, hescape']
  refine .halves hunit hunit' ?_ ?_ ?_
  · rw [isFirstHalf, Bool.and_eq_true, decide_eq_true_eq, decide_eq_true_eq]
    exact ⟨Nat.le_add_right _ _, hfirst⟩
  · rw [isSecondHalf, Bool.and_eq_true, decide_eq_true_eq, decide_eq_true_eq]
    exact ⟨Nat.le_add_right _ _, hsecond⟩
  · omega

theorem charSpelling_escapeChar (c : Char) : CharSpelling c (escapeChar c) := by
  by_cases hshort : c ∈ ['"', '\\', '\n', '\r', '\t', '\x0c', '\x08']
  · simp only [List.mem_cons, List.not_mem_nil, or_false] at hshort
    rcases hshort with rfl | rfl | rfl | rfl | rfl | rfl | rfl <;> exact .short rfl
  · simp only [List.mem_cons, List.not_mem_nil, or_false, not_or] at hshort
    simp only [escapeChar, hshort, or_self, if_false]
    split <;> rename_i hprint
    · exact .plain hshort.1 hshort.2.1 hprint.1
    split <;> rename_i hlt
    · obtain ⟨a, b, d, e, hescape, hunit⟩ := unitEscape_eq hlt
      rw [hescape]
      exact .unit hunit
    · exact charSpelling_halves (Nat.le_of_not_lt hlt)

theorem textSpelling_flatMap_escapeChar (cs : List Char) :
    TextSpelling cs (cs.flatMap escapeChar) := by
  induction cs with
  | nil => exact .nil
  | cons c cs ih =>
    rw [List.flatMap_cons]
    exact .cons (charSpelling_escapeChar c) ih

end CodeOutline.Json
