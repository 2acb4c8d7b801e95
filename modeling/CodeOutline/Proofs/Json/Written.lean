import CodeOutline.Proofs.Fields
import CodeOutline.Proofs.Json.Strings
import CodeOutline.Proofs.Number.Digits

/-!
# Written JSON

The grammar of JSON text whose numbers are whole: blanks may stand around each token, and a
string may be spelled in any way. A text of the grammar is read as the value that it writes.
-/

namespace CodeOutline.Json

/-- Blanks between tokens. -/
def Gap (cs : List Char) : Prop := ∀ c ∈ cs, isGap c = true

/-- The name of a field, with blanks around it. -/
inductive WrittenName : String → List Char → Prop where
  | mk {name : String} {before inner after : List Char} (hbefore : Gap before)
      (h : TextSpelling name.toList inner) (hafter : Gap after) :
      WrittenName name (before ++ '"' :: (inner ++ '"' :: after))

mutual

/-- The texts that write a value. -/
inductive Written : Json → List Char → Prop where
  | null : Written .null "null".toList
  | bool (value : Bool) : Written (.bool value) (if value then "true" else "false").toList
  | int (negative : Bool) {ds : List Char} (h : isWhole ds = true) :
      Written (.int (Numeral.signed negative (Numeral.digitsValue ds)))
        (Numeral.withSign negative ds)
  | str {text : String} {inner : List Char} (h : TextSpelling text.toList inner) :
      Written (.str text) ('"' :: (inner ++ ['"']))
  | emptyArr {gap : List Char} (h : Gap gap) : Written (.arr []) ('[' :: (gap ++ [']']))
  | arr {items : List Json} {inner : List Char} (h : WrittenItems items inner) :
      Written (.arr items) ('[' :: (inner ++ [']']))
  | emptyObj {gap : List Char} (h : Gap gap) :
      Written (.obj []) ('\x7b' :: (gap ++ ['\x7d']))
  | obj {fields : List (String × Json)} {inner : List Char}
      (hnames : (fields.map Prod.fst).Nodup) (h : WrittenFields fields inner) :
      Written (.obj fields) ('\x7b' :: (inner ++ ['\x7d']))

/-- A value with blanks around it. -/
inductive Padded : Json → List Char → Prop where
  | mk {value : Json} {before cs after : List Char} (hbefore : Gap before)
      (h : Written value cs) (hafter : Gap after) : Padded value (before ++ (cs ++ after))

/-- The items of an array, of which there is one at least. -/
inductive WrittenItems : List Json → List Char → Prop where
  | one {value : Json} {cs : List Char} (h : Padded value cs) : WrittenItems [value] cs
  | cons {value : Json} {items : List Json} {cs rest : List Char} (h : Padded value cs)
      (hrest : WrittenItems items rest) : WrittenItems (value :: items) (cs ++ ',' :: rest)

/-- The fields of an object, of which there is one at least. -/
inductive WrittenFields : List (String × Json) → List Char → Prop where
  | one {name : String} {value : Json} {head cs : List Char} (hname : WrittenName name head)
      (h : Padded value cs) : WrittenFields [(name, value)] (head ++ ':' :: cs)
  | cons {name : String} {value : Json} {fields : List (String × Json)}
      {head cs rest : List Char} (hname : WrittenName name head) (h : Padded value cs)
      (hrest : WrittenFields fields rest) :
      WrittenFields ((name, value) :: fields) (head ++ ':' :: (cs ++ ',' :: rest))

end

/-! ## Tokens -/

theorem gap_nil : Gap [] := by
  intro c hc
  simp at hc

theorem skipGap_append {gap : List Char} (h : Gap gap) (cs : List Char) :
    skipGap (gap ++ cs) = skipGap cs :=
  List.dropWhile_append_of_pos h

theorem skipGap_cons {c : Char} (h : isGap c = false) (cs : List Char) :
    skipGap (c :: cs) = c :: cs :=
  List.dropWhile_cons_of_neg (by simp [h])

/-- A text that no number runs on into. -/
def EndsNumber (rest : List Char) : Prop := ∀ c, rest.head? = some c → isNumeric c = false

theorem endsNumber_cons {c : Char} (h : isNumeric c = false) (rest : List Char) :
    EndsNumber (c :: rest) := by
  intro c' hc'
  obtain rfl : c = c' := by simpa using hc'
  exact h

theorem isNumeric_of_isGap {c : Char} (h : isGap c = true) : isNumeric c = false := by
  simp only [isGap, Bool.or_eq_true, decide_eq_true_eq] at h
  rcases h with ((rfl | rfl) | rfl) | rfl <;> decide

theorem EndsNumber.gap_append {gap rest : List Char} (h : EndsNumber rest) (hgap : Gap gap) :
    EndsNumber (gap ++ rest) := by
  cases gap with
  | nil => exact h
  | cons c gap => exact endsNumber_cons (isNumeric_of_isGap (hgap c (by simp))) (gap ++ rest)

/-! ### Names and numbers -/

/-- A run of characters with a property ends where the property does. -/
theorem run_append {p : Char → Bool} {run rest : List Char} (hrun : ∀ c ∈ run, p c = true)
    (hrest : ∀ c, rest.head? = some c → p c = false) :
    (run ++ rest).takeWhile p = run ∧ (run ++ rest).dropWhile p = rest := by
  rw [List.takeWhile_append_of_pos hrun, List.dropWhile_append_of_pos hrun]
  cases rest with
  | nil => simp
  | cons c rest => simp [hrest c rfl]

theorem isNumeric_withSign {ds : List Char} (h : ∀ c ∈ ds, c.isDigit = true) (negative : Bool) :
    ∀ c ∈ Numeral.withSign negative ds, isNumeric c = true :=
  Numeral.forall_mem_withSign (by decide) (fun c hc => by simp [isNumeric, h c hc]) negative

theorem unsigned?_of_isWhole {ds : List Char} (h : isWhole ds = true) (negative : Bool) :
    unsigned? negative ds = some (.int (Numeral.signed negative (Numeral.digitsValue ds))) := by
  have hdigits := (digits_of_isWhole h).2
  have hrun : ds.takeWhile Char.isDigit = ds ∧ ds.dropWhile Char.isDigit = [] := by
    simpa using run_append hdigits (by simp : ∀ c : Char, [].head? = some c → c.isDigit = false)
  rw [unsigned?, hrun.1, hrun.2, h]
  rfl

theorem number?_withSign {ds : List Char} (h : isWhole ds = true) (negative : Bool) :
    number? (Numeral.withSign negative ds) =
      some (.int (Numeral.signed negative (Numeral.digitsValue ds))) := by
  cases negative with
  | true => exact unsigned?_of_isWhole h true
  | false =>
    show number? ds = _
    rw [number?]
    · exact unsigned?_of_isWhole h false
    · rintro cs rfl
      simpa using (digits_of_isWhole h).2 '-' (by simp)

theorem named?_eq_none {cs : List Char}
    (h : ∀ entry ∈ names, entry.1.toList.isPrefixOf cs = false) : named? cs = none := by
  rw [named?, List.findSome?_eq_none_iff]
  intro entry hentry
  simp only [h entry hentry, Bool.false_eq_true, if_false]

theorem not_isPrefixOf_of_ne {c d : Char} {cs ds : List Char} (h : (c == d) = false) :
    (c :: cs).isPrefixOf (d :: ds) = false := by
  simp [List.isPrefixOf, h]

/-- No name starts as a number does. -/
theorem named?_withSign {ds : List Char} (h : isWhole ds = true) (negative : Bool)
    (rest : List Char) : named? (Numeral.withSign negative ds ++ rest) = none := by
  obtain ⟨hne, hdigits⟩ := digits_of_isWhole h
  obtain ⟨d, ds, rfl⟩ := List.exists_cons_of_ne_nil hne
  have hd : ∀ c : Char, c.isDigit = false → (c == d) = false := by
    intro c hc
    rw [beq_eq_false_iff_ne]
    rintro rfl
    rw [hdigits c (by simp)] at hc
    exact Bool.noConfusion hc
  apply named?_eq_none
  simp only [names, List.forall_mem_cons]
  cases negative with
  | true =>
    have hrest : "Infinity".toList.isPrefixOf (d :: (ds ++ rest)) = false :=
      not_isPrefixOf_of_ne (hd 'I' rfl)
    exact ⟨rfl, rfl, rfl, rfl, rfl, hrest, by simp⟩
  | false =>
    exact ⟨not_isPrefixOf_of_ne (hd 'n' rfl), not_isPrefixOf_of_ne (hd 't' rfl),
      not_isPrefixOf_of_ne (hd 'f' rfl), not_isPrefixOf_of_ne (hd 'N' rfl),
      not_isPrefixOf_of_ne (hd 'I' rfl), not_isPrefixOf_of_ne (hd '-' rfl), by simp⟩

/-- A whole number is read up to the first character that no number has, and is not taken for a
name. -/
theorem scalar?_withSign {ds rest : List Char} (h : isWhole ds = true) (negative : Bool)
    (hrest : EndsNumber rest) :
    scalar? (Numeral.withSign negative ds ++ rest) =
      some (.int (Numeral.signed negative (Numeral.digitsValue ds)), rest) := by
  have hnumeric := isNumeric_withSign (digits_of_isWhole h).2 negative
  have hrun := run_append hnumeric hrest
  rw [scalar?, named?_withSign h, hrun.1, hrun.2]
  dsimp only
  rw [number?_withSign h]
  rfl

theorem scalar?_null (rest : List Char) : scalar? ("null".toList ++ rest) = some (.null, rest) := by
  rfl

theorem scalar?_bool (value : Bool) (rest : List Char) :
    scalar? ((if value then "true" else "false").toList ++ rest) = some (.bool value, rest) := by
  cases value <;> rfl

/-! ## Values -/

/-- What a value may start with. -/
def StartsValue (c : Char) : Prop := isGap c = false ∧ c ≠ ']'

theorem startsValue_of_isDigit {c : Char} (h : c.isDigit = true) : StartsValue c := by
  refine ⟨?_, ?_⟩
  · simp only [isGap, Bool.or_eq_false_iff, decide_eq_false_iff_not]
    refine ⟨⟨⟨?_, ?_⟩, ?_⟩, ?_⟩ <;> rintro rfl <;> simp at h
  · rintro rfl
    simp at h

/-- A text that writes a value starts with neither a blank nor a closing bracket. -/
theorem Written.exists_start {value : Json} {cs : List Char} (h : Written value cs) :
    ∃ c rest, cs = c :: rest ∧ StartsValue c := by
  cases h with
  | null => exact ⟨'n', _, rfl, by decide, by decide⟩
  | bool value => cases value with
    | true => exact ⟨'t', _, rfl, by decide, by decide⟩
    | false => exact ⟨'f', _, rfl, by decide, by decide⟩
  | int negative h =>
    obtain ⟨hne, hdigits⟩ := digits_of_isWhole h
    obtain ⟨d, ds, rfl⟩ := List.exists_cons_of_ne_nil hne
    cases negative with
    | true => exact ⟨'-', _, rfl, by decide, by decide⟩
    | false => exact ⟨d, ds, rfl, startsValue_of_isDigit (hdigits d (by simp))⟩
  | str _ => exact ⟨'"', _, rfl, by decide, by decide⟩
  | emptyArr _ => exact ⟨'[', _, rfl, by decide, by decide⟩
  | arr _ => exact ⟨'[', _, rfl, by decide, by decide⟩
  | emptyObj _ => exact ⟨'\x7b', _, rfl, by decide, by decide⟩
  | obj _ _ => exact ⟨'\x7b', _, rfl, by decide, by decide⟩

theorem valueFrom?_gap_append {gap : List Char} (h : Gap gap) (fuel : Nat) (cs : List Char) :
    valueFrom? fuel (gap ++ cs) = valueFrom? fuel cs := by
  cases fuel with
  | zero => rw [valueFrom?, valueFrom?]
  | succ fuel => rw [valueFrom?, valueFrom?, skipGap_append h]

/-- A value that is neither a string nor a container is a name or a number. -/
theorem valueFrom?_eq_scalar? {c : Char} (hgap : isGap c = false)
    (hc : c ∉ ['"', '[', '\x7b']) (fuel : Nat) (cs : List Char) :
    valueFrom? (fuel + 1) (c :: cs) = scalar? (c :: cs) := by
  simp only [List.mem_cons, List.not_mem_nil, or_false, not_or] at hc
  rw [valueFrom?, skipGap_cons hgap]
  split
  · rename_i h
    exact absurd (List.cons.inj h).1 hc.1
  · rename_i h
    exact absurd (List.cons.inj h).1 hc.2.1
  · rename_i h
    exact absurd (List.cons.inj h).1 hc.2.2
  · rfl

theorem valueFrom?_string {cs inner : List Char} (h : TextSpelling cs inner) (fuel : Nat)
    (rest : List Char) :
    valueFrom? (fuel + 1) ('"' :: (inner ++ '"' :: rest)) =
      some (.str (String.ofList cs), rest) := by
  rw [valueFrom?, skipGap_cons (by decide)]
  show (string? (inner ++ '"' :: rest)).map _ = _
  rw [h.string?]
  rfl

theorem valueFrom?_number {ds rest : List Char} (h : isWhole ds = true) (negative : Bool)
    (hrest : EndsNumber rest) (fuel : Nat) :
    valueFrom? (fuel + 1) (Numeral.withSign negative ds ++ rest) =
      some (.int (Numeral.signed negative (Numeral.digitsValue ds)), rest) := by
  have hscalar := scalar?_withSign h negative hrest
  obtain ⟨hne, hdigits⟩ := digits_of_isWhole h
  obtain ⟨d, ds, rfl⟩ := List.exists_cons_of_ne_nil hne
  cases negative with
  | true => exact (valueFrom?_eq_scalar? (by decide) (by decide) fuel _).trans hscalar
  | false =>
    have hd := hdigits d (by simp)
    refine (valueFrom?_eq_scalar? (startsValue_of_isDigit hd).1 ?_ fuel _).trans hscalar
    rintro hmem
    simp only [List.mem_cons, List.not_mem_nil, or_false] at hmem
    rcases hmem with rfl | rfl | rfl <;> simp at hd

theorem Padded.exists_start {value : Json} {cs : List Char} (h : Padded value cs)
    (rest : List Char) : ∃ c after, skipGap (cs ++ rest) = c :: after ∧ c ≠ ']' := by
  obtain ⟨hbefore, h, -⟩ := h
  obtain ⟨c, tail, rfl, hgap, hc⟩ := h.exists_start
  rw [List.append_assoc, skipGap_append hbefore, List.append_assoc, List.cons_append,
    skipGap_cons hgap]
  exact ⟨c, _, rfl, hc⟩

theorem WrittenItems.exists_start {items : List Json} {cs : List Char}
    (h : WrittenItems items cs) (rest : List Char) :
    ∃ c after, skipGap (cs ++ rest) = c :: after ∧ c ≠ ']' := by
  cases h with
  | one h => exact h.exists_start rest
  | cons h _ =>
    rw [List.append_assoc]
    exact h.exists_start _

theorem WrittenName.skipGap_eq {name : String} {head : List Char} (h : WrittenName name head) :
    ∃ inner after, TextSpelling name.toList inner ∧ Gap after ∧
      ∀ rest, skipGap (head ++ rest) = '"' :: (inner ++ '"' :: (after ++ rest)) := by
  obtain ⟨hbefore, h, hafter⟩ := h
  refine ⟨_, _, h, hafter, fun rest => ?_⟩
  rw [List.append_assoc, skipGap_append hbefore, List.cons_append, skipGap_cons (by decide)]
  simp

theorem WrittenFields.exists_start {fields : List (String × Json)} {cs : List Char}
    (h : WrittenFields fields cs) (rest : List Char) :
    ∃ after, skipGap (cs ++ rest) = '"' :: after := by
  cases h with
  | one hname _ =>
    obtain ⟨inner, after, -, -, hstart⟩ := hname.skipGap_eq
    rw [List.append_assoc, hstart]
    exact ⟨_, rfl⟩
  | cons hname _ _ =>
    obtain ⟨inner, after, -, -, hstart⟩ := hname.skipGap_eq
    rw [List.append_assoc, hstart]
    exact ⟨_, rfl⟩

theorem valueFrom?_emptyArr {gap : List Char} (h : Gap gap) (fuel : Nat) (rest : List Char) :
    valueFrom? (fuel + 1) ('[' :: (gap ++ ']' :: rest)) = some (.arr [], rest) := by
  rw [valueFrom?, skipGap_cons (by decide)]
  simp only [skipGap_append h, skipGap_cons (by decide : isGap ']' = false)]

/-- An array is read once its items are: the first of them does not start with the closing
bracket, by which an empty array is told. -/
theorem valueFrom?_arr {fuel : Nat} {items : List Json} {inner rest : List Char}
    (hwritten : WrittenItems items inner)
    (hread : itemsFrom? fuel (inner ++ ']' :: rest) = some (items, rest)) :
    valueFrom? (fuel + 1) ('[' :: (inner ++ ']' :: rest)) = some (.arr items, rest) := by
  obtain ⟨c, after, hstart, hc⟩ := hwritten.exists_start (']' :: rest)
  rw [valueFrom?, skipGap_cons (by decide)]
  simp only [hstart, hread]
  split
  · rename_i h
    exact absurd (List.cons.inj h).1 hc
  · rfl

theorem valueFrom?_emptyObj {gap : List Char} (h : Gap gap) (fuel : Nat) (rest : List Char) :
    valueFrom? (fuel + 1) ('\x7b' :: (gap ++ '\x7d' :: rest)) = some (.obj [], rest) := by
  rw [valueFrom?, skipGap_cons (by decide)]
  simp only [skipGap_append h, skipGap_cons (by decide : isGap '\x7d' = false)]

/-- An object is read once its fields are. As their names are distinct, none takes the place of
another. -/
theorem valueFrom?_obj {fuel : Nat} {fields : List (String × Json)} {inner rest : List Char}
    (hnames : (fields.map Prod.fst).Nodup) (hwritten : WrittenFields fields inner)
    (hread : fieldsFrom? fuel (inner ++ '\x7d' :: rest) = some (fields, rest)) :
    valueFrom? (fuel + 1) ('\x7b' :: (inner ++ '\x7d' :: rest)) = some (.obj fields, rest) := by
  obtain ⟨after, hstart⟩ := hwritten.exists_start ('\x7d' :: rest)
  rw [valueFrom?, skipGap_cons (by decide)]
  simp only [hstart, hread]
  split
  · rename_i h
    exact absurd (List.cons.inj h).1 (by decide)
  · rw [Option.map_some, Fields.ofList_of_nodup hnames]

/-! ### Items and fields -/

theorem itemsFrom?_last {fuel : Nat} {cs gap rest : List Char} {value : Json} (hgap : Gap gap)
    (h : valueFrom? fuel cs = some (value, gap ++ ']' :: rest)) :
    itemsFrom? (fuel + 1) cs = some ([value], rest) := by
  rw [itemsFrom?, h]
  simp only [Option.bind_eq_bind, Option.bind_some, skipGap_append hgap,
    skipGap_cons (by decide : isGap ']' = false), Option.pure_def]

theorem itemsFrom?_more {fuel : Nat} {cs gap more rest : List Char} {value : Json}
    {items : List Json} (hgap : Gap gap)
    (h : valueFrom? fuel cs = some (value, gap ++ ',' :: more))
    (hmore : itemsFrom? fuel more = some (items, rest)) :
    itemsFrom? (fuel + 1) cs = some (value :: items, rest) := by
  rw [itemsFrom?, h]
  simp only [Option.bind_eq_bind, Option.bind_some, skipGap_append hgap,
    skipGap_cons (by decide : isGap ',' = false), hmore, Option.pure_def]

theorem fieldsFrom?_last {fuel : Nat} {name : String} {head cs gap rest : List Char}
    {value : Json} (hname : WrittenName name head) (hgap : Gap gap)
    (h : valueFrom? fuel cs = some (value, gap ++ '\x7d' :: rest)) :
    fieldsFrom? (fuel + 1) (head ++ ':' :: cs) = some ([(name, value)], rest) := by
  obtain ⟨inner, after, hinner, hafter, hstart⟩ := hname.skipGap_eq
  rw [fieldsFrom?, hstart]
  simp only [hinner.string?, Option.bind_eq_bind, Option.bind_some, skipGap_append hafter,
    skipGap_cons (by decide : isGap ':' = false), h, skipGap_append hgap,
    skipGap_cons (by decide : isGap '\x7d' = false), Option.pure_def, String.ofList_toList]

theorem fieldsFrom?_more {fuel : Nat} {name : String} {head cs gap more rest : List Char}
    {value : Json} {fields : List (String × Json)} (hname : WrittenName name head)
    (hgap : Gap gap) (h : valueFrom? fuel cs = some (value, gap ++ ',' :: more))
    (hmore : fieldsFrom? fuel more = some (fields, rest)) :
    fieldsFrom? (fuel + 1) (head ++ ':' :: cs) = some ((name, value) :: fields, rest) := by
  obtain ⟨inner, after, hinner, hafter, hstart⟩ := hname.skipGap_eq
  rw [fieldsFrom?, hstart]
  simp only [hinner.string?, Option.bind_eq_bind, Option.bind_some, skipGap_append hafter,
    skipGap_cons (by decide : isGap ':' = false), h, skipGap_append hgap,
    skipGap_cons (by decide : isGap ',' = false), hmore, Option.pure_def, String.ofList_toList]

/-! ### Whole texts -/

theorem Written.length_pos {value : Json} {cs : List Char} (h : Written value cs) :
    0 < cs.length := by
  obtain ⟨c, rest, rfl, -⟩ := h.exists_start
  simp

mutual

/-- A written value is read with as many steps as it has characters. -/
theorem Written.valueFrom? {value : Json} {cs : List Char} (h : Written value cs)
    {fuel : Nat} {rest : List Char} (hfuel : cs.length ≤ fuel) (hrest : EndsNumber rest) :
    valueFrom? fuel (cs ++ rest) = some (value, rest) := by
  obtain ⟨fuel, rfl⟩ := Nat.exists_eq_add_one.mpr (Nat.lt_of_lt_of_le h.length_pos hfuel)
  match h with
  | .null => exact (valueFrom?_eq_scalar? (by decide) (by decide) fuel _).trans (scalar?_null rest)
  | .bool value =>
    rw [← scalar?_bool]
    cases value with
    | true => exact valueFrom?_eq_scalar? (by decide) (by decide) fuel _
    | false => exact valueFrom?_eq_scalar? (by decide) (by decide) fuel _
  | .int negative h => exact valueFrom?_number h negative hrest fuel
  | .str h =>
    rw [List.cons_append, List.append_assoc]
    rw [List.singleton_append, valueFrom?_string h, String.ofList_toList]
  | .emptyArr h =>
    rw [List.cons_append, List.append_assoc]
    exact valueFrom?_emptyArr h fuel rest
  | .arr h =>
    rw [List.cons_append, List.append_assoc]
    rw [List.length_cons, List.length_append] at hfuel
    exact valueFrom?_arr h (h.itemsFrom? (Nat.le_of_succ_le_succ hfuel))
  | .emptyObj h =>
    rw [List.cons_append, List.append_assoc]
    exact valueFrom?_emptyObj h fuel rest
  | .obj hnames h =>
    rw [List.cons_append, List.append_assoc]
    rw [List.length_cons, List.length_append] at hfuel
    exact valueFrom?_obj hnames h (h.fieldsFrom? (Nat.le_of_succ_le_succ hfuel))

/-- A value with blanks around it is read, and the blanks after it are left. -/
theorem Padded.valueFrom? {value : Json} {cs : List Char} (h : Padded value cs)
    (fuel : Nat) {rest : List Char} (hfuel : cs.length ≤ fuel) (hrest : EndsNumber rest) :
    ∃ gap, Gap gap ∧ valueFrom? fuel (cs ++ rest) = some (value, gap ++ rest) := by
  match h with
  | .mk hbefore h hafter =>
    refine ⟨_, hafter, ?_⟩
    rw [List.length_append, List.length_append] at hfuel
    rw [List.append_assoc, List.append_assoc, valueFrom?_gap_append hbefore]
    exact h.valueFrom? (by omega) (hrest.gap_append hafter)

/-- Items are read up to the bracket that closes them, if there is fuel for each character and
one more. -/
theorem WrittenItems.itemsFrom? {items : List Json} {cs : List Char} (h : WrittenItems items cs)
    {fuel : Nat} {rest : List Char} (hfuel : cs.length + 1 ≤ fuel) :
    itemsFrom? fuel (cs ++ ']' :: rest) = some (items, rest) := by
  obtain ⟨fuel, rfl⟩ := Nat.exists_eq_add_one.mpr (Nat.lt_of_lt_of_le (Nat.succ_pos _) hfuel)
  match h with
  | .one h =>
    obtain ⟨gap, hgap, hread⟩ :=
      h.valueFrom? fuel (Nat.le_of_succ_le_succ hfuel) (endsNumber_cons (c := ']') (by decide) rest)
    exact itemsFrom?_last hgap hread
  | .cons h hmore =>
    rw [List.length_append, List.length_cons] at hfuel
    rw [List.append_assoc, List.cons_append]
    obtain ⟨gap, hgap, hread⟩ :=
      h.valueFrom? fuel (by omega) (endsNumber_cons (c := ',') (by decide) _)
    exact itemsFrom?_more hgap hread (hmore.itemsFrom? (by omega))

/-- Fields are read up to the brace that closes them, if there is fuel for each character and
one more. -/
theorem WrittenFields.fieldsFrom? {fields : List (String × Json)} {cs : List Char}
    (h : WrittenFields fields cs) {fuel : Nat} {rest : List Char} (hfuel : cs.length + 1 ≤ fuel) :
    fieldsFrom? fuel (cs ++ '\x7d' :: rest) = some (fields, rest) := by
  obtain ⟨fuel, rfl⟩ := Nat.exists_eq_add_one.mpr (Nat.lt_of_lt_of_le (Nat.succ_pos _) hfuel)
  match h with
  | .one hname h =>
    rw [List.length_append, List.length_cons] at hfuel
    rw [List.append_assoc, List.cons_append]
    obtain ⟨gap, hgap, hread⟩ :=
      h.valueFrom? fuel (by omega) (endsNumber_cons (c := '\x7d') (by decide) rest)
    exact fieldsFrom?_last hname hgap hread
  | .cons hname h hmore =>
    rw [List.length_append, List.length_cons, List.length_append, List.length_cons] at hfuel
    rw [List.append_assoc, List.cons_append, List.append_assoc, List.cons_append]
    obtain ⟨gap, hgap, hread⟩ :=
      h.valueFrom? fuel (by omega) (endsNumber_cons (c := ',') (by decide) _)
    exact fieldsFrom?_more hname hgap hread (hmore.fieldsFrom? (by omega))

end

/-- A text that writes a value is read as that value. -/
theorem Padded.read? {value : Json} {text : String} (h : Padded value text.toList) :
    read? text = some value := by
  have hend : EndsNumber [] := by simp [EndsNumber]
  obtain ⟨gap, hgap, hread⟩ := h.valueFrom? (2 * text.toList.length + 2) (by omega) hend
  rw [List.append_nil, List.append_nil] at hread
  have hrest : skipGap gap = [] := by
    have := skipGap_append hgap []
    rwa [List.append_nil] at this
  rw [Json.read?]
  simp only [hread, hrest, List.isEmpty_nil, if_true]

end CodeOutline.Json
