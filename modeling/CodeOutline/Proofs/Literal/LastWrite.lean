import CodeOutline.Proofs.Literal.RoundTrip
import Mathlib.Data.List.Induction

/-!
# The last write wins

Each entry of a literal goes to one place: an entry of a table to its key, and an entry of a list
to a slot, which depends on how many slots there are when it is reached. What is found at a place
in the end is the value of the last entry that went there, so a value is lost only to a later one
at its own place.
-/

namespace CodeOutline.Literal

variable {α : Type}

/-! ## Values that are written last -/

/-- Of the entries that go to a place, the last has a value. -/
def LastValue (items : List (Option String × α)) (goes : Nat → Prop) (value : α) : Prop :=
  ∃ j key, items[j]? = some (key, value) ∧ goes j ∧
    ∀ j', j < j' → j' < items.length → ¬ goes j'

theorem not_lastValue_nil (goes : Nat → Prop) (value : α) : ¬ LastValue [] goes value := by
  intro h
  obtain ⟨j, key, hj, -⟩ := h
  simp at hj

/-- One more entry writes the place that it goes to. -/
theorem lastValue_concat_of_goes {items : List (Option String × α)} {entry : Option String × α}
    {goes : Nat → Prop} (hgoes : goes items.length) (value : α) :
    LastValue (items ++ [entry]) goes value ↔ entry.2 = value := by
  constructor
  · intro h
    obtain ⟨j, key, hj, -, hlast⟩ := h
    have hbound := (List.getElem?_eq_some_iff.mp hj).1
    simp only [List.length_append, List.length_singleton] at hbound hlast
    have hend : j = items.length := by
      by_contra hne
      exact hlast items.length (by omega) (by omega) hgoes
    subst hend
    simp only [List.getElem?_concat_length, Option.some.injEq] at hj
    simp [hj]
  · intro h
    refine ⟨items.length, entry.1, by simp [← h], hgoes, ?_⟩
    intro j' hlt hbound
    simp only [List.length_append, List.length_singleton] at hbound
    omega

/-- One more entry leaves the places that it does not go to as they are. -/
theorem lastValue_concat_of_not_goes {items : List (Option String × α)}
    {entry : Option String × α} {goes goes' : Nat → Prop} (hnot : ¬ goes' items.length)
    (hsame : ∀ j, j < items.length → (goes' j ↔ goes j)) (value : α) :
    LastValue (items ++ [entry]) goes' value ↔ LastValue items goes value := by
  constructor
  · intro h
    obtain ⟨j, key, hj, hgoes, hlast⟩ := h
    have hbound := (List.getElem?_eq_some_iff.mp hj).1
    simp only [List.length_append, List.length_singleton] at hbound hlast
    have hne : j ≠ items.length := by
      intro heq
      exact hnot (heq ▸ hgoes)
    have hlt : j < items.length := by omega
    rw [List.getElem?_append_left hlt] at hj
    refine ⟨j, key, hj, (hsame j hlt).mp hgoes, ?_⟩
    intro j' hj' hlt' hgoes'
    exact hlast j' hj' (by omega) ((hsame j' hlt').mpr hgoes')
  · intro h
    obtain ⟨j, key, hj, hgoes, hlast⟩ := h
    have hlt := (List.getElem?_eq_some_iff.mp hj).1
    refine ⟨j, key, by rw [List.getElem?_append_left hlt, hj], (hsame j hlt).mpr hgoes, ?_⟩
    intro j' hj' hbound hgoes'
    simp only [List.length_append, List.length_singleton] at hbound
    by_cases heq : j' = items.length
    · exact hnot (heq ▸ hgoes')
    · have hlt' : j' < items.length := by omega
      exact hlast j' hj' hlt' ((hsame j' hlt').mp hgoes')

/-- An entry whose value is not the last one written where it goes has a later entry that goes
there too. -/
theorem lastValue_or_later {items : List (Option String × α)} {goes : Nat → Prop} {j : Nat}
    {key : Option String} {value : α} (hj : items[j]? = some (key, value)) (hgoes : goes j) :
    LastValue items goes value ∨ ∃ j', j < j' ∧ j' < items.length ∧ goes j' := by
  by_cases hlater : ∃ j', j < j' ∧ j' < items.length ∧ goes j'
  · exact .inr hlater
  · left
    refine ⟨j, key, hj, hgoes, ?_⟩
    intro j' hlt hbound hgoes'
    exact hlater ⟨j', hlt, hbound, hgoes'⟩

/-! ## Slots -/

/-- Where an entry goes when there are `count` slots: without a key to a new slot, with a key that
reads as the number of a slot to that slot, and with any other key to a new slot. -/
inductive GoesTo (count : Nat) : Option String → Nat → Prop where
  | positional : GoesTo count none count
  | replaces {key : String} {slot : Nat} (hread : Numeral.integer? key.toList = some (slot : Int))
      (hslot : slot < count) : GoesTo count (some key) slot
  | creates {key : String}
      (hread : ∀ slot : Nat, Numeral.integer? key.toList = some (slot : Int) → count ≤ slot) :
      GoesTo count (some key) count

theorem slotOf?_eq_some {key : String} {slot : Nat} :
    slotOf? key = some slot ↔ Numeral.integer? key.toList = some (slot : Int) := by
  unfold slotOf?
  cases Numeral.integer? key.toList with
  | none => simp
  | some index =>
    by_cases hindex : 0 ≤ index
    · simp [hindex]
      omega
    · simp [hindex]
      omega

theorem exists_goesTo (count : Nat) (key : Option String) : ∃ slot, GoesTo count key slot := by
  cases key with
  | none => exact ⟨count, .positional⟩
  | some key =>
    by_cases hread : ∃ slot : Nat, Numeral.integer? key.toList = some (slot : Int) ∧ slot < count
    · obtain ⟨slot, hread, hslot⟩ := hread
      exact ⟨slot, .replaces hread hslot⟩
    · refine ⟨count, .creates ?_⟩
      intro slot hslot
      by_contra hlt
      exact hread ⟨slot, hslot, by omega⟩

theorem GoesTo.le {count slot : Nat} {key : Option String} (h : GoesTo count key slot) :
    slot ≤ count := by
  cases h with
  | positional => omega
  | replaces _ hslot => omega
  | creates _ => omega

theorem GoesTo.unique {count slot slot' : Nat} {key : Option String} (h : GoesTo count key slot)
    (h' : GoesTo count key slot') : slot = slot' := by
  cases h with
  | positional =>
    cases h'
    rfl
  | replaces hread hslot =>
    cases h' with
    | replaces hread' _ =>
      rw [hread] at hread'
      exact Int.ofNat_inj.mp (Option.some.inj hread')
    | creates hread' =>
      have := hread' slot hread
      omega
  | creates hread =>
    cases h' with
    | replaces hread' hslot' =>
      have := hread slot' hread'
      omega
    | creates _ => rfl

/-- An entry is put where it goes, and nothing else changes. -/
theorem GoesTo.fill_eq {slots : List α} {key : Option String} {slot : Nat}
    (h : GoesTo slots.length key slot) (value : α) :
    fill slots (key.bind slotOf?) value = slots.take slot ++ value :: slots.drop (slot + 1) := by
  cases h with
  | positional => simp [fill]
  | replaces hread hslot =>
    rw [Option.bind_some, slotOf?_eq_some.mpr hread]
    simp [fill, hslot, List.set_eq_take_append_cons_drop]
  | @creates key hread =>
    cases hslot : slotOf? key with
    | none => simp [fill, hslot]
    | some slot =>
      have hle := hread slot (slotOf?_eq_some.mp hslot)
      have hnot : ¬ slot < slots.length := by omega
      simp [fill, hslot, hnot]

theorem GoesTo.getElem?_fill {slots : List α} {key : Option String} {slot : Nat}
    (h : GoesTo slots.length key slot) (value : α) (i : Nat) :
    (fill slots (key.bind slotOf?) value)[i]? = if slot = i then some value else slots[i]? := by
  have hle := h.le
  rw [h.fill_eq, List.getElem?_append, List.length_take, Nat.min_eq_left hle]
  by_cases hlt : i < slot
  · have hne : slot ≠ i := by omega
    simp [hlt, hne]
  · by_cases heq : slot = i
    · simp [heq]
    · have hsub : i - slot = (i - (slot + 1)) + 1 := by omega
      rw [if_neg hlt, if_neg heq, hsub, List.getElem?_cons_succ, List.getElem?_drop]
      congr 1
      omega

theorem slotsOf_concat (items : List (Option String × α)) (entry : Option String × α) :
    slotsOf (items ++ [entry]) = fill (slotsOf items) (entry.1.bind slotOf?) entry.2 := by
  simp [slotsOf]

/-- The slots that there are when an entry is reached, by its number. -/
def slotsBefore (items : List (Option String × α)) (j : Nat) : List α :=
  slotsOf (items.take j)

/-- An entry, by its number, goes to a slot. -/
def WritesSlot (items : List (Option String × α)) (slot j : Nat) : Prop :=
  ∃ key value, items[j]? = some (key, value) ∧ GoesTo (slotsBefore items j).length key slot

theorem writesSlot_concat_of_lt {items : List (Option String × α)} {j : Nat}
    (hj : j < items.length) (entry : Option String × α) (slot : Nat) :
    WritesSlot (items ++ [entry]) slot j ↔ WritesSlot items slot j := by
  rw [WritesSlot, WritesSlot, slotsBefore, slotsBefore, List.getElem?_append_left hj,
    List.take_append_of_le_length (by omega)]

theorem writesSlot_concat_last (items : List (Option String × α)) (entry : Option String × α)
    (slot : Nat) :
    WritesSlot (items ++ [entry]) slot items.length ↔
      GoesTo (slotsOf items).length entry.1 slot := by
  obtain ⟨key, value⟩ := entry
  simp [WritesSlot, slotsBefore]

/-- A slot holds the value of the last entry that goes to it. -/
theorem getElem?_slotsOf (items : List (Option String × α)) (slot : Nat) (value : α) :
    (slotsOf items)[slot]? = some value ↔ LastValue items (WritesSlot items slot) value := by
  induction items using List.reverseRecOn with
  | nil => simp [slotsOf, not_lastValue_nil]
  | append_singleton items entry ih =>
    obtain ⟨target, htarget⟩ := exists_goesTo (slotsOf items).length entry.1
    have hwrites : WritesSlot (items ++ [entry]) slot items.length ↔ target = slot := by
      rw [writesSlot_concat_last]
      constructor
      · intro h
        exact htarget.unique h
      · intro h
        exact h ▸ htarget
    rw [slotsOf_concat, htarget.getElem?_fill]
    by_cases hslot : target = slot
    · rw [lastValue_concat_of_goes (hwrites.mpr hslot)]
      simp [hslot]
    · rw [lastValue_concat_of_not_goes (mt hwrites.mp hslot)
        fun j hj => writesSlot_concat_of_lt hj entry slot]
      simp [hslot, ih]

/-! ## Keys -/

/-- An entry, by its number, has a key. -/
def HasKey (items : List (Option String × α)) (key : String) (j : Nat) : Prop :=
  ∃ value, items[j]? = some (some key, value)

theorem hasKey_concat_of_lt {items : List (Option String × α)} {j : Nat} (hj : j < items.length)
    (entry : Option String × α) (key : String) :
    HasKey (items ++ [entry]) key j ↔ HasKey items key j := by
  rw [HasKey, HasKey, List.getElem?_append_left hj]

theorem hasKey_concat_last (items : List (Option String × α)) (entry : Option String × α)
    (key : String) : HasKey (items ++ [entry]) key items.length ↔ entry.1 = some key := by
  obtain ⟨key', value⟩ := entry
  simp [HasKey]

/-- Entries that all have keys. -/
def keyed (fields : List (String × α)) : List (Option String × α) :=
  fields.map fun field => (some field.1, field.2)

theorem exists_keyed {items : List (Option String × α)} (h : ∀ entry ∈ items, entry.1 ≠ none) :
    ∃ fields, items = keyed fields := by
  induction items with
  | nil => exact ⟨[], rfl⟩
  | cons entry rest ih =>
    obtain ⟨fields, rfl⟩ := ih fun other hother => h other (by simp [hother])
    obtain ⟨key, value⟩ := entry
    cases key with
    | none => exact absurd rfl (h (none, value) (by simp))
    | some key => exact ⟨(key, value) :: fields, rfl⟩

/-- A name has the value of the last entry with that key. -/
theorem mem_ofList_iff (fields : List (String × α)) (key : String) (value : α) :
    (key, value) ∈ Fields.ofList fields ↔
      LastValue (keyed fields) (HasKey (keyed fields) key) value := by
  induction fields using List.reverseRecOn with
  | nil => simp [Fields.ofList, keyed, not_lastValue_nil]
  | append_singleton fields field ih =>
    have hkeyed : keyed (fields ++ [field]) = keyed fields ++ [(some field.1, field.2)] := by
      simp [keyed]
    have hhas : HasKey (keyed fields ++ [(some field.1, field.2)]) key (keyed fields).length ↔
        field.1 = key := by
      rw [hasKey_concat_last, Option.some.injEq]
    rw [Fields.ofList_concat, Fields.mem_put_iff (Fields.nodup_names_ofList fields), hkeyed]
    by_cases hkey : field.1 = key
    · rw [lastValue_concat_of_goes (hhas.mpr hkey)]
      simp [hkey]
    · rw [lastValue_concat_of_not_goes (mt hhas.mp hkey)
        fun j hj => hasKey_concat_of_lt hj (some field.1, field.2) key]
      simp [hkey, ih]

/-! ## Containers -/

/-- How entries that all have keys are kept in a table. -/
structure KeptByKey (items : List (Option String × α)) (fields : List (String × α)) : Prop where
  /-- The names are the keys, each where it first came. -/
  names : fields.map Prod.fst = (items.filterMap Prod.fst).eraseDups
  /-- Under a name is the value of the last entry with that key. -/
  last : ∀ key value, (key, value) ∈ fields ↔ LastValue items (HasKey items key) value
  /-- What is not kept has a later value under its key. -/
  kept : ∀ j key value, items[j]? = some (some key, value) →
    (key, value) ∈ fields ∨ ∃ j', j < j' ∧ HasKey items key j'

/-- How entries, one of them without a key, are kept in slots. -/
structure KeptBySlot (items : List (Option String × α)) (slots : List α) : Prop where
  /-- An entry is put in the one slot that it goes to, which exists or is the next new one, and
  nothing else changes. -/
  step : ∀ j key value, items[j]? = some (key, value) →
    ∃ slot, (∀ other, GoesTo (slotsBefore items j).length key other ↔ other = slot) ∧
      slot ≤ (slotsBefore items j).length ∧
      slotsBefore items (j + 1) =
        (slotsBefore items j).take slot ++ value :: (slotsBefore items j).drop (slot + 1)
  /-- The slots are those after the last entry. -/
  slots_eq : slots = slotsBefore items items.length
  /-- In a slot is the value of the last entry that went there. -/
  last : ∀ slot value, slots[slot]? = some value ↔ LastValue items (WritesSlot items slot) value
  /-- What is not kept has a later value in its slot. -/
  kept : ∀ j key value, items[j]? = some (key, value) → ∃ slot, WritesSlot items slot j ∧
    (slots[slot]? = some value ∨ ∃ j', j < j' ∧ WritesSlot items slot j')

theorem keptByKey_ofList (fields : List (String × α)) :
    KeptByKey (keyed fields) (Fields.ofList fields) where
  names := by
    rw [Fields.names_ofList, keyed, List.filterMap_map]
    congr 1
    simp
  last := mem_ofList_iff fields
  kept := by
    intro j key value hj
    have hhas : HasKey (keyed fields) key j := ⟨value, hj⟩
    rcases lastValue_or_later hj hhas with hlast | ⟨j', hlt, -, hkey⟩
    · exact .inl ((mem_ofList_iff fields key value).mpr hlast)
    · exact .inr ⟨j', hlt, hkey⟩

theorem slotsBefore_succ {items : List (Option String × α)} {j : Nat}
    {entry : Option String × α} (hj : items[j]? = some entry) :
    slotsBefore items (j + 1) =
      fill (slotsBefore items j) (entry.1.bind slotOf?) entry.2 := by
  rw [slotsBefore, List.take_add_one, hj, Option.toList_some, slotsOf_concat, slotsBefore]

theorem keptBySlot_slotsOf (items : List (Option String × α)) :
    KeptBySlot items (slotsOf items) where
  step := by
    intro j key value hj
    obtain ⟨slot, hslot⟩ := exists_goesTo (slotsBefore items j).length key
    refine ⟨slot, ?_, hslot.le, by rw [slotsBefore_succ hj, hslot.fill_eq]⟩
    intro other
    constructor
    · intro hother
      exact hother.unique hslot
    · intro heq
      exact heq ▸ hslot
  slots_eq := by rw [slotsBefore, List.take_length]
  last := getElem?_slotsOf items
  kept := by
    intro j key value hj
    obtain ⟨slot, hslot⟩ := exists_goesTo (slotsBefore items j).length key
    have hwrites : WritesSlot items slot j := ⟨key, value, hj, hslot⟩
    refine ⟨slot, hwrites, ?_⟩
    rcases lastValue_or_later hj hwrites with hlast | ⟨j', hlt, -, hlater⟩
    · exact .inl ((getElem?_slotsOf items slot value).mpr hlast)
    · exact .inr ⟨j', hlt, hlater⟩

/-- Entries that all have keys make a table, and entries of which one has none a list. Both hold
what was written last. -/
theorem ofEntries_keeps_last (items : List (Option String × Literal)) :
    (items ≠ [] → (∀ entry ∈ items, entry.1 ≠ none) →
      ∃ fields, ofEntries items = .table fields ∧ KeptByKey items fields) ∧
    ((∃ entry ∈ items, entry.1 = none) →
      ∃ slots, ofEntries items = .list slots ∧ KeptBySlot items slots) := by
  constructor
  · intro hne hkeys
    obtain ⟨fields, rfl⟩ := exists_keyed hkeys
    have hfields : fields ≠ [] := by
      intro hnil
      exact hne (by simp [hnil, keyed])
    exact ⟨Fields.ofList fields, ofEntries_keyed hfields, keptByKey_ofList fields⟩
  · intro hpositional
    obtain ⟨entry, hentry, hkey⟩ := hpositional
    have hne : items.isEmpty = false := by
      cases items <;> simp_all
    have hany : items.any (·.1.isNone) = true := by
      rw [List.any_eq_true]
      exact ⟨entry, hentry, by simp [hkey]⟩
    refine ⟨slotsOf items, ?_, keptBySlot_slotsOf items⟩
    simp [ofEntries, hne, hany]

/-- Two entries without keys, one whose key is the number of a slot, and one with another key. -/
def mixedEntries : List (Option String × Literal) :=
  [(none, .str "a"), (none, .str "b"), (some "0", .str "z"), (some "x", .str "c")]

/-- Two entries with one key, and one with another between them. -/
def repeatedKeys : List (Option String × Literal) :=
  [(some "a", .int 1), (some "b", .null), (some "a", .int 2)]

theorem ofEntries_keeps_last_mixed :
    (repeatedKeys ≠ [] ∧ (∀ entry ∈ repeatedKeys, entry.1 ≠ none) ∧
      ∃ fields, ofEntries repeatedKeys = .table fields ∧ KeptByKey repeatedKeys fields) ∧
    (∃ entry ∈ mixedEntries, entry.1 = none) ∧
      ∃ slots, ofEntries mixedEntries = .list slots ∧ KeptBySlot mixedEntries slots := by
  have hne : repeatedKeys ≠ [] := by simp [repeatedKeys]
  have hkeys : ∀ entry ∈ repeatedKeys, entry.1 ≠ none := by simp [repeatedKeys]
  have hpositional : ∃ entry ∈ mixedEntries, entry.1 = none := by simp [mixedEntries]
  exact ⟨⟨hne, hkeys, (ofEntries_keeps_last repeatedKeys).1 hne hkeys⟩, hpositional,
    (ofEntries_keeps_last mixedEntries).2 hpositional⟩

example : ofEntries mixedEntries = .list [.str "z", .str "b", .str "c"] := rfl

end CodeOutline.Literal
