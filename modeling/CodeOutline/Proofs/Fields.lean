import CodeOutline.Json.Basic
import Mathlib.Data.List.Forall2
import Mathlib.Data.List.Induction

/-!
# Fields that are kept

The names that are kept are the names given, each where it first came. Fields that are given
under distinct names are all kept, in the order given. Under any names, what is kept was
given, and fields that agree one by one are kept so.
-/

namespace CodeOutline.Fields

variable {α : Type}

/-- A value under a new name goes to the end. -/
theorem put_of_not_mem {fields : List (String × α)} {name : String}
    (h : name ∉ fields.map Prod.fst) (value : α) :
    put fields name value = fields ++ [(name, value)] := by
  induction fields with
  | nil => rfl
  | cons field rest ih =>
    rw [List.map_cons, List.mem_cons, not_or] at h
    rw [put, if_neg (Ne.symm h.1), ih h.2]
    rfl

theorem foldl_put_of_nodup {done fields : List (String × α)}
    (h : ((done ++ fields).map Prod.fst).Nodup) :
    fields.foldl (fun done field => put done field.1 field.2) done = done ++ fields := by
  induction fields generalizing done with
  | nil => rw [List.foldl_nil, List.append_nil]
  | cons field rest ih =>
    have hnew : field.1 ∉ done.map Prod.fst := by
      rw [List.map_append, List.nodup_append] at h
      intro hmem
      exact h.2.2 field.1 hmem field.1 (by simp) rfl
    rw [List.foldl_cons, put_of_not_mem hnew, ih]
    · simp
    · simpa using h

theorem ofList_of_nodup {fields : List (String × α)} (h : (fields.map Prod.fst).Nodup) :
    ofList fields = fields := by
  rw [ofList, foldl_put_of_nodup h, List.nil_append]

theorem mem_of_mem_put {fields : List (String × α)} {name : String} {value : α}
    {field : String × α} (h : field ∈ put fields name value) :
    field ∈ fields ∨ field = (name, value) := by
  induction fields with
  | nil => simpa [put] using h
  | cons first rest ih =>
    rw [put] at h
    split at h
    · rcases List.mem_cons.mp h with h | h
      · exact .inr h
      · exact .inl (List.mem_cons_of_mem first h)
    · rcases List.mem_cons.mp h with rfl | h
      · exact .inl (by simp)
      · exact (ih h).imp_left (List.mem_cons_of_mem first)

theorem ofList_concat (fields : List (String × α)) (field : String × α) :
    ofList (fields ++ [field]) = put (ofList fields) field.1 field.2 := by
  simp [ofList]

theorem mem_of_mem_ofList {fields : List (String × α)} {field : String × α}
    (h : field ∈ ofList fields) : field ∈ fields := by
  induction fields using List.reverseRecOn with
  | nil => simp [ofList] at h
  | append_singleton fields last ih =>
    rw [ofList_concat] at h
    rcases mem_of_mem_put h with h | rfl
    · simp [ih h]
    · simp

/-! ## Names -/

theorem names_put (fields : List (String × α)) (name : String) (value : α) :
    (put fields name value).map Prod.fst =
      if name ∈ fields.map Prod.fst then fields.map Prod.fst
      else fields.map Prod.fst ++ [name] := by
  induction fields with
  | nil => simp [put]
  | cons first rest ih =>
    obtain ⟨n, v⟩ := first
    by_cases hn : n = name
    · simp [put, hn]
    · rw [put, if_neg hn, List.map_cons, ih]
      by_cases hmem : name ∈ rest.map Prod.fst
      · simp [hmem]
      · simp [hmem, Ne.symm hn]

/-- The names are those that were given, in the order in which they first came. -/
theorem names_ofList (fields : List (String × α)) :
    (ofList fields).map Prod.fst = (fields.map Prod.fst).eraseDups := by
  induction fields using List.reverseRecOn with
  | nil => simp [ofList]
  | append_singleton fields field ih =>
    rw [ofList_concat, names_put, ih, List.map_append, List.eraseDups_append]
    by_cases hmem : field.1 ∈ fields.map Prod.fst
    · simp [hmem, List.removeAll]
    · simp [hmem, List.removeAll, List.eraseDups_cons]

theorem nodup_names_put {fields : List (String × α)} (h : (fields.map Prod.fst).Nodup)
    (name : String) (value : α) : ((put fields name value).map Prod.fst).Nodup := by
  rw [names_put]
  by_cases hmem : name ∈ fields.map Prod.fst
  · rw [if_pos hmem]
    exact h
  · rw [if_neg hmem, List.nodup_append]
    refine ⟨h, by simp, ?_⟩
    intro a ha b hb hab
    rw [List.mem_singleton] at hb
    exact hmem (hb ▸ hab ▸ ha)

theorem nodup_names_ofList (fields : List (String × α)) :
    ((ofList fields).map Prod.fst).Nodup := by
  induction fields using List.reverseRecOn with
  | nil => simp [ofList]
  | append_singleton fields field ih =>
    rw [ofList_concat]
    exact nodup_names_put ih field.1 field.2

/-- Among distinct names, a value is put under its own name alone. -/
theorem mem_put_iff {fields : List (String × α)} (h : (fields.map Prod.fst).Nodup)
    {name n : String} {value v : α} :
    (n, v) ∈ put fields name value ↔ if name = n then value = v else (n, v) ∈ fields := by
  induction fields with
  | nil =>
    by_cases hn : name = n
    · simp [put, hn, eq_comm]
    · simp [put, hn, Ne.symm hn]
  | cons first rest ih =>
    obtain ⟨n', v'⟩ := first
    rw [List.map_cons, List.nodup_cons] at h
    by_cases hfirst : n' = name
    · subst hfirst
      by_cases hn : n' = n
      · subst hn
        have hrest : (n', v) ∉ rest := fun hmem => h.1 (List.mem_map.mpr ⟨(n', v), hmem, rfl⟩)
        simp [put, hrest, eq_comm]
      · simp [put, hn, Ne.symm hn]
    · rw [put, if_neg hfirst, List.mem_cons, ih h.2]
      by_cases hn : name = n
      · subst hn
        simp [Ne.symm hfirst]
      · simp [hn]

section Related

variable {β : Type} {R : α → β → Prop} {xs : List (String × α)} {ys : List (String × β)}

theorem forall₂_put {name : String} {x : α} {y : β}
    (h : List.Forall₂ (fun x y => x.1 = y.1 ∧ R x.2 y.2) xs ys) (hvalue : R x y) :
    List.Forall₂ (fun x y => x.1 = y.1 ∧ R x.2 y.2) (put xs name x) (put ys name y) := by
  induction h with
  | nil => exact .cons ⟨rfl, hvalue⟩ .nil
  | @cons first first' rest rest' hfirst hrest ih =>
    obtain ⟨hname, hfirst⟩ := hfirst
    rw [put, put, hname]
    split
    · exact .cons ⟨rfl, hvalue⟩ hrest
    · exact .cons ⟨rfl, hfirst⟩ ih

/-- Whatever fields take the place of earlier ones, fields of the same names and related
values are kept as such. -/
theorem forall₂_ofList (h : List.Forall₂ (fun x y => x.1 = y.1 ∧ R x.2 y.2) xs ys) :
    List.Forall₂ (fun x y => x.1 = y.1 ∧ R x.2 y.2) (ofList xs) (ofList ys) := by
  have hfold : ∀ done done',
      List.Forall₂ (fun x y => x.1 = y.1 ∧ R x.2 y.2) done done' →
        List.Forall₂ (fun x y => x.1 = y.1 ∧ R x.2 y.2)
          (xs.foldl (fun done field => put done field.1 field.2) done)
          (ys.foldl (fun done field => put done field.1 field.2) done') := by
    induction h with
    | nil => exact fun done done' hdone => hdone
    | cons hfirst _ ih =>
      intro done done' hdone
      rw [List.foldl_cons, List.foldl_cons, hfirst.1]
      exact ih _ _ (forall₂_put hdone hfirst.2)
  exact hfold [] [] .nil

end Related

end CodeOutline.Fields
