import CodeOutline.Traced
import Mathlib.Data.List.Forall2

/-!
# Results of traced computations

A computation made of parts ends in a value exactly if its parts do. For a list
that is taken item by item, the values stand in the order of the items. `Yields` says
that a computation ends in a value and what is known of it, `Leaves` what is known of the
notes, however it ends.
-/

namespace CodeOutline

variable {α β γ : Type}

/-- A computation that goes on with the value of another gives a value exactly if both do. -/
theorem Fault.bind_eq_ok {x : Except Fault α} {f : α → Except Fault β} {b : β} :
    (x >>= f) = .ok b ↔ ∃ a, x = .ok a ∧ f a = .ok b := by
  cases x with
  | ok a =>
    constructor
    · intro h
      exact ⟨a, rfl, h⟩
    · rintro ⟨a', ha, h⟩
      cases ha
      exact h
  | error fault =>
    constructor
    · intro h
      cases h
    · rintro ⟨a, ha, -⟩
      cases ha

theorem Fault.map_eq_ok {x : Except Fault α} {f : α → β} {b : β} :
    x.map f = .ok b ↔ ∃ a, x = .ok a ∧ f a = b := by
  cases x <;> simp [Except.map]

/-! ## Values with a property -/

/-- A computation that ends in a value, one with a property. -/
def Yields (x : Except Fault α) (P : α → Prop) : Prop :=
  ∃ a, x = .ok a ∧ P a

namespace Yields

variable {x : Except Fault α} {P : α → Prop} {Q : β → Prop} {a : α}

theorem ok (h : P a) : Yields (.ok a) P := ⟨a, rfl, h⟩

theorem imp {P' : α → Prop} (h : Yields x P) (hP : ∀ a, P a → P' a) : Yields x P' := by
  obtain ⟨a, hx, ha⟩ := h
  exact ⟨a, hx, hP a ha⟩

theorem bind {f : α → Except Fault β} (h : Yields x P) (hf : ∀ a, P a → Yields (f a) Q) :
    Yields (x >>= f) Q := by
  obtain ⟨a, rfl, ha⟩ := h
  exact hf a ha

theorem map {f : α → β} (h : Yields x P) (hf : ∀ a, P a → Q (f a)) : Yields (x.map f) Q := by
  obtain ⟨a, rfl, ha⟩ := h
  exact ⟨f a, rfl, hf a ha⟩

theorem of_eq_ok (h : Yields x P) (hx : x = .ok a) : P a := by
  obtain ⟨a', ha', hP⟩ := h
  rw [hx] at ha'
  cases ha'
  exact hP

theorem bind_iff {f : α → Except Fault β} :
    Yields (x >>= f) Q ↔ Yields x fun a => Yields (f a) Q := by
  constructor
  · intro h
    obtain ⟨b, hb, hQ⟩ := h
    obtain ⟨a, ha, hf⟩ := Fault.bind_eq_ok.mp hb
    exact ⟨a, ha, b, hf, hQ⟩
  · intro h
    exact h.bind fun a ha => ha

theorem map_iff {f : α → β} : Yields (x.map f) Q ↔ Yields x fun a => Q (f a) := by
  cases x <;> simp [Yields, Except.map]

theorem pure_iff : Yields (pure a) P ↔ P a := by
  constructor
  · intro h
    exact h.of_eq_ok rfl
  · intro h
    exact .ok h

theorem and_iff {p : Prop} : Yields x (fun _ => p) ↔ Yields x (fun _ => True) ∧ p := by
  constructor
  · intro h
    obtain ⟨a, ha, hp⟩ := h
    exact ⟨⟨a, ha, trivial⟩, hp⟩
  · intro h
    exact h.1.imp fun _ _ => h.2

end Yields

theorem Fault.exists_error_iff {x : Except Fault α} :
    (∃ fault, x = .error fault) ↔ ¬ Yields x fun _ => True := by
  cases x <;> simp [Yields]

namespace Traced

instance : LawfulMonad Traced := LawfulMonad.mk' _
  (by
    intro α x
    show (x >>= fun a => pure (id a)) = x
    cases hx : x.result with
    | ok a => simp [bind_ok hx, ← hx]
    | error fault => simp [bind_error hx, ← hx])
  (by
    intro α β a f
    rfl)
  (by
    intro α β γ x f g
    cases hx : x.result with
    | ok a =>
      cases hf : (f a).result with
      | ok b => simp [bind_ok, hx, hf]
      | error fault => simp [bind_ok, bind_error, hx, hf]
    | error fault => simp [bind_error, hx])

theorem result_bind_eq_ok {x : Traced α} {f : α → Traced β} {b : β} :
    (x >>= f).result = .ok b ↔ ∃ a, x.result = .ok a ∧ (f a).result = .ok b := by
  cases hx : x.result with
  | ok a => simp [bind_ok hx]
  | error fault => simp [bind_error hx]

theorem result_bind_pure (x : Traced α) (f : α → β) :
    (x >>= fun a => pure (f a)).result = x.result.map f := by
  cases hx : x.result with
  | ok a => rw [bind_ok hx]; rfl
  | error fault => rw [bind_error hx]; rfl

/-- Going through a list gives values exactly if each item gives one, and these are the values,
in the order of the items. -/
theorem result_each_eq_ok {f : α → Traced β} {xs : List α} {ys : List β} :
    (each f xs).result = .ok ys ↔ List.Forall₂ (fun x y => (f x).result = .ok y) xs ys := by
  induction xs generalizing ys with
  | nil =>
    rw [each, result_pure]
    constructor
    · intro h
      cases h
      exact .nil
    · intro h
      cases h
      rfl
  | cons x xs ih =>
    rw [each, result_bind_eq_ok]
    constructor
    · rintro ⟨y, hy, hrest⟩
      obtain ⟨zs, hzs, hpure⟩ := result_bind_eq_ok.mp hrest
      cases hpure
      exact .cons hy (ih.mp hzs)
    · intro h
      cases h with
      | cons hy hzs =>
        exact ⟨_, hy, result_bind_eq_ok.mpr ⟨_, ih.mpr hzs, rfl⟩⟩

theorem exists_of_mem_each {f : α → Traced β} {xs : List α} {ys : List β}
    (h : (each f xs).result = .ok ys) {y : β} (hy : y ∈ ys) : ∃ x ∈ xs, (f x).result = .ok y := by
  have hall := result_each_eq_ok.mp h
  clear h
  induction hall with
  | nil => simp at hy
  | cons hx _ ih =>
    rcases List.mem_cons.mp hy with rfl | hy
    · exact ⟨_, by simp, hx⟩
    · obtain ⟨x, hmem, hx⟩ := ih hy
      exact ⟨x, List.mem_cons_of_mem _ hmem, hx⟩

theorem yields_bind {x : Traced α} {f : α → Traced β} {P : α → Prop} {Q : β → Prop}
    (h : Yields x.result P) (hf : ∀ a, P a → Yields (f a).result Q) :
    Yields (x >>= f).result Q := by
  obtain ⟨a, hx, ha⟩ := h
  rw [bind_ok hx]
  exact hf a ha

theorem exists_result_each {f : α → Traced β} {xs : List α}
    (h : ∀ x ∈ xs, ∃ y, (f x).result = .ok y) : ∃ ys, (each f xs).result = .ok ys := by
  induction xs with
  | nil => exact ⟨[], rfl⟩
  | cons x xs ih =>
    obtain ⟨y, hy⟩ := h x (by simp)
    obtain ⟨ys, hys⟩ := ih fun z hz => h z (by simp [hz])
    exact ⟨y :: ys, result_each_eq_ok.mpr (.cons hy (result_each_eq_ok.mp hys))⟩

theorem yields_each {f : α → Traced β} {xs : List α}
    (h : ∀ x ∈ xs, Yields (f x).result fun _ => True) :
    Yields (each f xs).result fun _ => True := by
  have hexists : ∀ x ∈ xs, ∃ y, (f x).result = .ok y := by
    intro x hx
    obtain ⟨y, hy, -⟩ := h x hx
    exact ⟨y, hy⟩
  obtain ⟨ys, hys⟩ := exists_result_each hexists
  exact ⟨ys, hys, trivial⟩

/-- Taking other items to the same computations changes nothing. -/
theorem each_map {f : α → Traced γ} {g : β → Traced γ} {h : α → β} {xs : List α}
    (hfg : ∀ x ∈ xs, g (h x) = f x) : each g (xs.map h) = each f xs := by
  induction xs with
  | nil => rfl
  | cons x xs ih =>
    have hx : g (h x) = f x := hfg x (by simp)
    have hxs : each g (xs.map h) = each f xs := ih fun y hy => hfg y (by simp [hy])
    simp only [List.map_cons, each, hx, hxs]

/-! ## Notes with a property -/

/-- All the notes that a computation leaves have a property. -/
def Leaves (x : Traced α) (P : Note → Prop) : Prop :=
  ∀ note ∈ x.notes, P note

namespace Leaves

variable {x : Traced α} {P : Note → Prop}

theorem pure {a : α} : (Pure.pure a : Traced α).Leaves P := by
  intro note hnote
  simp at hnote

theorem lift {result : Except Fault α} : (Traced.lift result).Leaves P := by
  intro note hnote
  simp [Traced.lift] at hnote

theorem noting {notes : List Note} {a : α} (h : ∀ note ∈ notes, P note) :
    (Traced.noting notes a).Leaves P :=
  h

theorem bind {f : α → Traced β} (h : x.Leaves P) (hf : ∀ a, (f a).Leaves P) :
    (x >>= f).Leaves P := by
  intro note hnote
  cases hx : x.result with
  | ok a =>
    rw [bind_ok hx] at hnote
    rcases List.mem_append.mp hnote with hfirst | hlater
    · exact h note hfirst
    · exact hf a note hlater
  | error fault =>
    rw [bind_error hx] at hnote
    exact h note hnote

theorem each {f : α → Traced β} {xs : List α} (h : ∀ a ∈ xs, (f a).Leaves P) :
    (Traced.each f xs).Leaves P := by
  induction xs with
  | nil => exact .pure
  | cons a xs ih =>
    have hrest : (Traced.each f xs).Leaves P := ih fun b hb => h b (by simp [hb])
    exact (h a (by simp)).bind fun _ => hrest.bind fun _ => .pure

end Leaves

end Traced

end CodeOutline
