import CodeOutline.Proofs.Outline.Conservation

/-!
# Pushes by name

An outline is filled by pushes that name a section each. A push may fail, and then it
changes nothing; the others are filed under their sections in the order in which they
came, so that a listing of the outline is the stable sort of them by section. Only what
the unlisted place takes is shown by no section.
-/

namespace CodeOutline

/-! ## Stable sorts -/

section Ranked

variable {α : Type} {rank : α → Nat}

theorem rank_trans (a b c : α) (hab : decide (rank a ≤ rank b) = true)
    (hbc : decide (rank b ≤ rank c) = true) : decide (rank a ≤ rank c) = true := by
  rw [decide_eq_true_eq] at *
  omega

theorem rank_total (a b : α) :
    (decide (rank a ≤ rank b) || decide (rank b ≤ rank a)) = true := by
  rw [Bool.or_eq_true, decide_eq_true_eq, decide_eq_true_eq]
  omega

/-- The stable sort by rank. -/
def sortedBy (rank : α → Nat) (xs : List α) : List α :=
  xs.mergeSort fun a b => rank a ≤ rank b

theorem filter_sortedBy (xs : List α) (i : Nat) :
    (sortedBy rank xs).filter (rank · = i) = xs.filter (rank · = i) := by
  have hsame : (xs.filter (rank · = i)).Pairwise
      fun a b => decide (rank a ≤ rank b) = true := by
    refine List.pairwise_of_forall_mem_list fun a ha b hb => ?_
    have hra := of_decide_eq_true (List.mem_filter.mp ha).2
    have hrb := of_decide_eq_true (List.mem_filter.mp hb).2
    rw [decide_eq_true_eq]
    omega
  have hsub : (xs.filter (rank · = i)).Sublist (sortedBy rank xs) :=
    List.sublist_mergeSort rank_trans rank_total hsame List.filter_sublist
  have hkept := hsub.filter (rank · = i)
  rw [List.filter_filter] at hkept
  simp only [Bool.and_self] at hkept
  refine (hkept.eq_of_length ?_).symm
  exact ((List.mergeSort_perm xs _).filter _).length_eq.symm

theorem eq_filter_append_filter {p : α → Bool} {xs : List α}
    (h : xs.Pairwise fun a b => p b = true → p a = true) :
    xs = xs.filter p ++ xs.filter (!p ·) := by
  induction h with
  | nil => rfl
  | @cons a xs ha _ ih =>
    by_cases hp : p a = true
    · rw [List.filter_cons_of_pos hp, List.filter_cons_of_neg (by simp [hp]), List.cons_append,
        ← ih]
    · -- what comes later is out as well
      have hnone : xs.filter p = [] := by
        rw [List.filter_eq_nil_iff]
        intro b hb hpb
        exact hp (ha b hb hpb)
      rw [hnone, List.nil_append] at ih
      rw [List.filter_cons_of_neg hp, hnone, List.filter_cons_of_pos (by simp [hp]),
        List.nil_append, ← ih]

/-- A list in the order of ranks is, rank after rank, what it has of each. -/
theorem eq_flatMap_filter {xs : List α} (hsorted : xs.Pairwise fun a b => rank a ≤ rank b) {k : Nat}
    (hk : ∀ x ∈ xs, rank x < k) :
    xs = (List.range k).flatMap fun i => xs.filter (rank · = i) := by
  induction k generalizing xs with
  | zero =>
    rw [List.eq_nil_iff_forall_not_mem.mpr fun x hx => Nat.not_lt_zero _ (hk x hx)]
    rfl
  | succ k ih =>
    have hlow : xs.filter (rank · < k) =
        (List.range k).flatMap fun i => xs.filter (rank · = i) := by
      rw [ih (hsorted.filter _) fun x hx => of_decide_eq_true (List.mem_filter.mp hx).2]
      apply List.flatMap_congr
      intro i hi
      have hlt := List.mem_range.mp hi
      rw [List.filter_filter]
      apply List.filter_congr
      intro x _
      by_cases hx : rank x = i
      · simp [hx, hlt]
      · simp [hx]
    have hhigh : xs.filter (fun x => !decide (rank x < k)) = xs.filter (rank · = k) := by
      apply List.filter_congr
      intro x hx
      have := hk x hx
      rw [← decide_not, decide_eq_decide]
      omega
    rw [List.range_succ, List.flatMap_append, List.flatMap_singleton, ← hlow, ← hhigh]
    apply eq_filter_append_filter
    refine hsorted.imp ?_
    intro a b hab hb
    rw [decide_eq_true_eq] at *
    omega

/-- The stable sort lists, rank after rank, the items of each rank in their order. -/
theorem sortedBy_eq_flatMap {xs : List α} {k : Nat} (hk : ∀ x ∈ xs, rank x < k) :
    sortedBy rank xs = (List.range k).flatMap fun i => xs.filter (rank · = i) := by
  have hsorted : (sortedBy rank xs).Pairwise fun a b => rank a ≤ rank b :=
    (List.pairwise_mergeSort rank_trans rank_total xs).imp of_decide_eq_true
  have hmem : ∀ x ∈ sortedBy rank xs, rank x < k := by
    intro x hx
    exact hk x (List.mem_mergeSort.mp hx)
  rw [eq_flatMap_filter hsorted hmem]
  simp only [filter_sortedBy]

end Ranked

/-! ## Names -/

namespace Section

/-- The names of the sections, in the order in which they are listed. -/
def names : List String := ["classes", "interfaces", "functions", "variables", "imports"]

/-- The place of a name in that order. -/
def rank (text : String) : Nat := names.idxOf text

@[simp]
theorem name_mem_names (s : Section) : s.name ∈ names := by
  cases s <;> decide

theorem mem_names {text : String} : text ∈ names ↔ ∃ s : Section, s.name = text := by
  constructor
  · intro h
    have hall : names = all.map name := rfl
    rw [hall] at h
    obtain ⟨s, -, hs⟩ := List.mem_map.mp h
    exact ⟨s, hs⟩
  · rintro ⟨s, rfl⟩
    exact s.name_mem_names

theorem name_ne_of_not_mem {text : String} (h : text ∉ names) (s : Section) : text ≠ s.name := by
  rintro rfl
  exact h s.name_mem_names

theorem ofName?_name (s : Section) : ofName? s.name = some s := by
  cases s <;> rfl

theorem ofName?_eq_none {text : String} (h : text ∉ names) : ofName? text = none := by
  rw [ofName?, List.find?_eq_none]
  intro s _ hs
  rw [decide_eq_true_eq] at hs
  exact name_ne_of_not_mem h s hs.symm

theorem rank_eq_iff {text : String} (h : text ∈ names) (s : Section) :
    rank text = rank s.name ↔ text = s.name :=
  List.idxOf_inj h

theorem rank_lt {text : String} (h : text ∈ names) : rank text < 5 :=
  List.idxOf_lt_length_of_mem h

end Section

/-- A push: the name of what is to take a token, and the token. -/
structure Push where
  name : String
  token : Token
deriving DecidableEq

/-- Where a push is filed, if it names a section. -/
def Push.filed? (p : Push) : Option (Section × Token) :=
  (Section.ofName? p.name).map fun s => (s, p.token)

namespace Outline

/-! ## What a push does -/

/-- The outline after a push. A push that fails leaves it as it was. -/
def attempt (o : Outline) (p : Push) : Outline :=
  match o.pushNamed p.name p.token with
  | .ok next => next
  | .error _ => o

/-- What a push by name does: it files the token under a section, or the unlisted place takes
it, or it fails. -/
inductive Pushes (o : Outline) (p : Push) : Except Fault Outline → Prop
  | filed (s : Section) (hname : p.name = s.name) : Pushes o p (.ok (o.push s p.token))
  | unlisted (hname : p.name = Place.unlistedName) : Pushes o p (.ok o)
  | failed (fault : Fault) (hname : p.name ∉ Section.names)
      (hlisted : p.name ≠ Place.unlistedName) : Pushes o p (.error fault)

/-- A push by name does one of three things, told by the name alone. -/
theorem pushes_pushNamed (o : Outline) (p : Push) :
    o.Pushes p (o.pushNamed p.name p.token) := by
  obtain ⟨name, t⟩ := p
  by_cases hname : name ∈ Section.names
  · obtain ⟨s, rfl⟩ := Section.mem_names.mp hname
    have hpush : o.pushNamed s.name t = .ok (o.push s t) := by
      rw [pushNamed, Place.ofName?, Section.ofName?_name]
    rw [hpush]
    exact .filed s rfl
  · have hnone := Section.ofName?_eq_none hname
    by_cases hlisted : name = Place.unlistedName
    · subst hlisted
      exact .unlisted rfl
    · -- all other places, and no place at all, take nothing
      rw [pushNamed, Place.ofName?, hnone]
      simp only [if_neg hlisted]
      by_cases hsealed : name = Place.sealedName
      · rw [if_pos hsealed]
        exact .failed _ hname hlisted
      · rw [if_neg hsealed]
        cases Place.others.find? (·.2.contains name) with
        | none => exact .failed _ hname hlisted
        | some row => exact .failed _ hname hlisted

/-- A push fails exactly if it names neither a section nor the unlisted place. -/
theorem pushNamed_error_iff (o : Outline) (p : Push) :
    (∃ fault, o.pushNamed p.name p.token = .error fault) ↔
      p.name ∉ Section.names ∧ p.name ≠ Place.unlistedName := by
  have hcases := o.pushes_pushNamed p
  generalize o.pushNamed p.name p.token = result at hcases
  cases hcases with
  | filed s hname => simp [hname]
  | unlisted hname => simp [hname]
  | failed fault hname hlisted => simp [hname, hlisted]

theorem filed?_of_not_mem {p : Push} (h : p.name ∉ Section.names) : p.filed? = none := by
  rw [Push.filed?, Section.ofName?_eq_none h]
  rfl

theorem attempt_eq (o : Outline) (p : Push) : o.attempt p = o.pushAll p.filed?.toList := by
  have hcases := o.pushes_pushNamed p
  unfold attempt
  generalize o.pushNamed p.name p.token = result at hcases
  cases hcases with
  | filed s hname =>
    rw [Push.filed?, hname, Section.ofName?_name]
    rfl
  | unlisted hname =>
    rw [filed?_of_not_mem (by rw [hname]; decide)]
    rfl
  | failed fault hname hlisted =>
    rw [filed?_of_not_mem hname]
    rfl

/-! ## Pushes one after another -/

/-- The outline after pushes one after another. -/
def attempts (o : Outline) (pushes : List Push) : Outline :=
  pushes.foldl attempt o

/-- The pushes that succeed, of pushes one after another. -/
def landed (o : Outline) : List Push → List Push
  | [] => []
  | p :: rest =>
      match o.pushNamed p.name p.token with
      | .ok next => p :: next.landed rest
      | .error _ => o.landed rest

/-- The pushes by which an outline can be filled, as it lists its tokens. -/
def listing (o : Outline) : List Push :=
  o.flatten.map fun e => ⟨e.1.name, e.2⟩

theorem attempts_concat (o : Outline) (pushes : List Push) (p : Push) :
    o.attempts (pushes ++ [p]) = (o.attempts pushes).attempt p :=
  List.foldl_concat ..

/-- Pushes one after another fill an outline with what is filed of them, by induction on the
pushes. -/
theorem attempts_eq (o : Outline) (pushes : List Push) :
    o.attempts pushes = o.pushAll (pushes.filterMap Push.filed?) := by
  induction pushes generalizing o with
  | nil => rfl
  | cons p rest ih =>
    show (o.attempt p).attempts rest = _
    rw [ih, attempt_eq]
    cases h : p.filed? with
    | none => rw [List.filterMap_cons_none h]; rfl
    | some e => rw [List.filterMap_cons_some h]; rfl

/-- A push lands if it names a section or the unlisted place, whatever the outline. -/
theorem landed_eq (o : Outline) (pushes : List Push) :
    o.landed pushes =
      pushes.filter fun p => p.name ∈ Section.names ∨ p.name = Place.unlistedName := by
  induction pushes generalizing o with
  | nil => rfl
  | cons p rest ih =>
    have hcases := o.pushes_pushNamed p
    unfold landed
    generalize o.pushNamed p.name p.token = result at hcases
    cases hcases with
    | filed s hname =>
      rw [List.filter_cons_of_pos (by simp [hname])]
      exact congrArg (p :: ·) (ih _)
    | unlisted hname =>
      rw [List.filter_cons_of_pos (by simp [hname])]
      exact congrArg (p :: ·) (ih _)
    | failed fault hname hlisted =>
      rw [List.filter_cons_of_neg (by simp [hname, hlisted])]
      exact ih _

/-! ## Sections after pushes -/

/-- The pushes of a section among those that land are those that name it. -/
theorem filter_name_landed (o : Outline) (pushes : List Push) (sec : Section) :
    (o.landed pushes).filter (·.name = sec.name) = pushes.filter (·.name = sec.name) := by
  rw [landed_eq, List.filter_filter]
  apply List.filter_congr
  intro p _
  by_cases h : p.name = sec.name
  · simp [h]
  · simp [h]

theorem tokenFor?_filed? (sec : Section) (p : Push) :
    tokenFor? sec p.filed? = if p.name = sec.name then some p.token else none := by
  by_cases hmem : p.name ∈ Section.names
  · obtain ⟨s, hs⟩ := Section.mem_names.mp hmem
    rw [Push.filed?, ← hs, Section.ofName?_name]
    by_cases h : s = sec
    · simp [tokenFor?, h, Option.filter_some]
    · have hname : s.name ≠ sec.name := by
        intro heq
        have hsame := congrArg Section.ofName? heq
        rw [Section.ofName?_name, Section.ofName?_name] at hsame
        exact h (Option.some.inj hsame)
      simp [tokenFor?, h, hname]
  · rw [filed?_of_not_mem hmem, if_neg (Section.name_ne_of_not_mem hmem sec)]
    rfl

/-- A section gets the tokens that are pushed to it, in the order of the pushes. -/
theorem tokensIn_attempts (o : Outline) (pushes : List Push) (sec : Section) :
    (o.attempts pushes).tokensIn sec =
      o.tokensIn sec ++ (pushes.filter (·.name = sec.name)).map Push.token := by
  have hitems : pushes.filterMap Push.filed? = (pushes.map Push.filed?).filterMap id := by
    rw [List.filterMap_map]
    rfl
  have htokens : (pushes.map Push.filed?).filterMap (tokenFor? sec) =
      (pushes.filter (·.name = sec.name)).map Push.token := by
    rw [List.filterMap_map, ← List.filterMap_eq_map, List.filterMap_filter]
    congr 1
    funext p
    simp [tokenFor?_filed?]
  rw [attempts_eq, hitems, tokensIn_pushAll, htokens]

theorem NoneEmpty.members_eq_none_iff {o : Outline} (h : o.NoneEmpty) {sec : Section} :
    o.members sec = none ↔ o.tokensIn sec = [] := by
  unfold tokensIn
  cases hmembers : o.members sec with
  | none => simp
  | some tokens =>
    have hne : tokens ≠ [] := fun hnil => h sec (by rw [hmembers, hnil])
    simp [hne]

/-! ## The listing -/

theorem listing_eq (o : Outline) :
    o.listing =
      Section.all.flatMap fun sec => (o.tokensIn sec).map fun t => ⟨sec.name, t⟩ := by
  simp only [listing, flatten, List.map_flatMap, List.map_map, tokensIn]
  rfl

/-- The listing of what was pushed to an outline without tokens is the stable sort of the
pushes that name a section. -/
theorem listing_attempts {o : Outline} (hempty : ∀ sec, o.tokensIn sec = []) (pushes : List Push) :
    (o.attempts pushes).listing =
      sortedBy (Section.rank ·.name) (pushes.filter (·.name ∈ Section.names)) := by
  have hranks : List.range 5 = Section.all.map fun sec => Section.rank sec.name := by decide
  have hlt : ∀ p ∈ pushes.filter (·.name ∈ Section.names), Section.rank p.name < 5 := by
    intro p hp
    exact Section.rank_lt (of_decide_eq_true (List.mem_filter.mp hp).2)
  rw [listing_eq, sortedBy_eq_flatMap hlt, hranks, List.flatMap_map]
  apply List.flatMap_congr
  intro sec _
  -- the pushes with the rank of a section are those that name it
  have hsection : (pushes.filter (·.name ∈ Section.names)).filter
      (fun p => Section.rank p.name = Section.rank sec.name) =
      pushes.filter (·.name = sec.name) := by
    rw [List.filter_filter]
    apply List.filter_congr
    intro p _
    by_cases hmem : p.name ∈ Section.names
    · simp [hmem, Section.rank_eq_iff hmem]
    · simp [hmem, Section.name_ne_of_not_mem hmem sec]
  rw [hsection, tokensIn_attempts, hempty, List.nil_append, List.map_map]
  conv_rhs => rw [← List.map_id (pushes.filter (·.name = sec.name))]
  apply List.map_congr_left
  intro p hp
  have hname := of_decide_eq_true (List.mem_filter.mp hp).2
  simp [← hname]

/-! ## Fresh outlines -/

/-- An outline without sections. -/
def fresh (strict : Bool) : Outline := { strict := strict }

theorem tokensIn_fresh (strict : Bool) (sec : Section) : (fresh strict).tokensIn sec = [] := by
  cases sec <;> rfl

theorem noneEmpty_attempts (strict : Bool) (pushes : List Push) :
    ((fresh strict).attempts pushes).NoneEmpty := by
  rw [attempts_eq]
  refine NoneEmpty.pushAll ?_ _
  intro sec
  cases sec <;> simp [fresh, members]

/-- How an outline that was fresh files pushes, one after another. -/
structure FilesPushes (strict : Bool) (pushes : List Push) : Prop where
  /-- A push fails exactly if it names neither a section nor the unlisted place. -/
  fails_iff : ∀ p : Push,
    (∃ fault, ((fresh strict).attempts pushes).pushNamed p.name p.token = .error fault) ↔
      p.name ∉ Section.names ∧ p.name ≠ Place.unlistedName
  /-- One that fails, or that the unlisted place takes, changes nothing. -/
  unchanged : ∀ p : Push,
    (∃ fault, ((fresh strict).attempts pushes).pushNamed p.name p.token = .error fault) ∨
      p.name = Place.unlistedName →
    (fresh strict).attempts (pushes ++ [p]) = (fresh strict).attempts pushes
  /-- No section is there without a token. -/
  noneEmpty : ((fresh strict).attempts pushes).NoneEmpty
  /-- A section is absent exactly if no push that landed names it. -/
  none_iff : ∀ sec : Section, ((fresh strict).attempts pushes).members sec = none ↔
    ∀ p ∈ (fresh strict).landed pushes, p.name ≠ sec.name
  /-- Otherwise it has the tokens of those that name it, in their order. -/
  members_eq : ∀ (sec : Section) (tokens : List Token),
    ((fresh strict).attempts pushes).members sec = some tokens →
      tokens = (((fresh strict).landed pushes).filter (·.name = sec.name)).map Push.token
  /-- Pushes do not change whether the text is strict. -/
  strict_eq : ((fresh strict).attempts pushes).strict = strict
  /-- The listing is the stable sort, by section, of the pushes that landed in one. -/
  listing_eq : ((fresh strict).attempts pushes).listing =
    sortedBy (Section.rank ·.name)
      (((fresh strict).landed pushes).filter (·.name ∈ Section.names))

/-- **Pushes are filed by their sections.** Whatever is pushed to a fresh outline, under
whatever names, its sections and its listing have the pushes that named a section, and
nothing else. -/
theorem filesPushes (strict : Bool) (pushes : List Push) : FilesPushes strict pushes where
  fails_iff := pushNamed_error_iff _
  unchanged p hp := by
    have hname : p.name ∉ Section.names := by
      rcases hp with hfails | hunlisted
      · exact ((pushNamed_error_iff _ p).mp hfails).1
      · rw [hunlisted]
        decide
    rw [attempts_concat, attempt_eq, filed?_of_not_mem hname]
    rfl
  noneEmpty := noneEmpty_attempts strict pushes
  none_iff sec := by
    rw [(noneEmpty_attempts strict pushes).members_eq_none_iff, tokensIn_attempts, tokensIn_fresh,
      List.nil_append, List.map_eq_nil_iff, ← filter_name_landed (fresh strict),
      List.filter_eq_nil_iff]
    simp
  members_eq sec tokens h := by
    have htokens : ((fresh strict).attempts pushes).tokensIn sec = tokens := by
      rw [tokensIn, h, Option.getD_some]
    rw [← htokens, tokensIn_attempts, tokensIn_fresh, List.nil_append, filter_name_landed]
  strict_eq := by
    rw [attempts_eq, strict_pushAll]
    rfl
  listing_eq := by
    have hlanded : ((fresh strict).landed pushes).filter (·.name ∈ Section.names) =
        pushes.filter (·.name ∈ Section.names) := by
      rw [landed_eq, List.filter_filter]
      apply List.filter_congr
      intro p _
      by_cases h : p.name ∈ Section.names <;> simp [h]
    rw [hlanded, listing_attempts (tokensIn_fresh strict)]

/-- A push to the unlisted place. -/
def unlistedPush : Push := ⟨"__hash__", .ofVariable { name := "a" }⟩

/-- The unlisted place is no section, and yet a push to it does not fail. It lands, and the
listing does not have it. -/
theorem unlisted_push_lands :
    unlistedPush.name ∉ Section.names ∧
    (¬ ∃ fault, (fresh false).pushNamed unlistedPush.name unlistedPush.token = .error fault) ∧
    (fresh false).landed [unlistedPush] = [unlistedPush] ∧
    ((fresh false).attempts [unlistedPush]).listing ≠
      sortedBy (Section.rank ·.name) ((fresh false).landed [unlistedPush]) := by
  refine ⟨by decide, ?_, rfl, ?_⟩
  · rintro ⟨fault, hfault⟩
    cases hfault
  · intro hsame
    have hlength := congrArg List.length hsame
    rw [sortedBy, List.length_mergeSort] at hlength
    cases hlength

end Outline

end CodeOutline
