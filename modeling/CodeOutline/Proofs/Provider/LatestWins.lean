import CodeOutline.Proofs.Provider.Steps
import CodeOutline.Proofs.Traced
import Mathlib.Data.List.Induction
import Mathlib.Order.Bounds.Basic

/-!
# The latest request wins

A request that ends with an outline while it is the newest has its outline kept.
Over every run, the outline that is kept is that of the greatest such request, made
from the document, the configuration and the delivery of its own refresh.
-/

namespace CodeOutline

/-- The request as it was made. -/
def Request.made (r : Request) : Request := { r with outcome := none }

/-- A request has an outline if its parser delivers declarations and they can be
outlined over its document with its configuration. -/
theorem Request.outline_eq_ok {r : Request} {o : Outline} :
    r.outline.result = .ok o ↔
      ∃ unit, (r.delivery.sourceUnit r.document.text).result = .ok unit ∧
        (Outline.ofUnit r.document r.config unit).result = .ok o :=
  Traced.result_bind_eq_ok

namespace Provider

/-- The requests that steps make, each with the configuration of its own refresh or
else that which the environment asks for at that moment. -/
def issues : Option String → List Step → List Request
  | _, [] => []
  | env, .refresh document delivery own :: rest =>
      { document, config := Config.orEnv own env, delivery } :: issues env rest
  | _, .setEnv marker :: rest => issues marker rest
  | env, .release _ :: rest | env, .cancel _ :: rest | env, .wait :: rest
  | env, .cancelWait _ :: rest => issues env rest

/-- In the course of steps, the request of a number ended with an outline while it
was the newest. -/
def FinishedNewest (env : Option String) (steps : List Step) (number : Nat) (o : Outline) : Prop :=
  ∃ before s rest, steps = before ++ s :: rest ∧
    (reached env before).latest = number ∧
    (reached env before).outcome? number = none ∧
    (reached env (before ++ [s])).outcome? number = some (.outlined o)

/-! ## Requests stay as they were made -/

theorem made_settle (p : Provider) (n : Nat) (out : Outcome) :
    (p.settle n out).requests.map Request.made = p.requests.map Request.made := by
  apply List.ext_getElem?
  intro i
  simp only [settle, List.getElem?_map, List.getElem?_modify]
  by_cases h : n - 1 = i
  · cases p.requests[i]? <;> simp [h, Request.made]
  · simp [h]

theorem issues_of_aims {s : Step} (hs : aims s = true) (env : Option String) (rest : List Step) :
    issues env (s :: rest) = issues env rest := by
  cases s with
  | release _ => rfl
  | cancel _ => rfl
  | cancelWait _ => rfl
  | refresh _ _ _ => cases hs
  | wait => cases hs
  | setEnv _ => cases hs

theorem made_after (p : Provider) (steps : List Step) :
    (p.after steps).requests.map Request.made =
      p.requests.map Request.made ++ issues p.env steps := by
  induction steps generalizing p with
  | nil => simp [issues]
  | cons s rest ih =>
    rw [after_cons, ih]
    have heff := p.effect_step s
    generalize (p.step s).1 = q at heff ⊢
    cases heff with
    | issued d δ own => simp [issue, issues, Request.made]
    | waiting => simp [issues]
    | moved marker => simp [issues]
    | @ended _ n out h =>
      rw [issues_of_aims h.aims, show (p.close n out).env = p.env from rfl]
      exact congrArg (· ++ _) (made_settle p n out)
    | idle hs => rw [issues_of_aims hs]

/-- The requests of a run are those that its refreshes make, one for each and in their
order. -/
theorem made_reached (env : Option String) (steps : List Step) :
    (reached env steps).requests.map Request.made = issues env steps :=
  made_after ({ env := env } : Provider) steps

/-- The request of a number was made by the refresh of that number. -/
theorem made_request?_reached {env : Option String} {steps : List Step} {n : Nat} {r : Request}
    (h : (reached env steps).request? n = some r) :
    (issues env steps)[n - 1]? = some r.made := by
  unfold request? at h
  split at h
  · cases h
  · rw [← made_reached, List.getElem?_map, h]
    rfl

/-! ## Outlines that requests end with -/

/-- Every outline that a request ended with is the one it is for. -/
def Sound (p : Provider) : Prop :=
  ∀ n r o, p.request? n = some r → r.outcome = some (.outlined o) → r.outline.result = .ok o

theorem Ends.outlined {p : Provider} {s : Step} {n : Nat} {out : Outcome} {o : Outline}
    (h : p.Ends s n out) (hout : out = .outlined o) :
    s = .release n ∧ ∃ r, p.request? n = some r ∧ r.outline.result = .ok o := by
  cases h with
  | cancel _ => cases hout
  | cancelWait _ _ _ _ => cases hout
  | @release _ r flying =>
    exact ⟨rfl, r, (inFlight?_eq_some.mp flying).1, Request.ending_eq_outlined.mp hout⟩

theorem Sound.step {p : Provider} (hp : p.Sound) (s : Step) : (p.step s).1.Sound := by
  have heff := p.effect_step s
  generalize (p.step s).1 = q at heff ⊢
  cases heff with
  | waiting => exact hp
  | moved marker => exact hp
  | idle => exact hp
  | issued d δ own =>
    intro n r o hr hout
    rcases Nat.lt_or_ge p.latest n with hlt | hle
    · -- only the new request has a greater number, and it has not ended
      have hnone : (p.issue d δ own).outcome? n = some (.outlined o) := by simp [outcome?, hr, hout]
      rw [outcome?_issue] at hnone
      have := (outcome?_bounds hnone).2
      omega
    · rw [request?_issue hle] at hr
      exact hp n r o hr hout
  | @ended _ k out h =>
    intro n r o hr hout
    rw [request?_close h.bounds.1] at hr
    split at hr
    · obtain ⟨r₀, hr₀, rfl⟩ := Option.map_eq_some_iff.mp hr
      obtain ⟨-, r₁, hr₁, hok⟩ := h.outlined (Option.some.inj hout)
      rw [hr₀] at hr₁
      cases hr₁
      exact hok
    · exact hp n r o hr hout

/-- In every run, an outline that a request ended with is the one it is for: a step lets a
request end with no other outline, and changes none of those before. -/
theorem sound_reached (env : Option String) (steps : List Step) : (reached env steps).Sound := by
  induction steps using List.reverseRecOn with
  | nil =>
    intro n r o hr
    simp [reached, request?] at hr
  | append_singleton steps s ih =>
    rw [reached_concat]
    exact ih.step s

/-! ## The outline that is kept -/

/-- The outline that is kept changes only as the newest request ends with one. -/
theorem current_step (p : Provider) (s : Step) :
    (p.step s).1.current = p.current ∨
      ∃ o, p.Ends s p.latest (.outlined o) ∧ (p.step s).1.current = some o := by
  have heff := p.effect_step s
  generalize (p.step s).1 = q at heff ⊢
  cases heff with
  | issued d δ own => exact .inl rfl
  | waiting => exact .inl rfl
  | moved marker => exact .inl rfl
  | idle => exact .inl rfl
  | @ended _ k out h =>
    cases out with
    | failed fault => exact .inl rfl
    | cancelled => exact .inl rfl
    | outlined o =>
      by_cases hk : k = p.latest
      · subst hk
        exact .inr ⟨o, h, by simp [close, keptAfter]⟩
      · exact .inl (by simp [close, keptAfter, hk])

theorem Ends.current_step {p : Provider} {s : Step} {o : Outline}
    (h : p.Ends s p.latest (.outlined o)) : (p.step s).1.current = some o := by
  simp [h.step_eq, close, keptAfter]

/-! ## Requests that ended while they were the newest -/

theorem FinishedNewest.outcome?_reached {env : Option String} {steps : List Step} {k : Nat}
    {o : Outline} (h : FinishedNewest env steps k o) :
    (reached env steps).outcome? k = some (.outlined o) := by
  obtain ⟨before, s, rest, rfl, -, -, hout⟩ := h
  rw [show before ++ s :: rest = (before ++ [s]) ++ rest by simp, reached_append]
  exact outcome?_after hout rest

theorem FinishedNewest.unique {env : Option String} {steps : List Step} {k : Nat} {o o' : Outline}
    (h : FinishedNewest env steps k o) (h' : FinishedNewest env steps k o') : o = o' := by
  have hsame := h.outcome?_reached.symm.trans h'.outcome?_reached
  cases hsame
  rfl

theorem FinishedNewest.append {env : Option String} {steps : List Step} {k : Nat} {o : Outline}
    (h : FinishedNewest env steps k o) (more : List Step) :
    FinishedNewest env (steps ++ more) k o := by
  obtain ⟨before, s, rest, rfl, hfacts⟩ := h
  exact ⟨before, s, rest ++ more, by simp, hfacts⟩

/-- With one step more, only the newest request can be one more that ended. -/
theorem finishedNewest_concat {env : Option String} {steps : List Step} {s : Step} {k : Nat}
    {o : Outline} :
    FinishedNewest env (steps ++ [s]) k o ↔
      FinishedNewest env steps k o ∨
        (reached env steps).latest = k ∧ (reached env steps).Ends s k (.outlined o) := by
  constructor
  · rintro ⟨before, s', rest, hsplit, hlatest, hnone, hout⟩
    rcases List.eq_nil_or_concat rest with rfl | ⟨rest', last, rfl⟩
    · -- the last step is the one at which the request ended
      obtain ⟨rfl, hs⟩ := List.append_inj' hsplit rfl
      cases hs
      refine .inr ⟨hlatest, ?_⟩
      rw [reached_concat] at hout
      rcases (reached env steps).outcome?_step s k with hsame | ⟨out, hends, hstep⟩
      · rw [hsame, hnone] at hout
        cases hout
      · rw [hstep, hends.outcome?_close] at hout
        cases hout
        exact hends
    · have hsteps : steps = before ++ s' :: rest' := by
        have hsplit' : steps ++ [s] = (before ++ s' :: rest') ++ [last] := by simpa using hsplit
        exact (List.append_inj' hsplit' rfl).1
      exact .inl ⟨before, s', rest', hsteps, hlatest, hnone, hout⟩
  · rintro (h | ⟨hlatest, hends⟩)
    · exact h.append [s]
    · refine ⟨steps, s, [], rfl, hlatest, hends.outcome?_eq_none, ?_⟩
      rw [reached_concat, hends.step_eq, hends.outcome?_close]

/-- The newest request ends as such when it is released while it is in flight and has an
outline. -/
theorem finishedNewest_release {env : Option String} {steps : List Step} {r : Request}
    {o : Outline} (hfly : (reached env steps).inFlight? (reached env steps).latest = some r)
    (hok : r.outline.result = .ok o) :
    FinishedNewest env (steps ++ [.release (reached env steps).latest])
      (reached env steps).latest o :=
  finishedNewest_concat.mpr (.inr ⟨rfl, ends_release_of_ok hfly hok⟩)

/-- The outline that is kept is that of the greatest request that ended while it was
the newest; without such a request none is kept. -/
theorem current_reached (env : Option String) (steps : List Step) :
    ((reached env steps).current = none ∧ ∀ k o, ¬ FinishedNewest env steps k o) ∨
      ∃ k o, (reached env steps).current = some o ∧ FinishedNewest env steps k o ∧
        ∀ k' o', FinishedNewest env steps k' o' → k' ≤ k := by
  induction steps using List.reverseRecOn with
  | nil =>
    refine .inl ⟨rfl, ?_⟩
    rintro k o ⟨before, s, rest, hnil, -⟩
    simp at hnil
  | append_singleton steps s ih =>
    by_cases hnew : ∃ o, (reached env steps).Ends s (reached env steps).latest (.outlined o)
    · -- the newest request ends now, and no other has a greater number
      obtain ⟨o, hends⟩ := hnew
      refine .inr ⟨_, o, ?_, finishedNewest_concat.mpr (.inr ⟨rfl, hends⟩), ?_⟩
      · rw [reached_concat]
        exact hends.current_step
      · intro k' o' hfin
        rcases finishedNewest_concat.mp hfin with hold | ⟨hk, -⟩
        · exact (outcome?_bounds hold.outcome?_reached).2
        · exact Nat.le_of_eq hk.symm
    · have hsame : (reached env (steps ++ [s])).current = (reached env steps).current := by
        rw [reached_concat]
        rcases (reached env steps).current_step s with hsame | ⟨o, hends, -⟩
        · exact hsame
        · exact absurd ⟨o, hends⟩ hnew
      have hold : ∀ k o, FinishedNewest env (steps ++ [s]) k o ↔ FinishedNewest env steps k o := by
        intro k o
        rw [finishedNewest_concat]
        refine ⟨?_, .inl⟩
        rintro (h | ⟨rfl, hends⟩)
        · exact h
        · exact absurd ⟨o, hends⟩ hnew
      simpa only [hsame, hold] using ih

theorem current_eq_some_iff {env : Option String} {steps : List Step} {o : Outline} :
    (reached env steps).current = some o ↔
      ∃ k, FinishedNewest env steps k o ∧ ∀ k' o', FinishedNewest env steps k' o' → k' ≤ k := by
  rcases current_reached env steps with ⟨hnone, hno⟩ | ⟨k, o₁, hsome, hfin, hmax⟩
  · constructor
    · intro hcur
      simp [hnone] at hcur
    · rintro ⟨k, hfin, -⟩
      exact absurd hfin (hno k o)
  · constructor
    · intro hcur
      rw [hsome] at hcur
      cases hcur
      exact ⟨k, hfin, hmax⟩
    · rintro ⟨k', hfin', hmax'⟩
      obtain rfl : k = k' := Nat.le_antisymm (hmax' k o₁ hfin) (hmax k' o hfin')
      rw [hsome, hfin.unique hfin']

/-- A request that has ended did so at one of the steps. -/
theorem exists_step_of_outcome? {env : Option String} {steps : List Step} {k : Nat} {out : Outcome}
    (h : (reached env steps).outcome? k = some out) :
    ∃ before s rest, steps = before ++ s :: rest ∧ (reached env before).outcome? k = none ∧
      (reached env before).Ends s k out := by
  induction steps using List.reverseRecOn with
  | nil => simp [reached, outcome?, request?] at h
  | append_singleton steps s ih =>
    rw [reached_concat] at h
    rcases (reached env steps).outcome?_step s k with hsame | ⟨out', hends, hstep⟩
    · rw [hsame] at h
      obtain ⟨before, s', rest, rfl, hfacts⟩ := ih h
      exact ⟨before, s', rest ++ [s], by simp, hfacts⟩
    · rw [hstep, hends.outcome?_close] at h
      cases h
      exact ⟨steps, s, [], rfl, hends.outcome?_eq_none, hends⟩

/-- The newest request, once it has ended with an outline, ended as the newest. -/
theorem finishedNewest_of_latest {env : Option String} {steps : List Step} {o : Outline}
    (h : (reached env steps).outcome? (reached env steps).latest = some (.outlined o)) :
    FinishedNewest env steps (reached env steps).latest o := by
  obtain ⟨before, s, rest, hsteps, hnone, hends⟩ := exists_step_of_outcome? h
  have hlatest : (reached env before).latest = (reached env steps).latest := by
    refine Nat.le_antisymm ?_ hends.bounds.2
    rw [hsteps, reached_append]
    exact latest_le_after _ _
  refine ⟨before, s, rest, hsteps, hlatest, hnone, ?_⟩
  rw [reached_concat, hends.step_eq, hends.outcome?_close]

/-- An outline that the newest request ended with is kept. -/
theorem current_of_latest {env : Option String} {steps : List Step} {o : Outline}
    (h : (reached env steps).outcome? (reached env steps).latest = some (.outlined o)) :
    (reached env steps).current = some o := by
  refine current_eq_some_iff.mpr ⟨_, finishedNewest_of_latest h, ?_⟩
  intro k' o' hfin'
  exact (outcome?_bounds hfin'.outcome?_reached).2

/-- An outline that a request ended with is that of its own refresh: of the document
and the delivery given there, with the configuration read there. -/
theorem FinishedNewest.outlined {env : Option String} {steps : List Step} {k : Nat} {o : Outline}
    (h : FinishedNewest env steps k o) :
    ∃ r unit, (issues env steps)[k - 1]? = some r ∧
      (r.delivery.sourceUnit r.document.text).result = .ok unit ∧
      (Outline.ofUnit r.document r.config unit).result = .ok o := by
  obtain ⟨r, hr, hout⟩ := Option.bind_eq_some_iff.mp h.outcome?_reached
  obtain ⟨unit, hunit, hoff⟩ := Request.outline_eq_ok.mp (sound_reached env steps k r o hr hout)
  exact ⟨r.made, unit, made_request?_reached hr, hunit, hoff⟩

/-- **The latest request wins.** In every run, no outline is kept exactly as long as no
request has ended with an outline while it was the newest; else the outline is that of
the greatest such request, made of what its own refresh was given. The number of that
request never decreases, only the end of the newest request with an outline changes
what is kept, and an outline that the newest request ended with is kept. So the release of
the newest request, if that is in flight and has an outline, makes it such a request and its
outline the one that is kept. -/
theorem latest_finished_wins (env : Option String) (steps : List Step) :
    ((reached env steps).current = none ↔ ∀ k o, ¬ FinishedNewest env steps k o) ∧
    (∀ o, (reached env steps).current = some o ↔
      ∃ k r unit, IsGreatest {n | ∃ o', FinishedNewest env steps n o'} k ∧
        (issues env steps)[k - 1]? = some r ∧
        (r.delivery.sourceUnit r.document.text).result = .ok unit ∧
        (Outline.ofUnit r.document r.config unit).result = .ok o) ∧
    (∀ more k k', IsGreatest {n | ∃ o, FinishedNewest env steps n o} k →
      IsGreatest {n | ∃ o, FinishedNewest env (steps ++ more) n o} k' → k ≤ k') ∧
    (∀ s, (reached env (steps ++ [s])).current ≠ (reached env steps).current →
      s = .release (reached env steps).latest ∧
        ∃ o, FinishedNewest env (steps ++ [s]) (reached env steps).latest o ∧
          (reached env (steps ++ [s])).current = some o) ∧
    (∀ o, (reached env steps).outcome? (reached env steps).latest = some (.outlined o) →
      (reached env steps).current = some o) ∧
    (∀ r o, (reached env steps).inFlight? (reached env steps).latest = some r →
      r.outline.result = .ok o →
      FinishedNewest env (steps ++ [.release (reached env steps).latest])
        (reached env steps).latest o ∧
      (reached env (steps ++ [.release (reached env steps).latest])).current = some o) := by
  refine ⟨?_, ?_, ?_, ?_, fun o => current_of_latest, ?_⟩
  · rcases current_reached env steps with ⟨hnone, hno⟩ | ⟨k, o, hsome, hfin, -⟩
    · exact ⟨fun _ => hno, fun _ => hnone⟩
    · exact ⟨fun h => by simp [h] at hsome, fun h => absurd hfin (h k o)⟩
  · intro o
    rw [current_eq_some_iff]
    constructor
    · rintro ⟨k, hfin, hmax⟩
      obtain ⟨r, unit, hfacts⟩ := hfin.outlined
      exact ⟨k, r, unit, ⟨⟨o, hfin⟩, fun k' ⟨o', hfin'⟩ => hmax k' o' hfin'⟩, hfacts⟩
    · rintro ⟨k, r, unit, ⟨⟨o', hfin⟩, hmax⟩, hr, hunit, hoff⟩
      -- the refresh of that number gives one outline
      obtain ⟨r', unit', hr', hunit', hoff'⟩ := hfin.outlined
      rw [hr] at hr'
      cases hr'
      rw [hunit] at hunit'
      cases hunit'
      rw [hoff] at hoff'
      cases hoff'
      exact ⟨k, hfin, fun k' o' hfin' => hmax ⟨o', hfin'⟩⟩
  · rintro more k k' ⟨⟨o, hfin⟩, -⟩ ⟨-, hmax⟩
    exact hmax ⟨o, hfin.append more⟩
  · intro s hne
    rw [reached_concat] at hne ⊢
    rcases (reached env steps).current_step s with hsame | ⟨o, hends, hcur⟩
    · exact absurd hsame hne
    · exact ⟨(hends.outlined rfl).1, o, finishedNewest_concat.mpr (.inr ⟨rfl, hends⟩), hcur⟩
  · intro r o hfly hok
    rw [reached_concat]
    exact ⟨finishedNewest_release hfly hok, (ends_release_of_ok hfly hok).current_step⟩

/-- Two requests, the newer one for a strict document, of which the older one comes too late. -/
def strictSecond : List Step :=
  [.refresh { text := "" } (.ofUnit {}) none, .refresh { text := "'use strict'" } (.ofUnit {}) none,
    .release 1]

/-- The older request leaves nothing to keep. The newer one ends as the newest, and its outline
is kept past a third request that fails. -/
theorem latest_finished_wins_kept :
    (reached none strictSecond).current = none ∧
    FinishedNewest none (strictSecond ++ [.release 2]) 2 { strict := true } ∧
    (reached none (strictSecond ++
      [.release 2, .refresh { text := "" } (.failure "no") none, .release 3])).current =
        some { strict := true } := by
  obtain ⟨-, -, -, -, -, hrelease⟩ := latest_finished_wins none strictSecond
  exact ⟨by decide, (hrelease _ { strict := true } rfl (by decide)).1, by decide⟩

end Provider

end CodeOutline
