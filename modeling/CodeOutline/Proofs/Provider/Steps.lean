import CodeOutline.Provider

/-!
# Steps of a provider

`Effect` says once what a step can do: a request is made, a request in flight ends,
a wait begins, the environment changes, or nothing happens. What a whole run keeps
follows from it: requests stay as they were made, a request that has ended keeps
its outcome, and a wait stays for the request it began with.
-/

namespace CodeOutline

/-- How a request ends once its parser delivers. -/
def Request.ending (r : Request) : Outcome :=
  match r.outline.result with
  | .ok outline => .outlined outline
  | .error fault => .failed fault

theorem Request.ending_eq_outlined {r : Request} {o : Outline} :
    r.ending = .outlined o ↔ r.outline.result = .ok o := by
  unfold ending
  cases r.outline.result <;> simp

theorem Request.ending_eq_failed {r : Request} {fault : Fault} :
    r.ending = .failed fault ↔ r.outline.result = .error fault := by
  unfold ending
  cases r.outline.result <;> simp

attribute [ext] Provider

namespace Provider

/-- The provider after steps one after another. -/
def after (p : Provider) (steps : List Step) : Provider := (p.run steps).1

/-- The provider that steps reach from the start, in an environment. -/
def reached (env : Option String) (steps : List Step) : Provider :=
  ({ env := env } : Provider).after steps

/-- How the request of a number ended, if it has ended. -/
def outcome? (p : Provider) (number : Nat) : Option Outcome :=
  (p.request? number).bind (·.outcome)

/-- The outline that is kept once a request has ended. -/
def keptAfter (p : Provider) (number : Nat) : Outcome → Option Outline
  | .outlined outline => if number = p.latest then some outline else p.current
  | .failed _ | .cancelled => p.current

/-- The provider with a request ended, its outline kept if it is the newest. -/
def close (p : Provider) (number : Nat) (outcome : Outcome) : Provider :=
  { p.settle number outcome with current := p.keptAfter number outcome }

/-- The provider with one request more. -/
def issue (p : Provider) (document : Document) (delivery : Delivery) (own : Option Config) :
    Provider :=
  { p with requests := p.requests ++ [{ document, config := Config.orEnv own p.env, delivery }] }

/-! ## Runs -/

@[simp] theorem after_nil (p : Provider) : p.after [] = p := rfl

@[simp] theorem after_cons (p : Provider) (s : Step) (rest : List Step) :
    p.after (s :: rest) = (p.step s).1.after rest := rfl

theorem after_append (p : Provider) (first second : List Step) :
    p.after (first ++ second) = (p.after first).after second := by
  induction first generalizing p with
  | nil => rfl
  | cons s rest ih => exact ih (p.step s).1

theorem after_concat (p : Provider) (steps : List Step) (s : Step) :
    p.after (steps ++ [s]) = ((p.after steps).step s).1 := by
  rw [after_append]
  rfl

theorem reached_append (env : Option String) (first second : List Step) :
    reached env (first ++ second) = (reached env first).after second :=
  after_append _ first second

theorem reached_concat (env : Option String) (steps : List Step) (s : Step) :
    reached env (steps ++ [s]) = ((reached env steps).step s).1 :=
  after_concat _ steps s

/-! ## Requests by number -/

theorem inFlight?_eq_some {p : Provider} {n : Nat} {r : Request} :
    p.inFlight? n = some r ↔ p.request? n = some r ∧ r.outcome = none := by
  simp [inFlight?, Option.filter_eq_some_iff]

theorem request?_bounds {p : Provider} {n : Nat} {r : Request} (h : p.request? n = some r) :
    0 < n ∧ n ≤ p.latest := by
  unfold request? at h
  split at h
  · cases h
  · have := (List.getElem?_eq_some_iff.mp h).1
    unfold latest
    omega

theorem request?_issue {p : Provider} {n : Nat} (hn : n ≤ p.latest) (d : Document)
    (δ : Delivery) (own : Option Config) : (p.issue d δ own).request? n = p.request? n := by
  unfold request? issue
  split
  · rfl
  · have hlt : n - 1 < p.requests.length := by
      unfold latest at hn
      omega
    exact List.getElem?_append_left hlt

/-- Ending a request sets its outcome and leaves all others. -/
theorem request?_settle {p : Provider} {n : Nat} (hn : 0 < n) (k : Nat) (out : Outcome) :
    (p.settle n out).request? k =
      if k = n then (p.request? n).map fun r => { r with outcome := some out }
      else p.request? k := by
  unfold request? settle
  by_cases hk : k = 0
  · simp [hk, (Nat.ne_of_gt hn).symm]
  · simp only [hk, if_false, Nat.ne_of_gt hn, List.getElem?_modify]
    by_cases hkn : k = n
    · subst hkn
      simp
    · have hne : n - 1 ≠ k - 1 := by omega
      simp [hkn, hne]

@[simp] theorem latest_settle (p : Provider) (n : Nat) (out : Outcome) :
    (p.settle n out).latest = p.latest := by
  simp [latest, settle]

@[simp] theorem latest_close (p : Provider) (n : Nat) (out : Outcome) :
    (p.close n out).latest = p.latest :=
  latest_settle p n out

@[simp] theorem latest_issue (p : Provider) (d : Document) (δ : Delivery) (own : Option Config) :
    (p.issue d δ own).latest = p.latest + 1 := by
  simp [latest, issue]

theorem request?_close {p : Provider} {n : Nat} (hn : 0 < n) (k : Nat) (out : Outcome) :
    (p.close n out).request? k =
      if k = n then (p.request? n).map fun r => { r with outcome := some out }
      else p.request? k :=
  request?_settle hn k out

theorem inFlight?_issue {p : Provider} {n : Nat} (hn : n ≤ p.latest) (d : Document)
    (δ : Delivery) (own : Option Config) : (p.issue d δ own).inFlight? n = p.inFlight? n := by
  unfold inFlight?
  rw [request?_issue hn]

theorem inFlight?_close {p : Provider} {n : Nat} (hn : 0 < n) (k : Nat) (out : Outcome) :
    (p.close n out).inFlight? k = if k = n then none else p.inFlight? k := by
  unfold inFlight?
  rw [request?_close hn]
  split
  · cases p.request? n <;> simp
  · rfl

/-! ## What a step does -/

/-- The steps that are about a request or a wait that is there. -/
def aims : Step → Bool
  | .release _ | .cancel _ | .cancelWait _ => true
  | .refresh _ _ _ | .wait | .setEnv _ => false

/-- A step that ends the request of a number, which is in flight: its parser
delivers, or it is cancelled, be it by itself or through a wait for it. -/
inductive Ends (p : Provider) : Step → Nat → Outcome → Prop
  | release {n : Nat} {r : Request} (flying : p.inFlight? n = some r) :
      Ends p (.release n) n r.ending
  | cancel {n : Nat} {r : Request} (flying : p.inFlight? n = some r) :
      Ends p (.cancel n) n .cancelled
  | cancelWait {i n : Nat} {w : Wait} {r : Request} (there : p.waits[i]? = some w)
      (pending : w.result = none) (bound : w.request = some n) (flying : p.inFlight? n = some r) :
      Ends p (.cancelWait i) n .cancelled

/-- The release of a request in flight that has an outline ends it with that. -/
theorem ends_release_of_ok {p : Provider} {n : Nat} {r : Request} {o : Outline}
    (flying : p.inFlight? n = some r) (hok : r.outline.result = .ok o) :
    p.Ends (.release n) n (.outlined o) := by
  rw [← Request.ending_eq_outlined.mpr hok]
  exact .release flying

/-- What a step does to a provider. -/
inductive Effect (p : Provider) : Step → Provider → Prop
  | issued (d : Document) (δ : Delivery) (own : Option Config) :
      Effect p (.refresh d δ own) (p.issue d δ own)
  | ended {s : Step} {n : Nat} {out : Outcome} (h : p.Ends s n out) : Effect p s (p.close n out)
  | waiting : Effect p .wait { p with waits := p.waits ++ [p.newWait] }
  | moved (marker : Option String) : Effect p (.setEnv marker) { p with env := marker }
  | idle {s : Step} (hs : aims s = true) (h : ∀ n out, ¬ p.Ends s n out) : Effect p s p

/-- A request that finishes ends as its parser has it, and is kept if it is the newest. -/
theorem finish_fst (p : Provider) (n : Nat) (r : Request) :
    (p.finish n r).1 = p.close n r.ending := by
  unfold finish Request.ending
  cases h : r.outline.result with
  | ok o =>
    by_cases hn : n = p.latest <;> simp [h, hn, close, keptAfter, settle]
  | error f => simp [h, close, keptAfter, settle]

theorem cancel_eq_close {p : Provider} {n : Nat} {r : Request} (h : p.inFlight? n = some r) :
    p.cancel n = p.close n .cancelled := by
  simp [cancel, h, close, keptAfter, settle]

theorem cancel_of_not_inFlight {p : Provider} {n : Nat} (h : p.inFlight? n = none) :
    p.cancel n = p := by
  simp [cancel, h]

/-- Every step has one of the effects. -/
theorem effect_step (p : Provider) (s : Step) : p.Effect s (p.step s).1 := by
  cases s with
  | refresh d δ own => exact .issued d δ own
  | wait => exact .waiting
  | setEnv marker => exact .moved marker
  | release n =>
    cases h : p.inFlight? n with
    | none =>
      simp only [step, h]
      refine .idle rfl fun k out hends => ?_
      cases hends with
      | release flying => simp [h] at flying
    | some r =>
      simp only [step, h, finish_fst]
      exact .ended (.release h)
  | cancel n =>
    cases h : p.inFlight? n with
    | none =>
      simp only [step, cancel_of_not_inFlight h]
      refine .idle rfl fun k out hends => ?_
      cases hends with
      | cancel flying => simp [h] at flying
    | some r =>
      simp only [step, cancel_eq_close h]
      exact .ended (.cancel h)
  | cancelWait i =>
    cases hw : p.waits[i]? with
    | none =>
      simp only [step, hw]
      refine .idle rfl fun k out hends => ?_
      cases hends with
      | cancelWait there => simp [hw] at there
    | some w =>
      obtain ⟨request, result⟩ := w
      cases result with
      | some result =>
        simp only [step, hw]
        refine .idle rfl fun k out hends => ?_
        cases hends with
        | cancelWait there pending =>
          rw [hw] at there
          cases there
          cases pending
      | none =>
        cases request with
        | none =>
          simp only [step, hw]
          refine .idle rfl fun k out hends => ?_
          cases hends with
          | cancelWait there pending bound =>
            rw [hw] at there
            cases there
            cases bound
        | some n =>
          simp only [step, hw]
          cases h : p.inFlight? n with
          | none =>
            rw [cancel_of_not_inFlight h]
            refine .idle rfl fun k out hends => ?_
            cases hends with
            | cancelWait there pending bound flying =>
              rw [hw] at there
              cases there
              cases bound
              simp [h] at flying
          | some r =>
            rw [cancel_eq_close h]
            exact .ended (.cancelWait hw rfl rfl h)

/-- A step that ends a request does so and nothing else. -/
theorem Ends.step_eq {p : Provider} {s : Step} {n : Nat} {out : Outcome} (h : p.Ends s n out) :
    (p.step s).1 = p.close n out := by
  cases h with
  | release flying => simp only [step, flying, finish_fst]
  | cancel flying => simp only [step, cancel_eq_close flying]
  | cancelWait there pending bound flying =>
    simp only [step, there, pending, bound, cancel_eq_close flying]

/-! ## What a run keeps -/

theorem Ends.inFlight {p : Provider} {s : Step} {n : Nat} {out : Outcome}
    (h : p.Ends s n out) : ∃ r, p.request? n = some r ∧ r.outcome = none := by
  cases h with
  | release flying => exact ⟨_, inFlight?_eq_some.mp flying⟩
  | cancel flying => exact ⟨_, inFlight?_eq_some.mp flying⟩
  | cancelWait _ _ _ flying => exact ⟨_, inFlight?_eq_some.mp flying⟩

theorem Ends.aims {p : Provider} {s : Step} {n : Nat} {out : Outcome} (h : p.Ends s n out) :
    aims s = true := by
  cases h <;> rfl

/-- A step ends at most one request. -/
theorem Ends.unique {p : Provider} {s : Step} {m n : Nat} {a b : Outcome} (h : p.Ends s m a)
    (h' : p.Ends s n b) : m = n := by
  cases h with
  | release _ =>
    cases h'
    rfl
  | cancel _ =>
    cases h'
    rfl
  | cancelWait there _ bound _ =>
    cases h' with
    | cancelWait there' _ bound' _ =>
      rw [there] at there'
      cases there'
      rw [bound] at bound'
      exact Option.some.inj bound'

theorem Ends.outcome?_eq_none {p : Provider} {s : Step} {n : Nat} {out : Outcome}
    (h : p.Ends s n out) : p.outcome? n = none := by
  obtain ⟨r, hr, hout⟩ := h.inFlight
  simp [outcome?, hr, hout]

theorem Ends.bounds {p : Provider} {s : Step} {n : Nat} {out : Outcome}
    (h : p.Ends s n out) : 0 < n ∧ n ≤ p.latest := by
  obtain ⟨r, hr, -⟩ := h.inFlight
  exact request?_bounds hr

/-- The request that ends gets its outcome. -/
theorem Ends.outcome?_close {p : Provider} {s : Step} {n : Nat} {out : Outcome}
    (h : p.Ends s n out) : (p.close n out).outcome? n = some out := by
  obtain ⟨r, hr, -⟩ := h.inFlight
  simp [outcome?, request?_close h.bounds.1, hr]

/-- Of the outcomes, the end of a request changes only its own. -/
theorem outcome?_close_of_ne {p : Provider} {n k : Nat} (hn : 0 < n) (hk : k ≠ n)
    (out : Outcome) : (p.close n out).outcome? k = p.outcome? k := by
  simp [outcome?, request?_close hn, hk]

theorem outcome?_bounds {p : Provider} {n : Nat} {out : Outcome} (h : p.outcome? n = some out) :
    0 < n ∧ n ≤ p.latest := by
  obtain ⟨r, hr, -⟩ := Option.bind_eq_some_iff.mp h
  exact request?_bounds hr

/-- A new request has not ended, and changes nothing about how the others did. -/
theorem outcome?_issue (p : Provider) (d : Document) (δ : Delivery) (own : Option Config)
    (n : Nat) : (p.issue d δ own).outcome? n = p.outcome? n := by
  rcases Nat.lt_or_ge p.latest n with hlt | hle
  · -- the new request is in flight, and there is none after it
    have hold : p.outcome? n = none := by
      cases h : p.outcome? n with
      | none => rfl
      | some out =>
        have := (outcome?_bounds h).2
        omega
    rw [hold]
    unfold latest at hlt
    have hne : n ≠ 0 := by omega
    rcases Nat.eq_or_lt_of_le (Nat.succ_le_of_lt hlt) with heq | hgt
    · simp [outcome?, request?, issue, ← heq]
    · simp [outcome?, request?, issue, hne, show ¬ n - 1 < p.requests.length + 1 by omega]
  · simp [outcome?, request?_issue hle]

/-- A step changes the outcome of a request only by ending it. -/
theorem outcome?_step (p : Provider) (s : Step) (n : Nat) :
    (p.step s).1.outcome? n = p.outcome? n ∨
      ∃ out, p.Ends s n out ∧ (p.step s).1 = p.close n out := by
  have heff := p.effect_step s
  generalize hq : (p.step s).1 = q at heff ⊢
  cases heff with
  | issued d δ own => exact .inl (outcome?_issue p d δ own n)
  | waiting => exact .inl rfl
  | moved marker => exact .inl rfl
  | idle => exact .inl rfl
  | @ended _ k out h =>
    by_cases hk : n = k
    · subst hk
      exact .inr ⟨out, h, rfl⟩
    · exact .inl (outcome?_close_of_ne h.bounds.1 hk out)

/-- A request that has ended keeps its outcome. -/
theorem outcome?_after {p : Provider} {n : Nat} {out : Outcome} (h : p.outcome? n = some out)
    (steps : List Step) : (p.after steps).outcome? n = some out := by
  induction steps generalizing p with
  | nil => exact h
  | cons s rest ih =>
    rw [after_cons]
    apply ih
    rcases p.outcome?_step s n with hsame | ⟨_, hends, _⟩
    · rw [hsame, h]
    · simp [hends.outcome?_eq_none] at h

theorem latest_le_step (p : Provider) (s : Step) : p.latest ≤ (p.step s).1.latest := by
  have heff := p.effect_step s
  generalize (p.step s).1 = q at heff ⊢
  cases heff with
  | issued d δ own => simp
  | ended h => simp
  | waiting => exact Nat.le_refl _
  | moved marker => exact Nat.le_refl _
  | idle => exact Nat.le_refl _

/-- The number of the newest request never decreases. -/
theorem latest_le_after (p : Provider) (steps : List Step) : p.latest ≤ (p.after steps).latest := by
  induction steps generalizing p with
  | nil => exact Nat.le_refl _
  | cons s rest ih => exact Nat.le_trans (p.latest_le_step s) (ih _)

/-! ## Waits of a provider

A wait stays in its place, is for one request throughout, and once over keeps its
result. A wait that is not over is for a request in flight. -/

@[simp] theorem deliver_request (n : Nat) (out : Outcome) (w : Wait) :
    (deliver n out w).request = w.request := by
  unfold deliver
  split <;> rfl

/-- A wait that is over keeps its result. -/
theorem deliver_of_over {n : Nat} {out : Outcome} {w : Wait} (h : w.result ≠ none) :
    deliver n out w = w := by
  cases hw : w.result with
  | none => exact absurd hw h
  | some result => simp [deliver, hw]

/-- A wait goes on past the end of a request exactly if it is not for it. -/
theorem deliver_result_eq_none {n : Nat} {out : Outcome} {w : Wait} :
    (deliver n out w).result = none ↔ w.result = none ∧ w.request ≠ some n := by
  unfold deliver
  cases hw : w.result with
  | none => by_cases hr : w.request = some n <;> simp [hr, hw]
  | some result => simp [hw]

/-- Whether the wait of an index has begun and is not over. -/
def Waiting (p : Provider) (index : Nat) : Prop :=
  ∃ w, p.waits[index]? = some w ∧ w.result = none

/-- A wait stays in its place and is for the request it was for. Once over, it keeps
its result. -/
theorem wait_step {p : Provider} {i : Nat} {w : Wait} (h : p.waits[i]? = some w) (s : Step) :
    ∃ w', (p.step s).1.waits[i]? = some w' ∧ w'.request = w.request ∧
      (w.result ≠ none → w' = w) := by
  have heff := p.effect_step s
  generalize (p.step s).1 = q at heff ⊢
  cases heff with
  | issued d δ own => exact ⟨w, h, rfl, fun _ => rfl⟩
  | moved marker => exact ⟨w, h, rfl, fun _ => rfl⟩
  | idle => exact ⟨w, h, rfl, fun _ => rfl⟩
  | waiting =>
    have hlt := (List.getElem?_eq_some_iff.mp h).1
    exact ⟨w, by rw [List.getElem?_append_left hlt, h], rfl, fun _ => rfl⟩
  | @ended _ n out _ =>
    refine ⟨deliver n out w, ?_, deliver_request n out w, deliver_of_over⟩
    simp [close, settle, h]

/-- In every run, a wait stays in its place and is for the request it was for, and once over it
keeps its result. -/
theorem wait_after {p : Provider} {i : Nat} {w : Wait} (h : p.waits[i]? = some w)
    (steps : List Step) :
    ∃ w', (p.after steps).waits[i]? = some w' ∧ w'.request = w.request ∧
      (w.result ≠ none → w' = w) := by
  induction steps generalizing p w with
  | nil => exact ⟨w, h, rfl, fun _ => rfl⟩
  | cons s rest ih =>
    obtain ⟨w₁, h₁, hreq₁, hover₁⟩ := wait_step h s
    obtain ⟨w₂, h₂, hreq₂, hover₂⟩ := ih h₁
    refine ⟨w₂, h₂, hreq₂.trans hreq₁, fun hover => ?_⟩
    obtain rfl := hover₁ hover
    exact hover₂ hover

/-- Every wait that is not over is for a request in flight. -/
def Linked (p : Provider) : Prop :=
  ∀ w ∈ p.waits, w.result = none → ∃ n r, w.request = some n ∧ p.inFlight? n = some r

/-- A step leaves every wait that is not over with a request in flight: a new wait is for the
newest request, and the end of a request ends the waits for it. -/
theorem Linked.step {p : Provider} (hp : p.Linked) (s : Step) : (p.step s).1.Linked := by
  have heff := p.effect_step s
  generalize (p.step s).1 = q at heff ⊢
  cases heff with
  | moved marker => exact hp
  | idle => exact hp
  | issued d δ own =>
    intro w hw hpending
    obtain ⟨n, r, hreq, hfly⟩ := hp w hw hpending
    have hn := (request?_bounds (inFlight?_eq_some.mp hfly).1).2
    exact ⟨n, r, hreq, by rw [inFlight?_issue hn, hfly]⟩
  | waiting =>
    intro w hw hpending
    rcases List.mem_append.mp hw with hold | hnew
    · exact hp w hold hpending
    · rw [List.mem_singleton] at hnew
      subst hnew
      unfold newWait at hpending ⊢
      split at hpending
      · cases hpending
      · rename_i r hr
        have hout : r.outcome = none := by simpa using hpending
        exact ⟨p.latest, r, rfl, inFlight?_eq_some.mpr ⟨hr, hout⟩⟩
  | @ended _ k out h =>
    intro w' hw' hpending
    obtain ⟨w, hw, rfl⟩ := List.mem_map.mp hw'
    obtain ⟨hres, hne⟩ := deliver_result_eq_none.mp hpending
    obtain ⟨n, r, hreq, hfly⟩ := hp w hw hres
    have hnk : n ≠ k := fun h => hne (by rw [hreq, h])
    refine ⟨n, r, by rw [deliver_request, hreq], ?_⟩
    rw [inFlight?_close h.bounds.1, if_neg hnk, hfly]

theorem linked_after {p : Provider} (hp : p.Linked) (steps : List Step) :
    (p.after steps).Linked := by
  induction steps generalizing p with
  | nil => exact hp
  | cons s rest ih => exact ih (hp.step s)

/-- In every run, a wait that is not over is for a request in flight. -/
theorem linked_reached (env : Option String) (steps : List Step) : (reached env steps).Linked :=
  linked_after (by intro w hw; simp at hw) steps

/-- Cancelling a wait that is not over ends the request it is for. -/
theorem Linked.ends_cancelWait {p : Provider} (hp : p.Linked) {i : Nat} {w : Wait}
    (hw : p.waits[i]? = some w) (hpending : w.result = none) :
    ∃ n, w.request = some n ∧ p.Ends (.cancelWait i) n .cancelled := by
  obtain ⟨n, r, hreq, hfly⟩ := hp w (List.mem_of_getElem? hw) hpending
  exact ⟨n, hreq, .cancelWait hw hpending hreq hfly⟩

end Provider

end CodeOutline
