import CodeOutline.Proofs.Provider.LatestWins
import CodeOutline.Proofs.Provider.WaitIsolation
import CodeOutline.Workspace

/-!
# A wait gets its own request

A wait is for the request that is the newest as it begins. It is over exactly as long as
that request has ended, and has the outcome of that request for its result, whatever other
requests are made, end or fail meanwhile. The outline of a document in a workspace is what
such a wait gets.
-/

namespace CodeOutline

namespace Provider

/-- What the wait of an index got, if it is over. -/
def result? (p : Provider) (index : Nat) : Option (Option Outcome) :=
  p.waits[index]?.bind (·.result)

/-- What a wait for a request is to get by now. A wait for none gets nothing. -/
def due (p : Provider) : Option Nat → Option (Option Outcome)
  | none => some none
  | some number => (p.outcome? number).map some

/-- A step that cancels the request of a number, by itself or through a wait for it. -/
def Cancels (p : Provider) (number : Nat) : Step → Prop
  | .cancel n => n = number
  | .cancelWait index => ∃ w, p.waits[index]? = some w ∧ w.request = some number
  | .refresh _ _ _ | .release _ | .wait | .setEnv _ => False

/-! ## Every wait is served -/

/-- Every wait has what it is to get by now. -/
def Served (p : Provider) : Prop :=
  ∀ w ∈ p.waits, w.result = p.due w.request

theorem due_newWait (p : Provider) : p.newWait.result = p.due p.newWait.request := by
  unfold newWait
  cases h : p.request? p.latest with
  | none => rfl
  | some r => simp [due, outcome?, h]

/-- The end of a request is what the waits for it are to get, and changes nothing for
the others. -/
theorem Ends.due_close {p : Provider} {s : Step} {n : Nat} {out : Outcome} (h : p.Ends s n out)
    {w : Wait} (hw : w.result = p.due w.request) :
    (deliver n out w).result = (p.close n out).due w.request := by
  cases hreq : w.request with
  | none =>
    rw [hreq] at hw
    rw [deliver_of_over (by simp [hw, due]), hw]
    rfl
  | some k =>
    rw [hreq] at hw
    by_cases hk : k = n
    · subst hk
      have hpending : w.result = none := by simp [hw, due, h.outcome?_eq_none]
      simp [deliver, hpending, hreq, due, h.outcome?_close]
    · have hother : deliver n out w = w := by simp [deliver, hreq, hk]
      rw [hother, hw, due, due, outcome?_close_of_ne h.bounds.1 hk]

theorem Served.step {p : Provider} (hp : p.Served) (s : Step) : (p.step s).1.Served := by
  have heff := p.effect_step s
  generalize (p.step s).1 = q at heff ⊢
  cases heff with
  | moved marker => exact hp
  | idle => exact hp
  | issued d δ own =>
    intro w hw
    rw [hp w hw]
    cases w.request with
    | none => rfl
    | some n => simp only [due, outcome?_issue]
  | waiting =>
    intro w hw
    rcases List.mem_append.mp hw with hold | hnew
    · exact hp w hold
    · rw [List.mem_singleton] at hnew
      subst hnew
      exact p.due_newWait
  | @ended _ n out h =>
    intro w' hw'
    obtain ⟨w, hw, rfl⟩ := List.mem_map.mp hw'
    rw [deliver_request]
    exact h.due_close (hp w hw)

theorem served_reached (env : Option String) (steps : List Step) : (reached env steps).Served := by
  induction steps using List.reverseRecOn with
  | nil =>
    intro w hw
    simp [reached] at hw
  | append_singleton steps s ih =>
    rw [reached_concat]
    exact ih.step s

/-! ## The request of a wait -/

theorem request?_latest_eq_none {p : Provider} : p.request? p.latest = none ↔ p.latest = 0 := by
  unfold request? latest
  by_cases h : p.requests.length = 0
  · simp [h]
  · simp only [h, if_false, iff_false]
    rw [List.getElem?_eq_none_iff]
    omega

/-- A wait is for the newest request, if there is one. -/
theorem request_newWait (p : Provider) :
    p.newWait.request = if p.latest = 0 then none else some p.latest := by
  unfold newWait
  by_cases h : p.latest = 0
  · rw [request?_latest_eq_none.mpr h, if_pos h]
  · obtain ⟨r, hr⟩ := Option.ne_none_iff_exists'.mp (mt request?_latest_eq_none.mp h)
    simp [h, hr]

/-- The result of a wait is what is due to it by the request that was the newest as it
began. -/
theorem result?_withWait (env : Option String) (before rest : List Step) :
    (withWait env before rest).result? (waitIndex env before) =
      (withWait env before rest).due (reached env before).newWait.request := by
  obtain ⟨w, hw, hreq, -⟩ := wait_withWait env before rest
  have hserved := served_reached env _ w (List.mem_of_getElem? hw)
  rw [result?, hw, Option.bind_some, hserved, hreq]
  rfl

theorem request?_issue_latest (p : Provider) (d : Document) (δ : Delivery)
    (own : Option Config) :
    (p.issue d δ own).request? (p.latest + 1) =
      some { document := d, config := Config.orEnv own p.env, delivery := δ } := by
  simp [request?, issue, latest]

/-! ## How requests end -/

theorem made_request?_after {p : Provider} {n : Nat} {r : Request} (h : p.request? n = some r)
    (steps : List Step) : ∃ r', (p.after steps).request? n = some r' ∧ r'.made = r.made := by
  have hn := (request?_bounds h).1
  simp only [request?, Nat.ne_of_gt hn, if_false] at h ⊢
  have hlt := (List.getElem?_eq_some_iff.mp h).1
  have hmade : ((p.after steps).requests.map Request.made)[n - 1]? = some r.made := by
    rw [made_after, List.getElem?_append_left (by simpa using hlt), List.getElem?_map, h]
    rfl
  simpa only [List.getElem?_map, Option.map_eq_some_iff] using hmade

theorem Ends.cancels {p : Provider} {s : Step} {n : Nat} {out : Outcome} (h : p.Ends s n out) :
    (∃ r, p.request? n = some r ∧ out = r.ending) ∨ out = .cancelled ∧ p.Cancels n s := by
  cases h with
  | release flying => exact .inl ⟨_, (inFlight?_eq_some.mp flying).1, rfl⟩
  | cancel _ => exact .inr ⟨rfl, rfl⟩
  | cancelWait there _ bound _ => exact .inr ⟨rfl, _, there, bound⟩

/-- Waits stay for their requests, and with them what a step cancels. -/
theorem Cancels.after {p : Provider} {n : Nat} {s : Step} (h : p.Cancels n s)
    (steps : List Step) : (p.after steps).Cancels n s := by
  cases s with
  | cancel m => exact h
  | cancelWait i =>
    obtain ⟨w, hw, hreq⟩ := h
    obtain ⟨w', hw', hreq', -⟩ := wait_after hw steps
    exact ⟨w', hw', hreq'.trans hreq⟩
  | _ => exact h

/-- A request that has ended did so as its own refresh has it, or was cancelled. -/
theorem ending_or_cancelled {env : Option String} {steps : List Step} {n : Nat} {out : Outcome}
    (h : (reached env steps).outcome? n = some out) :
    ∃ r, (issues env steps)[n - 1]? = some r ∧
      (out = r.ending ∨ out = .cancelled ∧ ∃ s ∈ steps, (reached env steps).Cancels n s) := by
  obtain ⟨before, s, rest, rfl, -, hends⟩ := exists_step_of_outcome? h
  obtain ⟨r, hr, -⟩ := hends.inFlight
  obtain ⟨r', hr', hmade⟩ := made_request?_after hr (s :: rest)
  rw [← reached_append] at hr'
  refine ⟨r'.made, made_request?_reached hr', ?_⟩
  rcases hends.cancels with ⟨r₀, hr₀, rfl⟩ | ⟨rfl, hcancels⟩
  · rw [hr] at hr₀
    cases hr₀
    exact .inl (congrArg Request.ending hmade).symm
  · refine .inr ⟨rfl, s, by simp, ?_⟩
    rw [reached_append]
    exact hcancels.after (s :: rest)

/-- A request that is released without being cancelled before ends as its own refresh
has it. -/
theorem outcome?_of_release {env : Option String} {steps : List Step} {n : Nat} {r : Request}
    (hr : (reached env steps).request? n = some r)
    (hnot : (reached env steps).outcome? n ≠ some .cancelled) (rest : List Step) :
    (reached env (steps ++ .release n :: rest)).outcome? n = some r.ending := by
  rw [reached_append]
  cases hout : r.outcome with
  | none =>
    have hends : (reached env steps).Ends (.release n) n r.ending :=
      .release (inFlight?_eq_some.mpr ⟨hr, hout⟩)
    rw [after_cons, hends.step_eq]
    exact outcome?_after hends.outcome?_close rest
  | some out =>
    have hended : (reached env steps).outcome? n = some out := by simp [outcome?, hr, hout]
    obtain ⟨r', hr', hcases⟩ := ending_or_cancelled hended
    rcases hcases with rfl | ⟨rfl, -⟩
    · -- it had ended before, and a release changes nothing
      rw [made_request?_reached hr] at hr'
      cases hr'
      exact outcome?_after hended _
    · exact absurd hended hnot

/-! ## Waits -/

/-- **A wait gets its own request.** In every run, a wait that begins before any request is
made is over at once with nothing. Any other has, at any time, the outcome of the request
that was the newest as it began for its result, and none as long as that has none. That
outcome is the one for what the refresh of its number was given, unless a step cancelled the
request. So a wait right after a refresh gets the outline of that document once the request
is released, also if newer requests were made before. -/
theorem wait_gets_own_request (env : Option String) (before rest : List Step) :
    ((reached env before).latest = 0 →
      (withWait env before rest).result? (waitIndex env before) = some none) ∧
    (0 < (reached env before).latest →
      (withWait env before rest).result? (waitIndex env before) =
        ((withWait env before rest).outcome? (reached env before).latest).map some) ∧
    (∀ out, (withWait env before rest).outcome? (reached env before).latest = some out →
      ∃ r, (issues env (before ++ .wait :: rest))[(reached env before).latest - 1]? = some r ∧
        (out = r.ending ∨ out = .cancelled ∧ ∃ s ∈ before ++ .wait :: rest,
          (withWait env before rest).Cancels (reached env before).latest s)) ∧
    (∀ d δ own,
      (withWait env (before ++ [.refresh d δ own]) rest).outcome?
          ((reached env before).latest + 1) ≠ some .cancelled →
      ∀ more, (withWait env (before ++ [.refresh d δ own])
          (rest ++ .release ((reached env before).latest + 1) :: more)).result?
          (waitIndex env (before ++ [.refresh d δ own])) =
        some (some (Request.ending
          { document := d, config := Config.orEnv own (reached env before).env
            delivery := δ }))) := by
  refine ⟨?_, ?_, ?_, ?_⟩
  · intro hzero
    rw [result?_withWait, request_newWait, if_pos hzero]
    rfl
  · intro hpos
    rw [result?_withWait, request_newWait, if_neg (Nat.ne_of_gt hpos)]
    rfl
  · intro out hout
    exact ending_or_cancelled hout
  · intro d δ own hnot more
    have hissue : reached env (before ++ [.refresh d δ own]) =
        (reached env before).issue d δ own := reached_concat env before _
    have hmade := (reached env before).request?_issue_latest d δ own
    rw [← hissue] at hmade
    obtain ⟨r, hr, hsame⟩ := made_request?_after hmade (.wait :: rest)
    rw [← reached_append] at hr
    have hout := outcome?_of_release hr hnot more
    rw [List.append_assoc, List.cons_append] at hout
    rw [result?_withWait, request_newWait, hissue, latest_issue, if_neg (by omega), due, withWait,
      hout]
    show some (some r.made.ending) = _
    rw [hsame]
    rfl

/-- A wait for a strict document, after which another document is asked for and outlined
first: the outline of the other one is kept, and the wait gets its own. -/
theorem wait_gets_own_request_superseded :
    (withWait none [.refresh { text := "'use strict'" } (.ofUnit {}) none]
      [.refresh { text := "" } (.ofUnit {}) none, .release 2]).outcome? 1 ≠ some .cancelled ∧
    (withWait none [.refresh { text := "'use strict'" } (.ofUnit {}) none]
      [.refresh { text := "" } (.ofUnit {}) none, .release 2, .release 1]).current =
        some { strict := false } ∧
    (withWait none [.refresh { text := "'use strict'" } (.ofUnit {}) none]
      [.refresh { text := "" } (.ofUnit {}) none, .release 2, .release 1]).result? 0 =
        some (some (.outlined { strict := true })) := by
  have hnot : (withWait none [.refresh { text := "'use strict'" } (.ofUnit {}) none]
      [.refresh { text := "" } (.ofUnit {}) none, .release 2]).outcome? 1 ≠ some .cancelled := by
    decide
  obtain ⟨-, -, -, hown⟩ :=
    wait_gets_own_request none [] [.refresh { text := "" } (.ofUnit {}) none, .release 2]
  refine ⟨hnot, by decide, ?_⟩
  exact (hown { text := "'use strict'" } (.ofUnit {}) none hnot []).trans (by decide)

/-! ## A single request -/

/-- A document asked for and waited for at a provider in any state, and released once its
parser delivers. -/
def single (p : Provider) (document : Document) (delivery : Delivery) (own : Option Config) :
    List Step :=
  [.refresh document delivery own, .wait, .release (p.latest + 1)]

/-- The newest request finishes without a note of its own. -/
theorem notes_finish_latest (p : Provider) (r : Request) :
    (p.finish p.latest r).2 = r.outline.notes := by
  unfold finish
  cases h : r.outline.result with
  | ok o => simp [h]
  | error fault => simp [h]

/-- A single request leaves the notes of its outline, and its wait gets how it ends. -/
theorem run_single (p : Provider) (d : Document) (δ : Delivery) (own : Option Config) :
    (p.run (p.single d δ own)).2 =
      (Request.outline { document := d, config := Config.orEnv own p.env, delivery := δ }).notes ∧
    (p.after (p.single d δ own)).result? p.waits.length =
      some (some (Request.ending
        { document := d, config := Config.orEnv own p.env, delivery := δ })) := by
  have hmade := p.request?_issue_latest d δ own
  generalize hr : ({ document := d, config := Config.orEnv own p.env, delivery := δ } : Request) = r
    at hmade
  have hwait : (p.issue d δ own).newWait = { request := some (p.latest + 1) } := by
    rw [newWait, latest_issue, hmade, ← hr]
    rfl
  -- the provider when the wait has begun
  let q : Provider := { p.issue d δ own with waits := p.waits ++ [(p.issue d δ own).newWait] }
  have hflying : q.inFlight? (p.latest + 1) = some r :=
    inFlight?_eq_some.mpr ⟨hmade, by rw [← hr]⟩
  have hlatest : q.latest = p.latest + 1 := latest_issue p d δ own
  constructor
  · show [] ++ ([] ++ ((q.step (.release (p.latest + 1))).2 ++ [])) = _
    simp only [step, hflying, List.nil_append, List.append_nil]
    rw [← hlatest, notes_finish_latest]
  · show (q.step (.release (p.latest + 1))).1.result? p.waits.length = _
    rw [(Ends.release hflying).step_eq]
    simp [result?, close, settle, q, hwait, deliver]

end Provider

/-- **The outline in a workspace is that of a provider.** A provider in any state that has the
environment of the workspace, once it is asked for a document and the parser has delivered,
gives to a wait the outline of the document in the workspace, or its fault, and leaves the
same notes. -/
theorem Workspace.outline_eq_single {w : Workspace} {p : Provider} (henv : p.env = w.env)
    (d : Document) :
    (p.run (p.single d (w.delivery d) none)).2 = (w.outline d).notes ∧
    (∀ o, (p.after (p.single d (w.delivery d) none)).result? p.waits.length =
        some (some (.outlined o)) ↔ (w.outline d).result = .ok o) ∧
    (∀ fault, (p.after (p.single d (w.delivery d) none)).result? p.waits.length =
        some (some (.failed fault)) ↔ (w.outline d).result = .error fault) := by
  have hconfig : Config.orEnv none p.env = w.config := by
    rw [henv]
    rfl
  obtain ⟨hnotes, hresult⟩ := p.run_single d (w.delivery d) none
  rw [hconfig] at hnotes hresult
  rw [hresult]
  refine ⟨hnotes, ?_, ?_⟩
  · intro o
    rw [Option.some.injEq, Option.some.injEq, Request.ending_eq_outlined]
    rfl
  · intro fault
    rw [Option.some.injEq, Option.some.injEq, Request.ending_eq_failed]
    rfl

end CodeOutline
