import CodeOutline.Proofs.Provider.Steps
import Mathlib.Data.List.InsertIdx

/-!
# Cancelling one wait

A run in which one wait is cancelled, beside the run in which that wait never began.
A wait that is cancelled after it is over was never noticed by anybody. One that is
cancelled before takes its request with it, so that nobody else notices exactly if
that request ends cancelled in the other run too.
-/

namespace CodeOutline

/-- A step of the run in which the wait of an index never began: what cancels that
wait is left out, and the waits after it have moved up by one. -/
def Step.withoutWait (index : Nat) : Step → Option Step
  | .cancelWait i =>
      if i = index then none else some (.cancelWait (if index < i then i - 1 else i))
  | .refresh document delivery own => some (.refresh document delivery own)
  | .release number => some (.release number)
  | .cancel number => some (.cancel number)
  | .wait => some .wait
  | .setEnv marker => some (.setEnv marker)

namespace Provider

/-- The provider without the wait of an index. -/
def withoutWait (p : Provider) (index : Nat) : Provider :=
  { p with waits := p.waits.eraseIdx index }

/-! ## Ends of two requests -/

/-- A wait is for one request, so that the ends of two do not meet at it. -/
theorem deliver_comm {m n : Nat} (hmn : m ≠ n) (a b : Outcome) (w : Wait) :
    deliver n b (deliver m a w) = deliver m a (deliver n b w) := by
  by_cases hm : w.request = some m
  · have hn : w.request ≠ some n := by
      rw [hm]
      simpa using hmn
    have hleft : ∀ v : Wait, v.request = w.request → deliver n b v = v := by
      intro v hv
      simp [deliver, hv, hn]
    rw [hleft w rfl, hleft _ (deliver_request m a w)]
  · have hleft : ∀ v : Wait, v.request = w.request → deliver m a v = v := by
      intro v hv
      simp [deliver, hv, hm]
    rw [hleft w rfl, hleft _ (deliver_request n b w)]

/-- A request is cancelled before or after the end of another. -/
theorem close_cancelled_comm {p : Provider} {m n : Nat} (hm : 0 < m) (hn : 0 < n) (hmn : m ≠ n)
    (out : Outcome) :
    (p.close m out).close n .cancelled = (p.close n .cancelled).close m out := by
  ext1
  · have hplaces : m - 1 ≠ n - 1 := by omega
    exact List.modify_modify_ne _ _ _ hplaces
  · simp only [close, settle, List.map_map]
    exact List.map_congr_left fun w _ => deliver_comm hmn out .cancelled w
  · show p.keptAfter m out = (p.close n .cancelled).keptAfter m out
    unfold keptAfter
    rw [latest_close]
    rfl
  · rfl

/-- Once a request has ended, a step ends what it would have ended, that one apart. -/
theorem ends_close_iff {p : Provider} {n : Nat} (hn : 0 < n) {c : Outcome} {s : Step} {m : Nat}
    {out : Outcome} : (p.close n c).Ends s m out ↔ p.Ends s m out ∧ m ≠ n := by
  constructor
  · intro h
    cases h with
    | release flying =>
      rw [inFlight?_close hn] at flying
      split at flying
      · cases flying
      · exact ⟨.release flying, by assumption⟩
    | cancel flying =>
      rw [inFlight?_close hn] at flying
      split at flying
      · cases flying
      · exact ⟨.cancel flying, by assumption⟩
    | cancelWait there pending bound flying =>
      rw [inFlight?_close hn] at flying
      split at flying
      · cases flying
      · rw [close, settle, List.getElem?_map] at there
        obtain ⟨w, hw, rfl⟩ := Option.map_eq_some_iff.mp there
        rw [deliver_request] at bound
        exact ⟨.cancelWait hw (deliver_result_eq_none.mp pending).1 bound flying, by assumption⟩
  · rintro ⟨h, hmn⟩
    have hflight : (p.close n c).inFlight? m = p.inFlight? m := by
      rw [inFlight?_close hn, if_neg hmn]
    cases h with
    | release flying => exact .release (hflight.trans flying)
    | cancel flying => exact .cancel (hflight.trans flying)
    | @cancelWait i _ w _ there pending bound flying =>
      have hother : w.request ≠ some n := by
        rw [bound]
        simpa using hmn
      have hgoes : (deliver n c w).result = none := deliver_result_eq_none.mpr ⟨pending, hother⟩
      refine .cancelWait ?_ hgoes (by rw [deliver_request, bound]) (hflight.trans flying)
      simp [close, settle, there]

/-! ## Cancelling a request early -/

theorem step_of_not_ends {p : Provider} {s : Step} (hs : aims s = true)
    (h : ∀ n out, ¬ p.Ends s n out) : (p.step s).1 = p := by
  have heff := p.effect_step s
  generalize (p.step s).1 = q at heff ⊢
  cases heff with
  | issued d δ own => cases hs
  | waiting => cases hs
  | moved marker => cases hs
  | idle => rfl
  | ended hends => exact absurd hends (h _ _)

@[simp] theorem current_cancel (p : Provider) (n : Nat) : (p.cancel n).current = p.current := by
  unfold cancel
  split <;> rfl

theorem issue_close_cancelled {p : Provider} {n : Nat} (hn : 0 < n) (hle : n ≤ p.latest)
    (d : Document) (δ : Delivery) (own : Option Config) :
    (p.issue d δ own).close n .cancelled = (p.close n .cancelled).issue d δ own := by
  have hlt : n - 1 < p.requests.length := by
    unfold latest at hle
    omega
  ext1
  · apply List.ext_getElem?
    intro i
    simp only [close, settle, issue, List.getElem?_modify, List.getElem?_append, List.length_modify]
    by_cases hi : i < p.requests.length
    · simp [hi]
    · have hne : n - 1 ≠ i := by omega
      simp [hi, hne]
  · rfl
  · rfl
  · rfl

/-- A wait that begins is served by the end of its request, be that before or after. -/
theorem deliver_newWait {p : Provider} {n : Nat} {r : Request} (h : p.inFlight? n = some r) :
    deliver n .cancelled p.newWait = (p.close n .cancelled).newWait := by
  obtain ⟨hr, hout⟩ := inFlight?_eq_some.mp h
  have hn := request?_bounds hr
  by_cases hnew : p.latest = n
  · have hclosed : (p.close n .cancelled).request? n =
        some { r with outcome := some .cancelled } := by
      simp [request?_close hn.1, hr]
    simp [newWait, hnew, hr, hclosed, hout, deliver]
  · have hsame : (p.close n .cancelled).request? p.latest = p.request? p.latest := by
      rw [request?_close hn.1, if_neg hnew]
    have hwait : (p.close n .cancelled).newWait = p.newWait := by
      simp only [newWait, latest_close, hsame]
    have hother : p.newWait.request ≠ some n := by
      unfold newWait
      split
      · simp
      · simpa using hnew
    rw [hwait]
    simp [deliver, hother]

/-- A request may be cancelled before a step instead of after it, unless the step lets
it finish. -/
theorem cancel_step {p : Provider} {n : Nat} (hn : n ≤ p.latest) (s : Step)
    (hs : ∀ out, p.Ends s n out → out = .cancelled) :
    (p.step s).1.cancel n = ((p.cancel n).step s).1 := by
  cases hfly : p.inFlight? n with
  | none =>
    -- a request that has ended, or that is none, is not in flight later either
    have hlater : (p.step s).1.inFlight? n = none := by
      have heff := p.effect_step s
      generalize (p.step s).1 = q at heff ⊢
      cases heff with
      | issued d δ own => rw [inFlight?_issue hn, hfly]
      | waiting => exact hfly
      | moved marker => exact hfly
      | idle => exact hfly
      | ended h => rw [inFlight?_close h.bounds.1, hfly, ite_self]
    rw [cancel_of_not_inFlight hfly, cancel_of_not_inFlight hlater]
  | some r =>
    have hpos : 0 < n := (request?_bounds (inFlight?_eq_some.mp hfly).1).1
    rw [cancel_eq_close hfly]
    have heff := p.effect_step s
    generalize hq : (p.step s).1 = q at heff ⊢
    cases heff with
    | issued d δ own =>
      rw [cancel_eq_close ((inFlight?_issue hn d δ own).trans hfly)]
      exact issue_close_cancelled hpos hn d δ own
    | moved marker =>
      have hfly' : ({ p with env := marker } : Provider).inFlight? n = some r := hfly
      rw [cancel_eq_close hfly']
      rfl
    | waiting =>
      have hfly' : ({ p with waits := p.waits ++ [p.newWait] } : Provider).inFlight? n = some r :=
        hfly
      rw [cancel_eq_close hfly']
      ext1
      · rfl
      · simp [close, settle, step]
        exact deliver_newWait hfly
      · rfl
      · rfl
    | idle haims hidle =>
      rw [cancel_eq_close hfly, step_of_not_ends haims]
      intro m out hends
      exact hidle m out (ends_close_iff hpos |>.mp hends).1
    | @ended _ m out hends =>
      by_cases hmn : m = n
      · -- the step cancels the request itself, and finds it cancelled already
        subst hmn
        obtain rfl := hs out hends
        have hover : (p.close m .cancelled).inFlight? m = none := by
          rw [inFlight?_close hpos, if_pos rfl]
        rw [cancel_of_not_inFlight hover, step_of_not_ends hends.aims]
        intro k out hends'
        obtain ⟨hold, hkm⟩ := (ends_close_iff hpos).mp hends'
        exact hkm (hold.unique hends)
      · -- the ends of two requests
        have hstill : (p.close m out).inFlight? n = some r := by
          rw [inFlight?_close hends.bounds.1, if_neg (Ne.symm hmn), hfly]
        rw [cancel_eq_close hstill, ((ends_close_iff hpos).mpr ⟨hends, hmn⟩).step_eq]
        exact close_cancelled_comm hends.bounds.1 hpos hmn out

/-- A request may be cancelled before a whole run instead of after it, unless it
finishes in the run. -/
theorem cancel_after {p : Provider} {n : Nat} (hn : n ≤ p.latest) {steps : List Step}
    (h : ∀ out, (p.after steps).outcome? n = some out → out = .cancelled) :
    (p.cancel n).after steps = (p.after steps).cancel n := by
  induction steps generalizing p with
  | nil => rfl
  | cons s rest ih =>
    have hs : ∀ out, p.Ends s n out → out = .cancelled := by
      intro out hends
      apply h
      rw [after_cons, hends.step_eq]
      exact outcome?_after hends.outcome?_close rest
    rw [after_cons, after_cons, ← cancel_step hn s hs]
    exact ih (Nat.le_trans hn (latest_le_step p s)) h

/-! ## Leaving out a wait -/

theorem waits_length_step (p : Provider) (s : Step) :
    p.waits.length ≤ (p.step s).1.waits.length := by
  have heff := p.effect_step s
  generalize (p.step s).1 = q at heff ⊢
  cases heff with
  | issued d δ own => exact Nat.le_refl _
  | moved marker => exact Nat.le_refl _
  | idle => exact Nat.le_refl _
  | waiting => simp
  | ended h => simp [close, settle]

theorem waits_length_after (p : Provider) (steps : List Step) :
    p.waits.length ≤ (p.after steps).waits.length := by
  induction steps generalizing p with
  | nil => exact Nat.le_refl _
  | cons s rest ih => exact Nat.le_trans (waits_length_step p s) (ih _)

/-- Only a wait that is not over can be cancelled. -/
theorem step_cancelWait_of_not_waiting {p : Provider} {i : Nat} (h : ¬ p.Waiting i) :
    (p.step (.cancelWait i)).1 = p := by
  apply step_of_not_ends rfl
  intro n out hends
  cases hends with
  | cancelWait there pending _ _ => exact h ⟨_, there, pending⟩

theorem step_cancelWait_of_length_le {p : Provider} {i : Nat} (h : p.waits.length ≤ i) :
    (p.step (.cancelWait i)).1 = p := by
  apply step_cancelWait_of_not_waiting
  rintro ⟨w, hw, -⟩
  rw [List.getElem?_eq_none h] at hw
  cases hw

/-- Before a wait begins, its run and the one without it are the same. -/
theorem after_filterMap_of_length_le {p : Provider} {w : Nat} {steps : List Step}
    (h : (p.after steps).waits.length ≤ w) :
    p.after (steps.filterMap (Step.withoutWait w)) = p.after steps := by
  induction steps generalizing p with
  | nil => rfl
  | cons s rest ih =>
    rw [after_cons] at h
    have hw : p.waits.length ≤ w :=
      Nat.le_trans (Nat.le_trans (waits_length_step p s) (waits_length_after _ rest)) h
    cases s with
    | cancelWait i =>
      -- waits before that one keep their index, and from it on there are none yet
      rw [List.filterMap_cons, after_cons]
      by_cases hi : i = w
      · subst hi
        rw [step_cancelWait_of_length_le hw] at h ⊢
        simpa [Step.withoutWait] using ih h
      · simp only [Step.withoutWait, if_neg hi]
        by_cases hlt : w < i
        · have h₁ : p.waits.length ≤ i - 1 := by omega
          have h₂ : p.waits.length ≤ i := by omega
          rw [step_cancelWait_of_length_le h₂] at h ⊢
          rw [if_pos hlt, after_cons, step_cancelWait_of_length_le h₁]
          exact ih h
        · rw [if_neg hlt]
          exact ih h
    | refresh d δ own => exact ih h
    | release n => exact ih h
    | cancel n => exact ih h
    | wait => exact ih h
    | setEnv marker => exact ih h

theorem withoutWait_close (p : Provider) (w n : Nat) (out : Outcome) :
    (p.close n out).withoutWait w = (p.withoutWait w).close n out := by
  ext1
  · rfl
  · simp [withoutWait, close, settle, List.eraseIdx_map]
  · rfl
  · rfl

theorem withoutWait_cancel (p : Provider) (w n : Nat) :
    (p.cancel n).withoutWait w = (p.withoutWait w).cancel n := by
  cases h : p.inFlight? n with
  | none =>
    have h' : (p.withoutWait w).inFlight? n = none := h
    rw [cancel_of_not_inFlight h, cancel_of_not_inFlight h']
  | some r =>
    have h' : (p.withoutWait w).inFlight? n = some r := h
    rw [cancel_eq_close h, cancel_eq_close h', withoutWait_close]

/-- Where a wait stands once another is left out. -/
theorem getElem?_withoutWait {p : Provider} {w i : Nat} (hi : i ≠ w) :
    (p.withoutWait w).waits[if w < i then i - 1 else i]? = p.waits[i]? := by
  unfold withoutWait
  rw [List.getElem?_eraseIdx]
  by_cases hlt : w < i
  · have hge : ¬ i - 1 < w := by omega
    rw [if_pos hlt, if_neg hge, show i - 1 + 1 = i by omega]
  · have hlt' : i < w := by omega
    rw [if_neg hlt, if_pos hlt']

/-- A step does without a wait what it does with it, unless it cancels that wait
before it is over. -/
theorem step_withoutWait {p : Provider} {w : Nat} (hw : w < p.waits.length) {s : Step}
    (hs : s = .cancelWait w → ¬ p.Waiting w) :
    (p.step s).1.withoutWait w = (p.withoutWait w).after ([s].filterMap (Step.withoutWait w)) := by
  cases s with
  | refresh d δ own => rfl
  | setEnv marker => rfl
  | cancel n => exact withoutWait_cancel p w n
  | wait =>
    ext1
    · rfl
    · show (p.waits ++ [p.newWait]).eraseIdx w = p.waits.eraseIdx w ++ [p.newWait]
      exact List.eraseIdx_append_of_lt_length hw _
    · rfl
    · rfl
  | release n =>
    cases h : p.inFlight? n with
    | none =>
      have h' : (p.withoutWait w).inFlight? n = none := h
      simp [step, h, h', Step.withoutWait]
    | some r =>
      have h' : (p.withoutWait w).inFlight? n = some r := h
      simp [step, h, h', Step.withoutWait, finish_fst, withoutWait_close]
  | cancelWait i =>
    by_cases hi : i = w
    · subst hi
      rw [step_cancelWait_of_not_waiting (hs rfl)]
      simp [Step.withoutWait]
    · have hplace := getElem?_withoutWait (p := p) hi
      simp only [List.filterMap_cons, List.filterMap_nil, Step.withoutWait, if_neg hi, after_cons,
        after_nil, step, hplace]
      cases hwait : p.waits[i]? with
      | none => rfl
      | some x =>
        obtain ⟨request, result⟩ := x
        cases result with
        | some result => rfl
        | none =>
          cases request with
          | none => rfl
          | some n => exact withoutWait_cancel p w n

/-- Whether every step that cancels a wait comes after the wait is over. -/
def CancelledOver (p : Provider) (w : Nat) (steps : List Step) : Prop :=
  ∀ first second, steps = first ++ .cancelWait w :: second → ¬ (p.after first).Waiting w

/-- A run does without a wait what it does with it, if that wait is cancelled only
once it is over. -/
theorem CancelledOver.after_withoutWait {p : Provider} {w : Nat} {steps : List Step}
    (h : p.CancelledOver w steps) (hw : w < p.waits.length) :
    (p.after steps).withoutWait w =
      (p.withoutWait w).after (steps.filterMap (Step.withoutWait w)) := by
  induction steps generalizing p with
  | nil => rfl
  | cons s rest ih =>
    have hs : s = .cancelWait w → ¬ p.Waiting w := by
      rintro rfl
      exact h [] rest rfl
    have hrest : (p.step s).1.CancelledOver w rest := by
      intro first second hsplit
      exact h (s :: first) second (by rw [hsplit]; rfl)
    have hlen : w < (p.step s).1.waits.length := Nat.lt_of_lt_of_le hw (waits_length_step p s)
    rw [after_cons, ih hrest hlen, step_withoutWait hw hs, ← after_append, ← List.filterMap_append]
    rfl

theorem CancelledOver.of_append {p : Provider} {w : Nat} {first second : List Step}
    (h : p.CancelledOver w (first ++ second)) : p.CancelledOver w first := by
  intro before rest hsplit
  exact h before (rest ++ second) (by simp [hsplit])

/-- A wait that is over stays so. -/
theorem not_waiting_after {p : Provider} {w : Nat} (hw : w < p.waits.length)
    (h : ¬ p.Waiting w) (steps : List Step) : ¬ (p.after steps).Waiting w := by
  obtain ⟨x', hx', -, hover⟩ := wait_after (List.getElem?_eq_getElem hw) steps
  rintro ⟨y, hy, hpending⟩
  rw [hx'] at hy
  cases hy
  have hx : p.waits[w].result ≠ none := fun hnone => h ⟨_, List.getElem?_eq_getElem hw, hnone⟩
  rw [hover hx] at hpending
  exact hx hpending

theorem cancelledOver_of_not_waiting {p : Provider} {w : Nat} (hw : w < p.waits.length)
    (h : ¬ p.Waiting w) (steps : List Step) : p.CancelledOver w steps :=
  fun first _ _ => not_waiting_after hw h first

/-! ## The run with a wait and the run without -/

/-- The index of a wait that begins after steps. -/
def waitIndex (env : Option String) (before : List Step) : Nat :=
  (reached env before).waits.length

/-- The provider after a wait began and further steps were taken. -/
def withWait (env : Option String) (before rest : List Step) : Provider :=
  reached env (before ++ .wait :: rest)

/-- The provider after the same steps, in the run in which that wait never began. -/
def withNoWait (env : Option String) (before rest : List Step) : Provider :=
  reached env ((before ++ rest).filterMap (Step.withoutWait (waitIndex env before)))

/-- Nobody but a wait itself can tell whether it ever began: every request has the same
outcome and every other wait the same result, and the outline that is kept is the same
after every step. -/
structure Isolated (env : Option String) (before rest : List Step) : Prop where
  outcomes : ∀ n, (withWait env before rest).outcome? n = (withNoWait env before rest).outcome? n
  results : ((withWait env before rest).waits.eraseIdx (waitIndex env before)).map (·.result) =
    (withNoWait env before rest).waits.map (·.result)
  kept : ∀ first second, rest = first ++ second →
    (withWait env before first).current = (withNoWait env before first).current

theorem withWait_append (env : Option String) (before first second : List Step) :
    withWait env before (first ++ second) = (withWait env before first).after second := by
  unfold withWait
  rw [← reached_append]
  simp

theorem withNoWait_append (env : Option String) (before first second : List Step) :
    withNoWait env before (first ++ second) =
      (withNoWait env before first).after
        (second.filterMap (Step.withoutWait (waitIndex env before))) := by
  unfold withNoWait
  rw [← reached_append, ← List.filterMap_append, List.append_assoc]

/-- As the wait begins, it is all that tells the runs apart. -/
theorem withoutWait_withWait_nil (env : Option String) (before : List Step) :
    (withWait env before []).withoutWait (waitIndex env before) = withNoWait env before [] := by
  have hbefore : withNoWait env before [] = reached env before := by
    unfold withNoWait
    rw [List.append_nil]
    exact after_filterMap_of_length_le (Nat.le_refl _)
  rw [hbefore, withWait, reached_concat]
  ext1
  · rfl
  · show ((reached env before).waits ++ [(reached env before).newWait]).eraseIdx _ = _
    rw [waitIndex, List.eraseIdx_append_of_length_le (Nat.le_refl _)]
    simp
  · rfl
  · rfl

theorem waitIndex_lt (env : Option String) (before rest : List Step) :
    waitIndex env before < (withWait env before rest).waits.length := by
  have hstart : waitIndex env before < (withWait env before []).waits.length := by
    rw [withWait, reached_concat]
    simp [waitIndex, step]
  rw [← List.nil_append rest, withWait_append]
  exact Nat.lt_of_lt_of_le hstart (waits_length_after _ _)

/-- As long as the wait is cancelled only once it is over, the runs stay the same. -/
theorem withoutWait_withWait {env : Option String} {before rest : List Step}
    (h : (withWait env before []).CancelledOver (waitIndex env before) rest) :
    (withWait env before rest).withoutWait (waitIndex env before) = withNoWait env before rest := by
  rw [← List.nil_append rest, withWait_append, withNoWait_append, ← withoutWait_withWait_nil]
  exact h.after_withoutWait (waitIndex_lt env before [])

/-- The wait is there throughout, for the request it began with. Once over, it keeps its
result. -/
theorem wait_withWait (env : Option String) (before rest : List Step) :
    ∃ w, (withWait env before rest).waits[waitIndex env before]? = some w ∧
      w.request = (reached env before).newWait.request ∧
      ((reached env before).newWait.result ≠ none → w = (reached env before).newWait) := by
  have hstart : (withWait env before []).waits[waitIndex env before]? =
      some (reached env before).newWait := by
    rw [withWait, reached_concat]
    simp [waitIndex, step]
  rw [← List.nil_append rest, withWait_append]
  exact wait_after hstart rest

theorem newWait_request (p : Provider) {n : Nat} (h : p.newWait.request = some n) :
    n = p.latest := by
  unfold newWait at h
  split at h
  · cases h
  · exact (Option.some.inj h).symm

/-- Cancelling the wait before it is over ends the request that was the newest as the
wait began. -/
theorem ends_of_waiting {env : Option String} {before first : List Step}
    (h : (withWait env before first).Waiting (waitIndex env before)) :
    (withWait env before first).Ends (.cancelWait (waitIndex env before))
      (reached env before).latest .cancelled := by
  obtain ⟨x, hx, hpending⟩ := h
  obtain ⟨n, hreq, hends⟩ := (linked_reached env _).ends_cancelWait hx hpending
  obtain ⟨x', hx', hreq', -⟩ := wait_withWait env before first
  rw [hx] at hx'
  cases hx'
  rw [hreq] at hreq'
  rw [← newWait_request _ hreq'.symm]
  exact hends

/-- Once cancelled, a wait is over. -/
theorem not_waiting_step_cancelWait {p : Provider} (hp : p.Linked) (w : Nat) :
    ¬ (p.step (.cancelWait w)).1.Waiting w := by
  rintro ⟨x', hx', hpending'⟩
  by_cases hwaiting : p.Waiting w
  · obtain ⟨x, hx, hpending⟩ := hwaiting
    obtain ⟨n, hreq, hends⟩ := hp.ends_cancelWait hx hpending
    rw [hends.step_eq, close, settle, List.getElem?_map, hx] at hx'
    cases hx'
    exact (deliver_result_eq_none.mp hpending').2 hreq
  · rw [step_cancelWait_of_not_waiting hwaiting] at hx'
    exact hwaiting ⟨x', hx', hpending'⟩

/-- Of several cancellations only the first can come before the wait is over. -/
theorem cancelledOver_of_waiting {env : Option String} {before first : List Step}
    (h : (withWait env before first).Waiting (waitIndex env before)) :
    (withWait env before []).CancelledOver (waitIndex env before) first := by
  rintro a b rfl -
  have hstep : withWait env before (a ++ .cancelWait (waitIndex env before) :: b) =
      ((withWait env before a).step (.cancelWait (waitIndex env before))).1.after b := by
    rw [withWait_append, after_cons]
  rw [hstep] at h
  refine not_waiting_after ?_ (not_waiting_step_cancelWait (linked_reached env _) _) b h
  exact Nat.lt_of_lt_of_le (waitIndex_lt env before a) (waits_length_step _ _)

/-- After the wait was cancelled before it was over, the run goes on as the other one
does once its request is cancelled there, unless that request finishes there. -/
theorem withoutWait_withWait_of_waiting {env : Option String} {before first second : List Step}
    (h : (withWait env before first).Waiting (waitIndex env before))
    (hnot : ∀ out, (withNoWait env before (first ++ .cancelWait (waitIndex env before) ::
      second)).outcome? (reached env before).latest = some out → out = .cancelled) :
    (withWait env before (first ++ .cancelWait (waitIndex env before) :: second)).withoutWait
        (waitIndex env before) =
      (withNoWait env before (first ++ .cancelWait (waitIndex env before) :: second)).cancel
        (reached env before).latest := by
  have hends := ends_of_waiting h
  obtain ⟨r, hr, hout⟩ := hends.inFlight
  have hsame : (withWait env before first).withoutWait (waitIndex env before) =
      withNoWait env before first := withoutWait_withWait (cancelledOver_of_waiting h)
  have hskip : withNoWait env before (first ++ .cancelWait (waitIndex env before) :: second) =
      (withNoWait env before first).after
        (second.filterMap (Step.withoutWait (waitIndex env before))) := by
    rw [withNoWait_append]
    simp [Step.withoutWait]
  have hstep : ((withWait env before first).step (.cancelWait (waitIndex env before))).1 =
      (withWait env before first).cancel (reached env before).latest := by
    rw [hends.step_eq, cancel_eq_close (inFlight?_eq_some.mpr ⟨hr, hout⟩)]
  have hover : ((withWait env before first).cancel (reached env before).latest).CancelledOver
      (waitIndex env before) second := by
    rw [← hstep]
    refine cancelledOver_of_not_waiting ?_ (not_waiting_step_cancelWait (linked_reached env _) _) _
    exact Nat.lt_of_lt_of_le (waitIndex_lt env before first) (waits_length_step _ _)
  have hlen : waitIndex env before <
      ((withWait env before first).cancel (reached env before).latest).waits.length := by
    rw [← hstep]
    exact Nat.lt_of_lt_of_le (waitIndex_lt env before first) (waits_length_step _ _)
  have hlatest : (reached env before).latest ≤ (withNoWait env before first).latest := by
    rw [← hsame]
    exact hends.bounds.2
  rw [hskip] at hnot ⊢
  rw [withWait_append, after_cons, hstep, hover.after_withoutWait hlen, withoutWait_cancel, hsame,
    cancel_after hlatest hnot]

/-- What the runs agree on while the wait is all that tells them apart. -/
theorem isolated_of_same {env : Option String} {before rest : List Step}
    (hsame : (withWait env before rest).withoutWait (waitIndex env before) =
      withNoWait env before rest)
    (hkept : ∀ first second, rest = first ++ second →
      (withWait env before first).current = (withNoWait env before first).current) :
    Isolated env before rest := by
  refine ⟨fun n => ?_, ?_, hkept⟩
  · rw [← hsame]
    rfl
  · rw [← hsame]
    rfl

theorem inFlight?_of_outcome? {p : Provider} {n : Nat} {out : Outcome}
    (h : p.outcome? n = some out) : p.inFlight? n = none := by
  obtain ⟨r, hr, hout⟩ := Option.bind_eq_some_iff.mp h
  simp [inFlight?, hr, hout]

/-- A request that ends cancelled either way hides that a wait took it along. -/
theorem isolated_of_outcome?_cancelled {env : Option String} {before first second : List Step}
    (hwaiting : (withWait env before first).Waiting (waitIndex env before))
    (hcancelled : (withNoWait env before (first ++ .cancelWait (waitIndex env before) ::
      second)).outcome? (reached env before).latest = some .cancelled) :
    Isolated env before (first ++ .cancelWait (waitIndex env before) :: second) := by
  have hnot : ∀ mid more, second = mid ++ more → ∀ out,
      (withNoWait env before (first ++ .cancelWait (waitIndex env before) :: mid)).outcome?
        (reached env before).latest = some out → out = .cancelled := by
    rintro mid more rfl out hout
    rw [← List.cons_append, ← List.append_assoc, withNoWait_append,
      outcome?_after hout] at hcancelled
    exact Option.some.inj hcancelled
  refine isolated_of_same ?_ fun a b hsplit => ?_
  · rw [withoutWait_withWait_of_waiting hwaiting (hnot second [] (by simp)),
      cancel_of_not_inFlight (inFlight?_of_outcome? hcancelled)]
  · -- a stretch of the run stops before that cancellation, or goes past it
    rcases List.append_eq_append_iff.mp hsplit with ⟨c, rfl, htail⟩ | ⟨c, rfl, -⟩
    · cases c with
      | nil =>
        rw [List.append_nil, ← withoutWait_withWait (cancelledOver_of_waiting hwaiting)]
        rfl
      | cons s c =>
        cases htail
        have hsame := withoutWait_withWait_of_waiting hwaiting (hnot c b rfl)
        show ((withWait env before _).withoutWait (waitIndex env before)).current = _
        rw [hsame, current_cancel]
    · rw [← withoutWait_withWait (cancelledOver_of_waiting hwaiting).of_append]
      rfl

/-- **Cancelling one wait.** Nobody else notices a wait exactly if every cancellation of
it comes after it is over, or the request it is for ends cancelled without it too. -/
theorem wait_isolated_iff (env : Option String) (before rest : List Step) :
    Isolated env before rest ↔
      (withWait env before []).CancelledOver (waitIndex env before) rest ∨
      (withNoWait env before rest).outcome? (reached env before).latest = some .cancelled := by
  by_cases hover : (withWait env before []).CancelledOver (waitIndex env before) rest
  · refine ⟨fun _ => .inl hover, fun _ => ?_⟩
    refine isolated_of_same (withoutWait_withWait hover) fun first second hsplit => ?_
    subst hsplit
    rw [← withoutWait_withWait hover.of_append]
    rfl
  · have hnot := hover
    unfold CancelledOver at hnot
    push Not at hnot
    obtain ⟨first, second, rfl, hwaiting⟩ := hnot
    rw [← withWait_append, List.nil_append] at hwaiting
    constructor
    · -- the request was cancelled with the wait, and keeps that outcome to the end
      intro hiso
      have hends := ends_of_waiting hwaiting
      rw [← hiso.outcomes, withWait_append, after_cons, hends.step_eq]
      exact .inr (outcome?_after hends.outcome?_close second)
    · intro h
      exact isolated_of_outcome?_cancelled hwaiting (h.resolve_left hover)

/-- Two waits for one request, the first of which is cancelled before the request is
released: the other run outlines the request, this one cancels it. -/
theorem not_isolated_of_two_waits :
    ¬ Isolated none [.refresh ⟨"", "typescript", none⟩ (.ofUnit {}) none]
      [.wait, .cancelWait 0, .release 1] := by
  intro hiso
  have h := hiso.outcomes 1
  revert h
  decide

end Provider

end CodeOutline
