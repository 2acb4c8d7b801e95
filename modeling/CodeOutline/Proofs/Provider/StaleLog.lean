import CodeOutline.Proofs.Notes
import CodeOutline.Proofs.Provider.OwnRequest

/-!
# The log of requests that came too late

A request that ends after a newer one was made has its outline or its failure thrown away,
and the log tells so. Read against the history of a run, the log accounts for every such
request once, in the order in which they ended, and for no other.
-/

namespace CodeOutline

/-- The request that a note tells to have come too late. -/
def Note.staleRequest? : Note → Option Nat
  | .staleOutline request _ | .staleFailure request _ => some request
  | .unparsableRegion _ | .ignoredStatement _ | .ambiguousIdentifier _ _
  | .skippedDeclaration _ | .skippedImport _ => none

/-- The end of a request: its number, how it ended, and how many requests had been made by
then. -/
structure Ending where
  request : Nat
  outcome : Outcome
  made : Nat

namespace Ending

/-- Whether a request ended after a newer one was made, and was not cancelled. -/
def IsStale (e : Ending) : Prop :=
  e.request < e.made ∧ e.outcome ≠ .cancelled

/-- What is told of an ending, once it is said how to tell of an outline and of a failure that
came too late. Of any other ending nothing is told. -/
def tell {α : Type} (e : Ending) (outline : (request latest : Nat) → α)
    (failure : (request : Nat) → Fault → α) : Option α :=
  if e.request < e.made then
    match e.outcome with
    | .outlined _ => some (outline e.request e.made)
    | .failed fault => some (failure e.request fault)
    | .cancelled => none
  else none

/-- What the log is to tell of an ending. -/
def record? (e : Ending) : Option String :=
  e.tell
    (fun request latest =>
      "Discarding stale outline " ++ toString request ++ " (latest is " ++ toString latest ++ ")")
    fun request fault =>
      "Discarding failed stale outline " ++ toString request ++ ": " ++ fault.shown

/-- The note for what the log is to tell. -/
def note? (e : Ending) : Option Note :=
  e.tell .staleOutline .staleFailure

theorem tell_map {α β : Type} (e : Ending) (f : α → β) (outline : Nat → Nat → α)
    (failure : Nat → Fault → α) :
    (e.tell outline failure).map f =
      e.tell (fun request latest => f (outline request latest))
        fun request fault => f (failure request fault) := by
  unfold tell
  split
  · cases e.outcome <;> rfl
  · rfl

/-- The log is told with the messages of the notes. -/
theorem record?_eq (e : Ending) : e.record? = e.note?.map Note.message :=
  (e.tell_map Note.message .staleOutline .staleFailure).symm

theorem isStale_of_note? {e : Ending} {note : Note} (h : e.note? = some note) :
    note.isStale = true := by
  unfold note? tell at h
  split at h
  · split at h <;> cases h <;> rfl
  · cases h

theorem staleRequest?_note? {e : Ending} {n : Nat} :
    e.note?.bind Note.staleRequest? = some n ↔ e.request = n ∧ e.IsStale := by
  unfold note? tell IsStale
  by_cases h : e.request < e.made
  · cases e.outcome <;> simp [h, Note.staleRequest?]
  · simp [h]

end Ending

namespace Provider

/-! ## The history of a run -/

/-- Whether a step makes a request. -/
def isRefresh : Step → Bool
  | .refresh _ _ _ => true
  | .release _ | .cancel _ | .wait | .cancelWait _ | .setEnv _ => false

/-- How many requests steps make. -/
def refreshes (steps : List Step) : Nat := steps.countP isRefresh

/-- The endings in the course of steps, in the order in which they come: at each step, of
the requests that have an outcome after it and had none before it. -/
def endings (env : Option String) (steps : List Step) : List Ending :=
  (List.range steps.length).flatMap fun i =>
    ((reached env (steps.take i)).endedSince (reached env (steps.take (i + 1)))).map
      fun e => ⟨e.1, e.2, refreshes (steps.take i)⟩

/-- The notes that steps leave from the start, in an environment. -/
def notes (env : Option String) (steps : List Step) : List Note :=
  (({ env := env } : Provider).run steps).2

/-- What the provider's own notes say. -/
def log (env : Option String) (steps : List Step) : List String :=
  ((notes env steps).filter Note.isStale).map Note.message

theorem endings_concat (env : Option String) (steps : List Step) (s : Step) :
    endings env (steps ++ [s]) = endings env steps ++
      ((reached env steps).endedSince (reached env (steps ++ [s]))).map
        fun e => ⟨e.1, e.2, refreshes steps⟩ := by
  have hlen : (steps ++ [s]).length = steps.length + 1 := by simp
  rw [endings, hlen, List.range_succ, List.flatMap_append, List.flatMap_singleton,
    List.take_left, ← hlen, List.take_length]
  congr 1
  -- the steps before the last are those of the shorter run
  apply List.flatMap_congr
  intro i hi
  have hlt := List.mem_range.mp hi
  rw [List.take_append_of_le_length (by omega), List.take_append_of_le_length (by omega)]

theorem run_concat (p : Provider) (steps : List Step) (s : Step) :
    (p.run (steps ++ [s])).2 = (p.run steps).2 ++ ((p.after steps).step s).2 := by
  induction steps generalizing p with
  | nil =>
    show (p.step s).2 ++ [] = [] ++ (p.step s).2
    simp
  | cons first rest ih =>
    show (p.step first).2 ++ ((p.step first).1.run (rest ++ [s])).2 = _
    rw [ih, ← List.append_assoc]
    rfl

theorem notes_concat (env : Option String) (steps : List Step) (s : Step) :
    notes env (steps ++ [s]) = notes env steps ++ ((reached env steps).step s).2 :=
  run_concat _ steps s

theorem latest_step (p : Provider) (s : Step) :
    (p.step s).1.latest = p.latest + if isRefresh s then 1 else 0 := by
  have heff := p.effect_step s
  generalize (p.step s).1 = q at heff ⊢
  cases heff with
  | issued d δ own => simp [isRefresh]
  | waiting => rfl
  | moved marker => rfl
  | ended h => cases h <;> simp [isRefresh]
  | idle hs => cases s <;> simp_all [isRefresh, aims]

/-- The number of the newest request is the number of refreshes so far. -/
theorem latest_reached (env : Option String) (steps : List Step) :
    (reached env steps).latest = refreshes steps := by
  induction steps using List.reverseRecOn with
  | nil => rfl
  | append_singleton steps s ih =>
    rw [reached_concat, latest_step, ih, refreshes, refreshes, List.countP_append]
    simp [List.countP_cons]

/-! ## Requests that end at a step -/

theorem mem_ended {p : Provider} {n : Nat} {out : Outcome} :
    (n, out) ∈ p.ended ↔ p.outcome? n = some out := by
  unfold ended outcome? request?
  rw [List.mem_filterMap]
  constructor
  · rintro ⟨⟨r, i⟩, hmem, hout⟩
    obtain ⟨out', hr, heq⟩ := Option.map_eq_some_iff.mp hout
    cases heq
    have hget := List.mem_zipIdx_iff_getElem?.mp hmem
    simpa [hget] using hr
  · intro h
    split at h
    · cases h
    · rename_i hn
      obtain ⟨r, hr, hout⟩ := Option.bind_eq_some_iff.mp h
      refine ⟨(r, n - 1), List.mem_zipIdx_iff_getElem?.mpr hr, ?_⟩
      show r.outcome.map (fun outcome => (n - 1 + 1, outcome)) = some (n, out)
      rw [hout, Option.map_some, Nat.sub_add_cancel (by omega)]

theorem nodup_ended (p : Provider) : p.ended.Nodup := by
  have hindices : (p.requests.zipIdx.map Prod.snd).Nodup := by
    rw [List.zipIdx_map_snd]
    exact List.nodup_range'
  rw [ended, List.Nodup, List.pairwise_filterMap]
  refine (List.pairwise_map.mp hindices).imp ?_
  rintro ⟨r, i⟩ ⟨r', i'⟩ hne _ hout _ hout' rfl
  obtain ⟨_, -, rfl⟩ := Option.map_eq_some_iff.mp hout
  obtain ⟨_, -, heq⟩ := Option.map_eq_some_iff.mp hout'
  exact hne (Nat.succ.inj (congrArg Prod.fst heq)).symm

theorem mem_endedSince {p q : Provider} {n : Nat} {out : Outcome} :
    (n, out) ∈ p.endedSince q ↔ q.outcome? n = some out ∧ p.outcome? n = none := by
  have hold : n ∈ p.ended.map Prod.fst ↔ p.outcome? n ≠ none := by
    rw [List.mem_map, Option.ne_none_iff_exists']
    constructor
    · rintro ⟨⟨m, out'⟩, hmem, rfl⟩
      exact ⟨out', mem_ended.mp hmem⟩
    · rintro ⟨out', hout'⟩
      exact ⟨(n, out'), mem_ended.mpr hout', rfl⟩
  rw [endedSince, List.mem_filter, mem_ended]
  simp only [Bool.not_eq_true', List.contains_eq_mem, decide_eq_false_iff_not, hold, not_not]

theorem nodup_endedSince (p q : Provider) : (p.endedSince q).Nodup :=
  (nodup_ended q).filter _

theorem Ends.endedSince_step {p : Provider} {s : Step} {n : Nat} {out : Outcome}
    (h : p.Ends s n out) : p.endedSince (p.step s).1 = [(n, out)] := by
  rw [← List.perm_singleton, List.perm_ext_iff_of_nodup (nodup_endedSince _ _) (by simp)]
  rintro ⟨k, out'⟩
  rw [mem_endedSince, h.step_eq, List.mem_singleton]
  by_cases hk : k = n
  · subst hk
    simp [h.outcome?_close, h.outcome?_eq_none, eq_comm]
  · rw [outcome?_close_of_ne h.bounds.1 hk]
    simp only [Prod.mk.injEq, hk, false_and, iff_false]
    rintro ⟨hsome, hnone⟩
    simp [hsome] at hnone

theorem endedSince_step_eq_nil {p : Provider} {s : Step} (h : ∀ n out, ¬ p.Ends s n out) :
    p.endedSince (p.step s).1 = [] := by
  rw [List.eq_nil_iff_forall_not_mem]
  rintro ⟨n, out⟩ hmem
  obtain ⟨hsome, hnone⟩ := mem_endedSince.mp hmem
  rcases p.outcome?_step s n with hsame | ⟨out', hends, -⟩
  · rw [hsame, hnone] at hsome
    cases hsome
  · exact h n out' hends

/-- At most one request ends at a step. -/
theorem endedSince_step_cases (p : Provider) (s : Step) :
    (∃ n out, p.Ends s n out ∧ p.endedSince (p.step s).1 = [(n, out)]) ∨
      (∀ n out, ¬ p.Ends s n out) ∧ p.endedSince (p.step s).1 = [] := by
  by_cases h : ∃ n out, p.Ends s n out
  · obtain ⟨n, out, hends⟩ := h
    exact .inl ⟨n, out, hends, hends.endedSince_step⟩
  · have hno : ∀ n out, ¬ p.Ends s n out := fun n out hends => h ⟨n, out, hends⟩
    exact .inr ⟨hno, endedSince_step_eq_nil hno⟩

/-! ## Notes of a step -/

/-- A request that finishes leaves the notes about its text, and then that of its ending. -/
theorem finish_snd {p : Provider} {n : Nat} {r : Request} (hn : n ≤ p.latest) :
    (p.finish n r).2 =
      r.outline.notes ++ (Ending.note? ⟨n, r.ending, p.latest⟩).toList := by
  have hstale : n < p.latest ↔ n ≠ p.latest := by omega
  unfold finish Request.ending Ending.note? Ending.tell
  cases hres : r.outline.result with
  | ok o => by_cases h : n = p.latest <;> simp [hres, h, hstale]
  | error fault => by_cases h : n = p.latest <;> simp [hres, h, hstale]

theorem filter_isStale_finish {p : Provider} {n : Nat} {r : Request} (hn : n ≤ p.latest) :
    (p.finish n r).2.filter Note.isStale = (Ending.note? ⟨n, r.ending, p.latest⟩).toList := by
  have htext : r.outline.notes.filter Note.isStale = [] := by
    rw [List.filter_eq_nil_iff]
    intro note hnote
    simp [r.aboutText_outline note hnote]
  rw [finish_snd hn, List.filter_append, htext, List.nil_append, List.filter_eq_self]
  intro note hnote
  exact Ending.isStale_of_note? (Option.mem_toList.mp hnote)

theorem Ends.filter_isStale_step {p : Provider} {s : Step} {n : Nat} {out : Outcome}
    (h : p.Ends s n out) :
    (p.step s).2.filter Note.isStale = (Ending.note? ⟨n, out, p.latest⟩).toList := by
  have hn := h.bounds.2
  cases h with
  | release flying =>
    simp only [step, flying]
    exact filter_isStale_finish hn
  | cancel flying => simp [step, Ending.note?, Ending.tell]
  | cancelWait there pending bound flying =>
    simp [step, there, pending, bound, Ending.note?, Ending.tell]

theorem notes_step_eq_nil {p : Provider} {s : Step} (h : ∀ n out, ¬ p.Ends s n out) :
    (p.step s).2 = [] := by
  cases s with
  | release n =>
    cases hfly : p.inFlight? n with
    | none => simp [step, hfly]
    | some r => exact absurd (.release hfly) (h n r.ending)
  | cancelWait i =>
    simp only [step]
    split
    · split <;> rfl
    · rfl
  | refresh d δ own => rfl
  | cancel n => rfl
  | wait => rfl
  | setEnv marker => rfl

/-- What the provider notes at a step is for the requests that end there. -/
theorem filter_isStale_step (p : Provider) (s : Step) :
    (p.step s).2.filter Note.isStale =
      (p.endedSince (p.step s).1).filterMap fun e => Ending.note? ⟨e.1, e.2, p.latest⟩ := by
  rcases p.endedSince_step_cases s with ⟨n, out, hends, hended⟩ | ⟨hno, hended⟩
  · rw [hends.filter_isStale_step, hended]
    cases hnote : Ending.note? ⟨n, out, p.latest⟩ <;> simp [hnote]
  · rw [notes_step_eq_nil hno, hended]
    rfl

/-! ## The whole run -/

/-- In every run, the provider's own notes are those of the endings, in their order: what it
notes at a step is for the requests that end there. -/
theorem filter_isStale_notes (env : Option String) (steps : List Step) :
    (notes env steps).filter Note.isStale = (endings env steps).filterMap Ending.note? := by
  induction steps using List.reverseRecOn with
  | nil => rfl
  | append_singleton steps s ih =>
    rw [notes_concat, List.filter_append, ih, filter_isStale_step, endings_concat,
      List.filterMap_append, List.filterMap_map, latest_reached, reached_concat]
    rfl

/-- Every ending has its step in the history: before it the request had no outcome, and
after it has one. -/
theorem mem_endings_iff {env : Option String} {steps : List Step} {e : Ending} :
    e ∈ endings env steps ↔ ∃ before s rest, steps = before ++ s :: rest ∧
      e.made = refreshes before ∧ (reached env before).outcome? e.request = none ∧
      (reached env (before ++ [s])).outcome? e.request = some e.outcome := by
  rw [endings, List.mem_flatMap]
  constructor
  · rintro ⟨i, hi, hmem⟩
    have hlt := List.mem_range.mp hi
    obtain ⟨⟨n, out⟩, hended, rfl⟩ := List.mem_map.mp hmem
    obtain ⟨hsome, hnone⟩ := mem_endedSince.mp hended
    refine ⟨steps.take i, steps[i], steps.drop (i + 1), ?_, rfl, hnone, ?_⟩
    · rw [List.getElem_cons_drop, List.take_append_drop]
    · rw [List.take_append_getElem]
      exact hsome
  · rintro ⟨before, s, rest, rfl, hmade, hnone, hsome⟩
    refine ⟨before.length, List.mem_range.mpr (by simp), List.mem_map.mpr ?_⟩
    have hbefore : (before ++ s :: rest).take before.length = before := List.take_left
    have hstep : (before ++ s :: rest).take (before.length + 1) = before ++ [s] := by
      rw [List.take_length_add_append]
      rfl
    rw [hbefore, hstep]
    exact ⟨(e.request, e.outcome), mem_endedSince.mpr ⟨hsome, hnone⟩, by rw [← hmade]⟩

theorem bounds_of_mem_endings {env : Option String} {steps : List Step} {e : Ending}
    (h : e ∈ endings env steps) : 0 < e.request ∧ e.request ≤ e.made := by
  obtain ⟨before, s, rest, -, hmade, hnone, hsome⟩ := mem_endings_iff.mp h
  rw [reached_concat] at hsome
  rcases (reached env before).outcome?_step s e.request with hsame | ⟨out, hends, -⟩
  · rw [hsame, hnone] at hsome
    cases hsome
  · rw [hmade, ← latest_reached env before]
    exact hends.bounds

/-- The requests that have ended are those with an ending. -/
theorem outcome?_reached_iff {env : Option String} {steps : List Step} {n : Nat} {out : Outcome} :
    (reached env steps).outcome? n = some out ↔ ∃ m, ⟨n, out, m⟩ ∈ endings env steps := by
  constructor
  · intro h
    obtain ⟨before, s, rest, hsteps, hnone, hends⟩ := exists_step_of_outcome? h
    refine ⟨refreshes before, mem_endings_iff.mpr ⟨before, s, rest, hsteps, rfl, hnone, ?_⟩⟩
    rw [reached_concat, hends.step_eq, hends.outcome?_close]
  · rintro ⟨m, hmem⟩
    obtain ⟨before, s, rest, rfl, -, -, hsome⟩ := mem_endings_iff.mp hmem
    rw [show before ++ s :: rest = (before ++ [s]) ++ rest by simp, reached_append]
    exact outcome?_after hsome rest

/-- The release of a request that was made and has not ended is its ending. -/
theorem endings_release {env : Option String} {steps : List Step} {n : Nat} {r : Request}
    (hn : 0 < n) (hr : (issues env steps)[n - 1]? = some r)
    (hnone : (reached env steps).outcome? n = none) :
    endings env (steps ++ [.release n]) =
      endings env steps ++ [⟨n, r.ending, refreshes steps⟩] := by
  rw [← made_reached, List.getElem?_map, Option.map_eq_some_iff] at hr
  obtain ⟨r', hr', rfl⟩ := hr
  have hthere : (reached env steps).request? n = some r' := by
    rw [request?, if_neg (Nat.ne_of_gt hn), hr']
  have hout : r'.outcome = none := by
    rw [outcome?, hthere] at hnone
    exact hnone
  have hends := Ends.release (inFlight?_eq_some.mpr ⟨hthere, hout⟩)
  rw [endings_concat, reached_concat, hends.endedSince_step]
  rfl

/-- No request ends twice. -/
theorem nodup_endings (env : Option String) (steps : List Step) :
    ((endings env steps).map Ending.request).Nodup := by
  induction steps using List.reverseRecOn with
  | nil => exact .nil
  | append_singleton steps s ih =>
    rw [endings_concat, List.map_append, List.map_map, reached_concat]
    rcases (reached env steps).endedSince_step_cases s with ⟨n, out, hends, hnow⟩ | ⟨-, hnow⟩
    · rw [hnow]
      refine List.nodup_append.mpr ⟨ih, by simp, ?_⟩
      -- a request that ends now has not ended before
      intro k hold k' hnew hsame
      rw [List.map_singleton, List.mem_singleton] at hnew
      rw [hsame, hnew] at hold
      obtain ⟨e, hmem, hrequest⟩ := List.mem_map.mp hold
      have hended : (reached env steps).outcome? e.request = some e.outcome :=
        outcome?_reached_iff.mpr ⟨e.made, hmem⟩
      rw [show e.request = n from hrequest, hends.outcome?_eq_none] at hended
      cases hended
    · rw [hnow, List.map_nil, List.append_nil]
      exact ih

/-! ## Records -/

/-- The requests that the log tells of, record by record. -/
def told (env : Option String) (steps : List Step) : List Nat :=
  (notes env steps).filterMap Note.staleRequest?

theorem told_eq (env : Option String) (steps : List Step) :
    told env steps = (endings env steps).filterMap fun e => e.note?.bind Note.staleRequest? := by
  have hown : (notes env steps).filterMap Note.staleRequest? =
      ((notes env steps).filter Note.isStale).filterMap Note.staleRequest? := by
    rw [List.filterMap_filter]
    congr 1
    funext note
    cases note <;> rfl
  rw [told, hown, filter_isStale_notes, List.filterMap_filterMap]

theorem mem_told_iff {env : Option String} {steps : List Step} {n : Nat} :
    n ∈ told env steps ↔ ∃ e ∈ endings env steps, e.request = n ∧ e.IsStale := by
  rw [told_eq, List.mem_filterMap]
  simp only [Ending.staleRequest?_note?]

theorem nodup_told (env : Option String) (steps : List Step) : (told env steps).Nodup := by
  rw [told_eq, List.Nodup, List.pairwise_filterMap]
  refine (List.pairwise_map.mp (nodup_endings env steps)).imp ?_
  intro e e' hne n hn n' hn' heq
  obtain ⟨hrequest, -⟩ := Ending.staleRequest?_note?.mp hn
  obtain ⟨hrequest', -⟩ := Ending.staleRequest?_note?.mp hn'
  exact hne (by rw [hrequest, hrequest', heq])

theorem log_eq (env : Option String) (steps : List Step) :
    log env steps = (endings env steps).filterMap Ending.record? := by
  rw [log, filter_isStale_notes, List.map_filterMap]
  congr 1
  funext e
  exact e.record?_eq.symm

/-! ## After the end -/

/-- A release, a cancellation and the cancellation of a wait do nothing to a request that
has ended. -/
structure Settled (p : Provider) (number : Nat) : Prop where
  release : p.step (.release number) = (p, [])
  cancel : p.step (.cancel number) = (p, [])
  cancelWait : ∀ (index : Nat) (w : Wait), p.waits[index]? = some w → w.request = some number →
    p.step (.cancelWait index) = (p, [])

theorem settled_of_outcome? {p : Provider} {n : Nat} {out : Outcome}
    (h : p.outcome? n = some out) : p.Settled n := by
  have hover : p.inFlight? n = none := by
    obtain ⟨r, hr, hout⟩ := Option.bind_eq_some_iff.mp h
    simp [inFlight?, hr, hout]
  refine ⟨by simp [step, hover], by simp [step, cancel_of_not_inFlight hover], ?_⟩
  intro i w hw hrequest
  simp only [step, hw, hrequest]
  cases w.result with
  | none =>
    show (p.cancel n, []) = (p, [])
    rw [cancel_of_not_inFlight hover]
  | some result => rfl

/-! ## The account -/

/-- How the log of a run accounts for the requests that came too late. -/
structure AccountsForStale (env : Option String) (steps : List Step) : Prop where
  /-- The log has the records of the endings, in the order of the endings. -/
  log_eq : log env steps = (endings env steps).filterMap Ending.record?
  /-- It tells of the requests that ended stale, and of no other. -/
  told_iff : ∀ n, n ∈ told env steps ↔ ∃ e ∈ endings env steps, e.request = n ∧ e.IsStale
  /-- It tells of each of them once. -/
  told_once : (told env steps).Nodup
  /-- An ending stands for a step at which a request got its outcome. -/
  ending_iff : ∀ e, e ∈ endings env steps ↔ ∃ before s rest, steps = before ++ s :: rest ∧
    e.made = refreshes before ∧ (reached env before).outcome? e.request = none ∧
    (reached env (before ++ [s])).outcome? e.request = some e.outcome
  /-- Only requests that were made end. -/
  bounds : ∀ e ∈ endings env steps, 0 < e.request ∧ e.request ≤ e.made
  /-- A request ends as its own refresh has it, with its outline or its fault, unless a step
  cancelled it. -/
  ending_eq : ∀ e ∈ endings env steps, ∃ r, (issues env steps)[e.request - 1]? = some r ∧
    (e.outcome = r.ending ∨
      e.outcome = .cancelled ∧ ∃ s ∈ steps, (reached env steps).Cancels e.request s)
  /-- The release of a request that was made and has not ended is its ending. -/
  release_ends : ∀ n r, 0 < n → (issues env steps)[n - 1]? = some r →
    (reached env steps).outcome? n = none →
    endings env (steps ++ [.release n]) = endings env steps ++ [⟨n, r.ending, refreshes steps⟩]
  /-- A request without an ending is in flight. -/
  ended_iff : ∀ n out, (reached env steps).outcome? n = some out ↔
    ∃ m, ⟨n, out, m⟩ ∈ endings env steps
  /-- No request ends twice. -/
  ended_once : ((endings env steps).map Ending.request).Nodup
  /-- Nothing that is done to a request after its end has an effect. -/
  settled : ∀ n out, (reached env steps).outcome? n = some out → (reached env steps).Settled n

/-- **Every stale request is accounted for once.** In every run, the log has one record for
each request that ended, and not by cancellation, after a newer one was made, in the order
in which these requests ended, and no other record. How a request ended is told by its own
refresh, and the release of one that has not ended ends it. -/
theorem accountsForStale (env : Option String) (steps : List Step) :
    AccountsForStale env steps where
  log_eq := log_eq env steps
  told_iff _ := mem_told_iff
  told_once := nodup_told env steps
  ending_iff _ := mem_endings_iff
  bounds _ h := bounds_of_mem_endings h
  ending_eq e h := ending_or_cancelled (outcome?_reached_iff.mpr ⟨e.made, h⟩)
  release_ends _ _ hn hr hnone := endings_release hn hr hnone
  ended_iff _ _ := outcome?_reached_iff
  ended_once := nodup_endings env steps
  settled _ _ h := settled_of_outcome? h

/-- Three requests: the second is outlined and the first fails once the third was made, the
second is released again, and the third is cancelled. -/
def lateSteps : List Step :=
  [.refresh { text := "" } (.failure "no") none, .refresh { text := "" } (.ofUnit {}) none,
    .refresh { text := "" } (.ofUnit {}) none, .release 2, .release 1, .release 2, .cancel 3]

/-- The log of that run tells of the second request and then of the first. -/
theorem accountsForStale_late :
    (endings none lateSteps).filterMap Ending.record? =
      ["Discarding stale outline 2 (latest is 3)",
        "Discarding failed stale outline 1: RuntimeError('no')"] ∧
    (∃ e ∈ endings none lateSteps, e.request = 1 ∧ e.IsStale) ∧
    ¬ ∃ e ∈ endings none lateSteps, e.request = 3 ∧ e.IsStale := by
  have haccount := accountsForStale none lateSteps
  refine ⟨?_, ?_, ?_⟩
  · rw [← haccount.log_eq]
    decide +kernel
  · rw [← haccount.told_iff]
    decide +kernel
  · rw [← haccount.told_iff]
    decide +kernel

end Provider

end CodeOutline
