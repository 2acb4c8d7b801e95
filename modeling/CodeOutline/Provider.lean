import CodeOutline.Declaration.OfNode
import CodeOutline.Outline

/-!
# Outline provider

Keeps the outline of the document that was asked for last. Requests are numbered
from one in the order in which they are made, and may finish in any order. A
finished outline is kept only if no newer request was made meanwhile, so that a
slow old one never takes the place of a newer one. Whoever waits gets the outcome
of the request that was the newest when the wait began.
-/

namespace CodeOutline

/-- What a parser delivers for a text: what the text declares, a syntax tree to
read that from, or a failure. -/
inductive Delivery where
  | ofUnit (unit : SourceUnit)
  | ofTree (tree : Node)
  | failure (reason : String)

/-- What a delivery says that a text declares. -/
def Delivery.sourceUnit (text : String) : Delivery → Traced SourceUnit
  | .ofUnit unit => pure unit
  | .ofTree tree => SourceUnit.ofTree text tree
  | .failure reason => Traced.lift (.error (.parserFailed reason))

/-- How a request ended. -/
inductive Outcome where
  | outlined (outline : Outline)
  | failed (fault : Fault)
  | cancelled
deriving Repr, DecidableEq

/-- A request for the outline of a document, with the configuration read when it
was made. Without outcome it is in flight. -/
structure Request where
  document : Document
  config : Config
  delivery : Delivery
  outcome : Option Outcome := none

/-- The outline that a request is for. -/
def Request.outline (r : Request) : Traced Outline := do
  let unit ← r.delivery.sourceUnit r.document.text
  Outline.ofUnit r.document r.config unit

/-- A wait for the request of a number, or for none if none was made. -/
structure Wait where
  request : Option Nat
  /-- What the wait got. Where no request was made it got nothing. -/
  result : Option (Option Outcome) := none

/-- The state of a provider. -/
structure Provider where
  /-- All requests, oldest first. -/
  requests : List Request := []
  /-- All waits, oldest first. -/
  waits : List Wait := []
  /-- The outline that is kept. -/
  current : Option Outline := none
  /-- The marker that the environment asks for. -/
  env : Option String := none

/-- What can happen to a provider. Requests are given by number, waits by index. A
refresh may bring a configuration of its own; else that of the environment is read. -/
inductive Step where
  | refresh (document : Document) (delivery : Delivery) (own : Option Config)
  | release (request : Nat)
  | cancel (request : Nat)
  | wait
  | cancelWait (index : Nat)
  | setEnv (marker : Option String)

namespace Provider

/-- The number of the newest request, zero if there is none. -/
def latest (p : Provider) : Nat := p.requests.length

/-- The request of a number. -/
def request? (p : Provider) (number : Nat) : Option Request :=
  if number = 0 then none else p.requests[number - 1]?

/-- The request of a number, if it is in flight. -/
def inFlight? (p : Provider) (number : Nat) : Option Request :=
  (p.request? number).filter (·.outcome.isNone)

/-- The wait with its result, if it waits for the request of this number. -/
def deliver (number : Nat) (outcome : Outcome) (w : Wait) : Wait :=
  if w.result.isNone && w.request == some number then { w with result := some (some outcome) }
  else w

/-- Ends a request and all waits for it. -/
def settle (p : Provider) (number : Nat) (outcome : Outcome) : Provider :=
  { p with
    requests := p.requests.modify (number - 1) fun r => { r with outcome := some outcome }
    waits := p.waits.map (deliver number outcome) }

/-- Lets a request in flight finish. Its outline is kept if it is the newest. -/
def finish (p : Provider) (number : Nat) (r : Request) : Provider × List Note :=
  let stale := number ≠ p.latest
  let extracted := r.outline
  match extracted.result with
  | .ok outline =>
      let settled := p.settle number (.outlined outline)
      if stale then (settled, extracted.notes ++ [.staleOutline number p.latest])
      else ({ settled with current := some outline }, extracted.notes)
  | .error fault =>
      (p.settle number (.failed fault),
        if stale then extracted.notes ++ [.staleFailure number fault] else extracted.notes)

/-- Cancels a request that is in flight. -/
def cancel (p : Provider) (number : Nat) : Provider :=
  match p.inFlight? number with
  | some _ => p.settle number .cancelled
  | none => p

/-- A wait for the newest request, over at once if there is none or it has
ended. -/
def newWait (p : Provider) : Wait :=
  match p.request? p.latest with
  | none => { request := none, result := some none }
  | some r => { request := some p.latest, result := r.outcome.map some }

/-- The provider after a step, and the notes that the step leaves. -/
def step (p : Provider) : Step → Provider × List Note
  | .refresh document delivery own =>
      let r : Request := { document, config := Config.orEnv own p.env, delivery }
      ({ p with requests := p.requests ++ [r] }, [])
  | .release number =>
      match p.inFlight? number with
      | some r => p.finish number r
      | none => (p, [])
  | .cancel number => (p.cancel number, [])
  | .wait => ({ p with waits := p.waits ++ [p.newWait] }, [])
  | .cancelWait index =>
      match p.waits[index]? with
      | some w =>
          match w.result, w.request with
          | none, some number => (p.cancel number, [])
          | _, _ => (p, [])
      | none => (p, [])
  | .setEnv marker => ({ p with env := marker }, [])

/-- The provider after steps one after another, and the notes that they leave. -/
def run (p : Provider) : List Step → Provider × List Note
  | [] => (p, [])
  | s :: rest =>
      let (next, notes) := p.step s
      let (last, others) := next.run rest
      (last, notes ++ others)

/-! ## Display

An outline is shown as a flat list, so what is shown of an item is the item
itself and it has no children. -/

/-- What is shown of an item. -/
def treeItem {α : Type} (item : α) : α := item

/-- The items below an item, or below the root. -/
def children {α : Type} (_ : Option α) : List α := []

/-! ## What a step brought about -/

/-- The numbers and outcomes of the requests that have ended, oldest first. -/
def ended (p : Provider) : List (Nat × Outcome) :=
  p.requests.zipIdx.filterMap fun (r, index) => r.outcome.map fun outcome => (index + 1, outcome)

/-- The indices and results of the waits that are over, oldest first. -/
def served (p : Provider) : List (Nat × Option Outcome) :=
  p.waits.zipIdx.filterMap fun (w, index) => w.result.map fun result => (index, result)

/-- The requests that ended between two states. -/
def endedSince (earlier later : Provider) : List (Nat × Outcome) :=
  later.ended.filter fun request => !(earlier.ended.map Prod.fst).contains request.1

/-- The waits that ended between two states. -/
def servedSince (earlier later : Provider) : List (Nat × Option Outcome) :=
  later.served.filter fun wait => !(earlier.served.map Prod.fst).contains wait.1

end Provider

end CodeOutline
