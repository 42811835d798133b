import Mathlib.Data.List.Induction
import Mathlib.Tactic.Common

/-!
# Logs that grow at their end

A property of every place in a log is kept by adding an action, if it holds of
the place of that action.

`Orderly` is the discipline of a source read page by page: it is asked only when
everything it has given has been handed on, it gives a page only in answer to
the request just made, and what is handed on are nonempty batches of the rows it
has given, in their order. The three rules say which steps keep it.

Main results:

* `forall_split_concat` — the places of a log that has grown.
* `Orderly.request`, `Orderly.accept`, `Orderly.deliver` — the steps of a paged
  source.
-/

namespace Cuac.Lib

/-- The splits of a log that has grown by one action. -/
theorem forall_split_concat {α : Type} {P : List α → α → Prop} {log : List α} {x : α}
    (hlog : ∀ before a after, log = before ++ a :: after → P before a) (hx : P log x) :
    ∀ before a after, log ++ [x] = before ++ a :: after → P before a := by
  intro before a after hsplit
  rcases List.eq_nil_or_concat after with hnil | ⟨rest, last, hconcat⟩
  · rw [hnil] at hsplit
    obtain ⟨hbefore, ha⟩ := List.append_inj' hsplit rfl
    rw [← hbefore, ← (List.cons.inj ha).1]
    exact hx
  · rw [hconcat, List.concat_eq_append, ← List.cons_append, ← List.append_assoc] at hsplit
    exact hlog before a rest (List.append_inj' hsplit rfl).1

namespace Paging

/-- What happens to a paged source: `ρ` are requests, `π` pages and `ν` rows. -/
inductive Event (ρ π ν : Type)
  | requested (request : ρ)
  | accepted (page : π)
  | delivered (batch : List ν)
  deriving DecidableEq, Repr

variable {ρ π ν : Type}

/-- The page that an event accepts. -/
def Event.page? : Event ρ π ν → Option π
  | .accepted p => some p
  | _ => none

/-- The rows that an event delivers. -/
def Event.batch? : Event ρ π ν → Option (List ν)
  | .delivered b => some b
  | _ => none

/-- The pages that a trace accepted, in order. -/
def acceptedOf (trace : List (Event ρ π ν)) : List π := trace.filterMap Event.page?

/-- The batches that a trace delivered, in order. -/
def deliveredOf (trace : List (Event ρ π ν)) : List (List ν) := trace.filterMap Event.batch?

@[simp] theorem acceptedOf_concat (trace : List (Event ρ π ν)) (event : Event ρ π ν) :
    acceptedOf (trace ++ [event]) = acceptedOf trace ++ event.page?.toList := by
  rw [acceptedOf, acceptedOf, List.filterMap_append]
  cases event <;> rfl

@[simp] theorem deliveredOf_concat (trace : List (Event ρ π ν)) (event : Event ρ π ν) :
    deliveredOf (trace ++ [event]) = deliveredOf trace ++ event.batch?.toList := by
  rw [deliveredOf, deliveredOf, List.filterMap_append]
  cases event <;> rfl

/-- What a source is asked and what it answers. -/
structure Rules (ρ π ν : Type) where
  rows : π → List ν
  /-- A request that may follow these pages. -/
  mayRequest : List π → ρ → Prop
  /-- A page that answers a request. -/
  answers : ρ → π → Prop
  batchRows : Nat

/-- The rows of all accepted pages, in order. -/
def Rules.given (rules : Rules ρ π ν) (trace : List (Event ρ π ν)) : List ν :=
  (acceptedOf trace).flatMap rules.rows

/-- The rows handed on, in order. -/
def handedOn (trace : List (Event ρ π ν)) : List ν := (deliveredOf trace).flatten

/-- A trace in which requests, pages and batches follow one another as the rules say. -/
structure Orderly (rules : Rules ρ π ν) (trace : List (Event ρ π ν)) : Prop where
  requests : ∀ before request after, trace = before ++ .requested request :: after →
    rules.mayRequest (acceptedOf before) request ∧ handedOn before = rules.given before
  pages : ∀ before page after, trace = before ++ .accepted page :: after →
    ∃ earlier request, before = earlier ++ [.requested request] ∧ rules.answers request page
  batches : ∀ batch ∈ deliveredOf trace, batch ≠ [] ∧ batch.length ≤ rules.batchRows
  rows : handedOn trace <+: rules.given trace

variable {rules : Rules ρ π ν} {trace : List (Event ρ π ν)}

/-- Nothing has happened out of order yet. -/
theorem Orderly.nil : Orderly rules [] := by
  refine ⟨fun before _ _ h => ?_, fun before _ _ h => ?_, fun _ h => (nomatch h), List.nil_prefix⟩
  · simp at h
  · simp at h

/-- A property of the requests of a log, when anything but a request is added. -/
theorem Orderly.requests_concat {event : Event ρ π ν} (h : Orderly rules trace)
    (hevent : ∀ request, event = .requested request →
      rules.mayRequest (acceptedOf trace) request ∧ handedOn trace = rules.given trace) :
    ∀ before request after, trace ++ [event] = before ++ .requested request :: after →
      rules.mayRequest (acceptedOf before) request ∧ handedOn before = rules.given before := by
  intro before request after hsplit
  refine forall_split_concat (P := fun before x => ∀ request, x = .requested request →
    rules.mayRequest (acceptedOf before) request ∧ handedOn before = rules.given before) ?_ hevent
    before (.requested request) after hsplit request rfl
  intro earlier x rest htrace request hx
  rw [hx] at htrace
  exact h.requests earlier request rest htrace

/-- What the pages of a trace have to satisfy, by one more event. -/
theorem Orderly.pages_concat {event : Event ρ π ν} (h : Orderly rules trace)
    (hevent : ∀ page, event = .accepted page →
      ∃ earlier request, trace = earlier ++ [.requested request] ∧ rules.answers request page) :
    ∀ before page after, trace ++ [event] = before ++ .accepted page :: after →
      ∃ earlier request, before = earlier ++ [.requested request] ∧ rules.answers request page := by
  intro before page after hsplit
  refine forall_split_concat (P := fun before x => ∀ page, x = .accepted page →
    ∃ earlier request, before = earlier ++ [.requested request] ∧ rules.answers request page) ?_
    hevent before (.accepted page) after hsplit page rfl
  intro earlier x rest htrace page hx
  rw [hx] at htrace
  exact h.pages earlier page rest htrace

/-- A request may be sent when the rules allow it and all rows were handed on. -/
theorem Orderly.request {request : ρ} (h : Orderly rules trace)
    (hmay : rules.mayRequest (acceptedOf trace) request)
    (hdone : handedOn trace = rules.given trace) :
    Orderly rules (trace ++ [.requested request]) := by
  refine ⟨h.requests_concat ?_, h.pages_concat (fun _ hpage => (nomatch hpage)), ?_, ?_⟩
  · intro other hother
    obtain rfl := Event.requested.inj hother
    exact ⟨hmay, hdone⟩
  · simpa [Event.batch?] using h.batches
  · simpa [handedOn, Rules.given, Event.batch?, Event.page?] using h.rows

/-- Several requests in a row, as when one is repeated. -/
theorem Orderly.requestAll (h : Orderly rules trace) (requests : List ρ)
    (hmay : ∀ request ∈ requests, rules.mayRequest (acceptedOf trace) request)
    (hdone : handedOn trace = rules.given trace) :
    Orderly rules (trace ++ requests.map .requested) ∧
      acceptedOf (trace ++ requests.map .requested) = acceptedOf trace ∧
      deliveredOf (trace ++ requests.map .requested) = deliveredOf trace := by
  induction requests using List.reverseRecOn with
  | nil => simpa using h
  | append_singleton requests request ih =>
    obtain ⟨horderly, haccepted, hdelivered⟩ := ih fun r hr =>
      hmay r (List.mem_append_left _ hr)
    rw [List.map_append, List.map_singleton, ← List.append_assoc, acceptedOf_concat,
      deliveredOf_concat, haccepted, hdelivered]
    refine ⟨horderly.request ?_ ?_, List.append_nil _, List.append_nil _⟩
    · rw [haccepted]
      exact hmay request (List.mem_append_right _ (List.mem_singleton_self _))
    · rw [handedOn, Rules.given, haccepted, hdelivered]
      exact hdone

/-- A page may be accepted when it answers the request before it. -/
theorem Orderly.accept {page : π} (h : Orderly rules trace)
    (hanswers : ∃ earlier request, trace = earlier ++ [.requested request] ∧
      rules.answers request page) :
    Orderly rules (trace ++ [.accepted page]) := by
  refine ⟨h.requests_concat (fun _ hrequest => (nomatch hrequest)), h.pages_concat ?_, ?_, ?_⟩
  · intro other hother
    obtain rfl := Event.accepted.inj hother
    exact hanswers
  · simpa [Event.batch?] using h.batches
  · simp only [handedOn, Rules.given, deliveredOf_concat, acceptedOf_concat, Event.batch?,
      Event.page?, Option.toList_none, Option.toList_some, List.append_nil, List.flatMap_append]
    exact h.rows.trans (List.prefix_append _ _)

/-- The next rows may be delivered, within the size of a batch. -/
theorem Orderly.deliver {batch rest : List ν} (h : Orderly rules trace)
    (hbatch : batch ≠ [] ∧ batch.length ≤ rules.batchRows)
    (hrows : handedOn trace ++ batch ++ rest = rules.given trace) :
    Orderly rules (trace ++ [.delivered batch]) := by
  refine ⟨h.requests_concat (fun _ hrequest => (nomatch hrequest)),
    h.pages_concat (fun _ hpage => (nomatch hpage)), ?_, ?_⟩
  · intro other hother
    rw [deliveredOf_concat] at hother
    rcases List.mem_append.mp hother with hold | hnew
    · exact h.batches other hold
    · rw [show other = batch by simpa [Event.batch?] using hnew]
      exact hbatch
  · simp only [handedOn, Rules.given, deliveredOf_concat, acceptedOf_concat, Event.batch?,
      Event.page?, Option.toList_none, Option.toList_some, List.append_nil, List.flatten_append,
      List.flatten_singleton]
    exact ⟨rest, hrows⟩

end Paging

end Cuac.Lib
