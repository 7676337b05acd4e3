import Ioka.Booking.Service
import Ioka.Search.Service
import Ioka.Search.Start

/-! # The whole service

Calls of `start`, runs of `process` and booking requests over one platform, their
steps in any order. The last two only see the database.
-/

namespace Ioka

open Transition

/-- What is fixed when the service is deployed. -/
structure Deployment where
  settings : SearchSettings
  provider : String
  sha256 : String → String

abbrev Job := StartSearch ⊕ (ProcessSearch ⊕ Request)

abbrev JobChoice := StartChoice ⊕ (ProcessChoice ⊕ Choice)

abbrev Serving := Config Platform Job

def serving (d : Deployment) : Program Platform Job JobChoice :=
  (starting d.settings d.sha256).sum
    (((processing d.provider).sum (booking d.sha256)).within Platform.world Platform.withWorld)

@[simp] theorem serving_fresh_start {d : Deployment} {r : StartSearch} :
    (serving d).fresh (.inl r) = true ↔ r.phase = .requested :=
  starting_fresh d.settings d.sha256

@[simp] theorem serving_fresh_process {d : Deployment} {r : ProcessSearch} :
    (serving d).fresh (.inr (.inl r)) = true ↔ r.phase = .requested :=
  processing_fresh d.provider

@[simp] theorem serving_fresh_book {d : Deployment} {p : Request} :
    (serving d).fresh (.inr (.inr p)) = (booking d.sha256).fresh p := rfl

/-- What one step of a job is a step of. -/
inductive JobStep (d : Deployment) (s : Platform) : Job → JobChoice → Platform → Job → Prop
  | start {r r' : StartSearch} {x : StartChoice} {s' : Platform} :
      r.advance d.settings d.sha256 s x = some (s', r') → JobStep d s (.inl r) (.inl x) s' (.inl r')
  | process {r r' : ProcessSearch} {x : ProcessChoice} {w : World} :
      r.advance d.provider s.world x = some (w, r') →
      JobStep d s (.inr (.inl r)) (.inr (.inl x)) (s.withWorld w) (.inr (.inl r'))
  | book {p p' : Request} {x : Choice} {w : World} :
      (booking d.sha256).advance s.world p x = some (w, p') →
      JobStep d s (.inr (.inr p)) (.inr (.inr x)) (s.withWorld w) (.inr (.inr p'))

theorem serving_step {d : Deployment} {s s' : Platform} {j j' : Job} {x : JobChoice}
    (h : (serving d).advance s j x = some (s', j')) : JobStep d s j x s' j' := by
  rcases Program.sum_advance h with ⟨r, r', y, rfl, rfl, rfl, ha⟩ | ⟨q, q', y, rfl, rfl, rfl, ha⟩
  · exact .start ha
  · obtain ⟨w, hw, rfl⟩ := Program.within_advance.mp ha
    rcases Program.sum_advance hw with ⟨r, r', z, rfl, rfl, rfl, hb⟩ | ⟨p, p', z, rfl, rfl, rfl, hb⟩
    · exact .process hb
    · exact .book hb

section Alone

variable {d : Deployment} {s : Platform}

theorem serving_alone_process {r : ProcessSearch} {xs : List ProcessChoice}
    {t : World × ProcessSearch} (h : (processing d.provider).alone.Run (s.world, r) xs t) :
    (serving d).alone.Run (s, .inr (.inl r)) ((xs.map .inl).map .inr)
      (s.withWorld t.1, .inr (.inl t.2)) := by
  have hwithin : (((processing d.provider).sum (booking d.sha256)).within Platform.world
      Platform.withWorld).alone.Run (s, .inl r) (xs.map .inl) (s.withWorld t.1, .inl t.2) :=
    Program.alone_within Platform.withWorld_world (fun _ _ _ => rfl) rfl (Program.alone_inl h)
  exact Program.alone_inr hwithin

theorem serving_alone_book {p : Request} {xs : List Choice} {t : World × Request}
    (h : (booking d.sha256).alone.Run (s.world, p) xs t) :
    (serving d).alone.Run (s, .inr (.inr p)) ((xs.map .inr).map .inr)
      (s.withWorld t.1, .inr (.inr t.2)) := by
  have hwithin : (((processing d.provider).sum (booking d.sha256)).within Platform.world
      Platform.withWorld).alone.Run (s, .inr p) (xs.map .inr) (s.withWorld t.1, .inr t.2) :=
    Program.alone_within Platform.withWorld_world (fun _ _ _ => rfl) rfl (Program.alone_inr h)
  exact Program.alone_inr hwithin

end Alone

/-! ## Jobs on the small store -/

namespace Example

def settings : SearchSettings := ⟨900, .rabbitmq, true, true⟩

def deployment : Deployment := ⟨settings, "mock-air", id⟩

/-- The tables with nothing but an agent. -/
def bare : World where
  db := { offered.db with searches := .empty, offers := .empty }
  history := []

def searchRequest : SearchRequest where
  origin := "TAS"
  destination := "SKD"
  departureDate := search.departureDate
  adults := 1
  cabinClass := .economy
  adults_bounds := by decide

theorem stores_searchRequest : searchRequest.Stores := by decide

def startCall (calledAt : Time) : Job := .inl ⟨"agent", searchRequest, calledAt, .requested⟩

/-- A call that stores a new search and caches it. -/
def startSteps (i : ℕ) : List (Action Job JobChoice) :=
  [.advance i (.inl (.readCache true)), .advance i (.inl (.create "search" 100)),
    .advance i (.inl (.writeCache true))]

/-- A call that the cache answers. -/
def cachedSteps (i : ℕ) : List (Action Job JobChoice) :=
  [.advance i (.inl (.readCache true)), .advance i (.inl (.readRow 201))]

def processRun : Job := .inr (.inl ⟨"search", .requested⟩)

/-- A run that starts and calls the provider. -/
def callSteps (i : ℕ) : List (Action Job JobChoice) :=
  [.advance i (.inr (.inl .start)), .advance i (.inr (.inl .call))]

/-- The provider answers a run with one offer, and the run stores it. -/
def saveSteps (i : ℕ) : List (Action Job JobChoice) :=
  [.advance i (.inr (.inl (.answer [item]))),
    .advance i (.inr (.inl (.save (fun _ => "offer") 300 5 "")))]

/-- The actions of booking requests that arrive after `n` other jobs. -/
def bookJobs (n : ℕ) (as : List (Action Request Choice)) : List (Action Job JobChoice) :=
  as.map fun
    | .spawn p => .spawn (.inr (.inr p))
    | .advance i x => .advance (n + i) (.inr (.inr x))

/-- A search is started and processed by two runs, of which the second fails; its offer is
booked, and the order is issued. -/
def fullSteps : List (Action Job JobChoice) :=
  .spawn (startCall 100) :: startSteps 0 ++
  [.advance 0 (.inl (.dispatch none)), .spawn processRun, .spawn processRun] ++
  callSteps 1 ++ callSteps 2 ++ saveSteps 1 ++
  [.advance 2 (.inr (.inl (.raise ⟨"", "RuntimeError", false⟩))),
    .advance 2 (.inr (.inl (.fail 5)))] ++
  bookJobs 3 (bookSteps ++ .spawn (issueRequest "issue") :: issueSteps 1)

/-- The ids of the searches that calls of `start` returned. -/
def returned (c : Serving) : List String :=
  c.procs.filterMap fun j => j.elim
    (fun r => match r.phase with
      | .done (.ok search) => some search.id
      | _ => none) fun _ => none

end Example

end Ioka
