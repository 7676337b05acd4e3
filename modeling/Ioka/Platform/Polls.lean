import Mathlib.Data.Multiset.MapFold
import Ioka.Platform.Sessions
import Ioka.Search.Redelivery

/-! # What a poll answers

A poll of a search never shows offers or an error before the search is finished, and an error that
fits the status when it has failed. As long as no two runs on a search overlap, it shows offers or
an error but not both.
-/

namespace Ioka

open Relational Transition

structure OfferOut where
  id : String
  origin : String
  destination : String
  departureAt : Time
  arrivalAt : Time
  carrier : String
  flightNumber : String
  fareFamily : String
  baggage : String
  totalAmount : Money
  currency : String
  expiresAt : Time

def Offer.out (offer : Offer) : OfferOut where
  id := offer.id
  origin := offer.origin
  destination := offer.destination
  departureAt := offer.departureAt
  arrivalAt := offer.arrivalAt
  carrier := offer.carrier
  flightNumber := offer.flightNumber
  fareFamily := offer.fareFamily
  baggage := offer.baggage
  totalAmount := offer.totalAmount
  currency := offer.currency
  expiresAt := offer.expiresAt

/-- The `error` of a `SearchResult`. -/
structure SearchError where
  code : String
  message : String

structure SearchResult where
  searchId : String
  status : String
  offers : Multiset OfferOut
  error : Option SearchError

/-- The error that `poll_offer_search` shows of a search. -/
def FlightSearch.error (search : FlightSearch) : Option SearchError :=
  match search.errorCode with
  | some code =>
    if code ≠ "" then
      let message := search.errorMessage.getD ""
      some ⟨code, if message ≠ "" then message else "Search failed"⟩
    else none
  | none => none

def pollOfferSearch (db : Database) (searchId agentId : String) : Except Failure SearchResult := do
  let (search, offers) ← searchGet db searchId agentId
  return ⟨search.id, search.status.value, offers.map Offer.out, search.error⟩

/-- What an answer shows fits its status. -/
structure SearchResult.Coherent (result : SearchResult) : Prop where
  unfinished : result.status = "PENDING" ∨ result.status = "IN_PROGRESS" →
    result.offers = 0 ∧ result.error = none
  failed : result.status = "FAILED" →
    ∃ message, message ≠ "" ∧ result.error = some ⟨"provider_error", message⟩
  timedOut : result.status = "TIMED_OUT" →
    ∃ message, message ≠ "" ∧ result.error = some ⟨"provider_timeout", message⟩

/-- An answer shows offers or an error, by its status. -/
structure SearchResult.Exclusive (result : SearchResult) : Prop where
  completed : result.status = "COMPLETED" → result.error = none
  others : result.status ≠ "COMPLETED" → result.offers = 0

/-- What is recorded of the outcome of a search. -/
structure FlightSearch.Recorded (db : Database) (s : FlightSearch) : Prop where
  unfinished : ¬ s.status.Final → s.errorCode = none ∧ db.offersOf s.id = []
  failed : s.status = .failed → s.errorCode = some "provider_error"
  timedOut : s.status = .timedOut → s.errorCode = some "provider_timeout"

structure Recorded (db : Database) : Prop where
  rows : ∀ s ∈ db.searches, s.Recorded db
  owned : ∀ o ∈ db.offers, ∃ s ∈ db.searches, s.id = o.searchId

section Writes

variable {db db' : Database} {s s' q : FlightSearch} {offers : List Offer} {searchId : String}

theorem mem_offersOf {o : Offer} : o ∈ db.offersOf searchId ↔
    o ∈ db.offers ∧ o.searchId = searchId := by
  rw [Database.offersOf, List.mem_filter, decide_eq_true_eq]
  rfl

theorem FlightSearch.Recorded.congr (h : q.Recorded db)
    (ho : db'.offersOf q.id = db.offersOf q.id) : q.Recorded db' := by
  refine ⟨?_, h.failed, h.timedOut⟩
  rw [ho]
  exact h.unfinished

theorem Stored.recorded (h : Stored db db' s) (hI : Recorded db) (hs : s.errorCode = none)
    (hp : s.status = .pending) : Recorded db' := by
  have hoffers (id : String) : db'.offersOf id = db.offersOf id := by
    rw [Database.offersOf, h.offers, Database.offersOf]
  constructor
  · intro q hq
    rcases h.mem_searches.mp hq with hq | rfl
    · exact (hI.rows q hq).congr (hoffers q.id)
    · refine ⟨fun _ => ⟨hs, ?_⟩, by simp [hp], by simp [hp]⟩
      -- an offer would have a search with the new id
      rw [hoffers, List.eq_nil_iff_forall_not_mem]
      intro o ho
      obtain ⟨hmem, hid⟩ := mem_offersOf.mp ho
      obtain ⟨p, hp, hpid⟩ := hI.owned o hmem
      exact h.fresh hp (hpid.trans hid)
  · intro o ho
    rw [h.offers] at ho
    obtain ⟨q, hq, hid⟩ := hI.owned o ho
    exact ⟨q, h.mem_searches.mpr (Or.inl hq), hid⟩

theorem Rewritten.recorded (h : Rewritten db db' s s' offers) (hI : Recorded db)
    (hs : s'.Recorded db') : Recorded db' := by
  constructor
  · intro q hq
    rcases h.mem_searches.mp hq with rfl | ⟨hq, hne⟩
    · exact hs
    · refine (hI.rows q hq).congr ?_
      have hnil : offers.filter (fun o => o.searchId = q.id) = [] := by
        rw [List.filter_eq_nil_iff]
        intro o ho
        simpa [h.owners o ho] using Ne.symm hne
      rw [Database.offersOf, h.offers, List.filter_append, hnil, List.append_nil, Database.offersOf]
  · intro o ho
    rcases h.mem_offers.mp ho with ho | ho
    · obtain ⟨q, hq, hid⟩ := hI.owned o ho
      by_cases hqs : q.id = s.id
      · exact ⟨s', h.mem_searches.mpr (Or.inl rfl), h.id.trans (hqs.symm.trans hid)⟩
      · exact ⟨q, h.mem_searches.mpr (Or.inr ⟨hq, hqs⟩), hid⟩
    · exact ⟨s', h.mem_searches.mpr (Or.inl rfl), h.id.trans (h.owners o ho).symm⟩

theorem ProcessStep.recorded {provider : String} {w w' : World} {r r' : ProcessSearch}
    {x : ProcessChoice} (h : ProcessStep provider w r x w' r') (hI : Recorded w.db) :
    Recorded w'.db := by
  cases h with
  | skipped | answered | raised | cancelled | lost | refused | unrecorded => exact hI
  | called => exact ⟨hI.rows, hI.owned⟩
  | @started _ s db' _ hs hf hw =>
    refine hw.recorded hI ⟨fun _ => ?_, by simp, by simp⟩
    obtain ⟨hcode, hnil⟩ := (hI.rows s hw.search_mem).unfinished hf
    refine ⟨hcode, ?_⟩
    change db'.offersOf s.id = []
    rw [Database.offersOf, hw.offers, List.append_nil]
    exact hnil
  | saved _ _ _ _ hw =>
    refine hw.recorded hI ⟨?_, by simp, by simp⟩
    intro hf
    exact absurd (by decide : SearchStatus.completed.Final) hf
  | @failed _ _ e _ _ _ _ _ _ hw =>
    have hcases : e.searchStatus = .timedOut ∧ e.searchErrorCode = "provider_timeout" ∨
        e.searchStatus = .failed ∧ e.searchErrorCode = "provider_error" := by
      cases ht : e.timeout <;> simp [Raised.searchStatus, Raised.searchErrorCode, ht]
    have hfinal : e.searchStatus.Final := by
      rcases hcases with ⟨hst, _⟩ | ⟨hst, _⟩ <;> rw [hst] <;> decide
    refine hw.recorded hI ⟨fun hf => absurd hfinal hf, ?_, ?_⟩
    · intro hst
      rcases hcases with ⟨hst', _⟩ | ⟨_, hcode⟩
      · cases hst'.symm.trans hst
      · exact congrArg some hcode
    · intro hst
      rcases hcases with ⟨_, hcode⟩ | ⟨hst', _⟩
      · exact congrArg some hcode
      · cases hst'.symm.trans hst

end Writes

section Answers

variable {db : Database} {s : FlightSearch} {searchId agentId : String} {result : SearchResult}

theorem SearchStatus.value_injective : Function.Injective SearchStatus.value := by
  intro a b h
  cases a <;> cases b <;> first | rfl | exact absurd h (by decide)

theorem FlightSearch.error_of_code {code : String} (hc : s.errorCode = some code)
    (hne : code ≠ "") : ∃ message, message ≠ "" ∧ s.error = some ⟨code, message⟩ := by
  rw [FlightSearch.error, hc]
  refine ⟨if s.errorMessage.getD "" ≠ "" then s.errorMessage.getD "" else "Search failed", ?_, ?_⟩
  · split
    · assumption
    · decide
  · simp [hne]

theorem FlightSearch.error_of_none (hc : s.errorCode = none) : s.error = none := by
  rw [FlightSearch.error, hc]

theorem pollOfferSearch_eq_ok : pollOfferSearch db searchId agentId = .ok result ↔
    ∃ s ∈ db.searches, s.id = searchId ∧ s.agentId = agentId ∧
      result = ⟨s.id, s.status.value, ↑((db.offersOf s.id).map Offer.out), s.error⟩ := by
  unfold pollOfferSearch
  constructor
  · intro h
    obtain ⟨⟨s, offers⟩, hget, h⟩ := bind_eq_ok.mp h
    obtain ⟨hm, hid, hag, rfl⟩ := searchGet_eq_ok.mp hget
    exact ⟨s, hm, hid, hag, (Except.ok.inj h).symm⟩
  · rintro ⟨s, hm, hid, hag, rfl⟩
    exact bind_eq_ok.mpr ⟨_, searchGet_eq_ok.mpr ⟨hm, hid, hag, rfl⟩, rfl⟩

theorem FlightSearch.Recorded.coherent (h : s.Recorded db) : SearchResult.Coherent
    ⟨s.id, s.status.value, ↑((db.offersOf s.id).map Offer.out), s.error⟩ := by
  have hunfinished (hf : ¬ s.status.Final) :
      (↑((db.offersOf s.id).map Offer.out) : Multiset OfferOut) = 0 ∧ s.error = none := by
    obtain ⟨hcode, hnil⟩ := h.unfinished hf
    exact ⟨by rw [hnil]; rfl, error_of_none hcode⟩
  constructor
  · intro hv
    apply hunfinished
    rcases hv with hv | hv
    · have hst : s.status = .pending := SearchStatus.value_injective hv
      rw [hst]
      decide
    · have hst : s.status = .inProgress := SearchStatus.value_injective hv
      rw [hst]
      decide
  · intro hv
    have hst : s.status = .failed := SearchStatus.value_injective hv
    exact error_of_code (h.failed hst) (by decide)
  · intro hv
    have hst : s.status = .timedOut := SearchStatus.value_injective hv
    exact error_of_code (h.timedOut hst) (by decide)

theorem SearchOutcome.exclusive {provider : String} {as : List (Action Job JobChoice)} {c : Serving}
    (h : SearchOutcome provider as c s) : SearchResult.Exclusive
      ⟨s.id, s.status.value, ↑((c.store.world.db.offersOf s.id).map Offer.out), s.error⟩ := by
  cases h with
  | unfinished hst hcode _ hnil =>
    exact ⟨fun _ => FlightSearch.error_of_none hcode, fun _ => by rw [hnil]; rfl⟩
  | completed hst _ hcode =>
    exact ⟨fun _ => FlightSearch.error_of_none hcode, fun hne => absurd (by rw [hst]; rfl) hne⟩
  | failed hst _ _ _ _ _ hnil =>
    refine ⟨?_, fun _ => by rw [hnil]; rfl⟩
    intro hv
    have hcompleted : s.status = .completed := SearchStatus.value_injective hv
    rcases hst with hst | hst <;> cases hst.symm.trans hcompleted

end Answers

section Runs

variable {d : Deployment} {w : World} {c : Serving} {as : List (Action Job JobChoice)}
  {s s' : Platform} {j j' : Job} {x : JobChoice} {G : Serving → Action Job JobChoice → Prop}
  {searchId agentId : String} {result : SearchResult}

theorem JobStep.recorded (h : JobStep d s j x s' j') (hc : Coupled s.world.db)
    (hv : Job.Valid s.world.db j) (hI : Recorded s.world.db) : Recorded s'.world.db := by
  cases h with
  | start ha =>
    rcases (StartSearch.advance_step ha).db with he | ⟨db', _, _, _, he, hst⟩
    · rwa [he]
    · rw [he]
      exact hst.recorded hI rfl rfl
  | process ha => exact (ProcessSearch.advance_step ha).recorded hI
  | @book _ _ _ w ha =>
    have hx := (booking_effect ha hv hc).1.extends hc
    constructor
    · intro q hq
      rw [Platform.withWorld_world, hx.searches] at hq
      refine (hI.rows q hq).congr ?_
      rw [Platform.withWorld_world, Database.offersOf, hx.offers, Database.offersOf]
    · intro o ho
      rw [Platform.withWorld_world, hx.offers] at ho
      rw [Platform.withWorld_world, hx.searches]
      exact hI.owned o ho

theorem recorded_of_run (ha : OnlyAgents w.db)
    (h : (serving d).machine.RunWhere G (Program.start (Platform.start w)) as c) :
    Recorded c.store.world.db := by
  refine (jobs_of_run (I := fun s => Recorded s.world.db) (J := fun _ _ => True)
    (fun _ _ _ _ => trivial) ?_ h (steady_start ha.unpaid.coupled) ?_ (by simp)).1
  · intro c i x s j s' j' _ _ _ hc hv hI _ hstep
    exact ⟨hstep.recorded hc hv hI, trivial, fun _ _ _ => trivial⟩
  · constructor
    · intro q hq
      simp [Program.start, Platform.start, Table.mem_def, ha.searches] at hq
    · intro o ho
      simp [Program.start, Platform.start, Table.mem_def, ha.offers] at ho

/-- In every reachable state the answer to a poll is coherent, and while no two runs on a search
have overlapped it shows no error of a completed search and no offers of any other. -/
theorem poll_coherent (ha : OnlyAgents w.db)
    (h : (serving d).machine.Run (Program.start (Platform.start w)) as c)
    (hpoll : pollOfferSearch c.store.world.db searchId agentId = .ok result) :
    result.Coherent ∧ ((serving d).machine.RunWhere (fun c a => nonOverlapping c a)
      (Program.start (Platform.start w)) as c → result.Exclusive) := by
  obtain ⟨s, hm, _, _, rfl⟩ := pollOfferSearch_eq_ok.mp hpoll
  refine ⟨((recorded_of_run ha h).rows s hm).coherent, ?_⟩
  intro hrun
  have hstart : Orderly d.provider [] (Program.start (Platform.start w)) := by
    constructor <;> simp [Program.start, Platform.start, Table.mem_def, ha.searches, ha.offers]
  have horderly : Orderly d.provider as c :=
    hrun.trace (I := fun as c => Orderly d.provider as c)
      (fun as c a c' hg hs h => h.step hs hg) hstart
  exact (horderly.outcome s hm).exclusive

end Runs

/-- A search that a crash delayed shows its offer and no error. -/
theorem poll_coherent_finished : ∃ (c : Serving) (result : SearchResult),
    pollOfferSearch c.store.world.db "search" "agent" = .ok result ∧
    (result.status, result.offers.card, result.error.isNone) = ("COMPLETED", 1, true) ∧
    result.Coherent ∧ result.Exclusive := by
  have hrun : ((serving Example.deployment).machine.execWhere (fun c a => nonOverlapping c a)
      (Program.start (Platform.start Example.bare)) Example.redelivered).map (fun c =>
        (pollOfferSearch c.store.world.db "search" "agent").toOption.map fun result =>
          (result.status, result.offers.card, result.error.isNone)) =
      some (some ("COMPLETED", 1, true)) := by
    decide +kernel
  obtain ⟨c, hc, hrun⟩ := Option.map_eq_some_iff.mp hrun
  obtain ⟨result, hresult, hshown⟩ := Option.map_eq_some_iff.mp hrun
  have hpoll : pollOfferSearch c.store.world.db "search" "agent" = .ok result := by
    cases h : pollOfferSearch c.store.world.db "search" "agent" <;> simp_all [Except.toOption]
  have hc := Machine.runWhere_of_execWhere hc
  obtain ⟨hcoherent, hexclusive⟩ :=
    poll_coherent ⟨rfl, rfl, rfl, rfl, rfl, rfl⟩ hc.run hpoll
  exact ⟨c, result, hpoll, hshown, hcoherent, hexclusive hc⟩

end Ioka
