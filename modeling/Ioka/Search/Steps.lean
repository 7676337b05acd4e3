import Ioka.Platform.Service
import Ioka.Search.Effects

/-! # Steps of starting and of processing

The inversion of one step of `start` and of `process`: which phase it leaves,
what it writes, and with which result it ends.
-/

namespace Ioka

open Relational Transition

/-- The rows of a database before and after a search is stored. -/
structure Stored (db db' : Database) (s : FlightSearch) : Prop where
  searches : db'.searches.rows = db.searches.rows ++ [s]
  audit : db'.audit = (db.addStatusAudit "flight_search" s.id "search_created" none
    SearchStatus.pending.value).audit
  agents : db'.agents = db.agents
  offers : db'.offers = db.offers
  orders : db'.orders = db.orders
  transactions : db'.transactions = db.transactions
  records : db'.records = db.records

/-- What one step of a call of `start` does. -/
inductive StartStep (d : Deployment) (s : Platform) (r : StartSearch) :
    StartChoice → Platform → StartSearch → Prop
  | cached {cached : Json} {searchId : String} : r.phase = .requested →
      s.cache.get (r.cacheKey d.sha256) = some cached → cachedSearchId cached = some searchId →
      StartStep d s r (.readCache true) s { r with phase := .cached searchId }
  | unlisted {available : Bool} : r.phase = .requested →
      StartStep d s r (.readCache available) s { r with phase := .missed }
  | expired {searchId : String} {now : Time} : r.phase = .cached searchId →
      (∀ q, s.world.db.search? searchId = some q → q.expiresAt ≤ now) →
      StartStep d s r (.readRow now) s { r with phase := .missed }
  | found {searchId : String} {existing : FlightSearch} {now : Time} :
      r.phase = .cached searchId → s.world.db.search? searchId = some existing →
      now < existing.expiresAt →
      StartStep d s r (.readRow now) s (r.finish (.ok existing))
  | refused {searchId : String} {now : Time} {e : Failure} : r.phase = .missed →
      StartStep d s r (.create searchId now) s (r.finish (.error (.refused e)))
  | created {searchId : String} {now : Time} {db' : Database} {hp : r.payload.Stores} :
      r.phase = .missed →
      Stored s.world.db db' (newSearch d.settings searchId r.agentId r.payload hp now) →
      StartStep d s r (.create searchId now) (s.withWorld (s.world.commit db' []))
        { r with phase := .created (newSearch d.settings searchId r.agentId r.payload hp now) }
  | remembered {written : Bool} {search : FlightSearch} {cache : SearchCache} :
      r.phase = .created search →
      (cache = s.cache ∨ cache =
        s.cache.set (r.cacheKey d.sha256) (.obj [("search_id", .str search.id)])) →
      StartStep d s r (.writeCache written) { s with cache := cache }
        { r with phase := .remembered search }
  | started {failure : Option Raised} {search : FlightSearch} : r.phase = .remembered search →
      d.settings.searchDispatchMode = .inline →
      StartStep d s r (.dispatch failure) { s with tasks := s.tasks ++ [search.id] }
        (r.finish (.ok search))
  | published {search : FlightSearch} : r.phase = .remembered search →
      d.settings.searchDispatchMode = .rabbitmq →
      StartStep d s r (.dispatch none) { s with queue := s.queue ++ [search.id] }
        (r.finish (.ok search))
  | undispatched {failure : Option Raised} {search : FlightSearch} {e : Raised} :
      r.phase = .remembered search → d.settings.searchDispatchMode = .rabbitmq →
      StartStep d s r (.dispatch failure) s (r.finish (.error (.undispatched e)))

section Start

variable {d : Deployment} {s s' : Platform} {r r' : StartSearch} {x : StartChoice}
  {db db' : Database} {search q : FlightSearch}

theorem startCreate_ok (h : startCreate db search = .ok db') : Stored db db' search := by
  obtain ⟨db₁, h₁, h⟩ := bind_eq_ok.mp h
  obtain ⟨tab, ht, rfl⟩ := Database.writing_eq_ok.mp h₁
  cases h
  exact ⟨Table.insert?_eq_some.mp ht, rfl, rfl, rfl, rfl, rfl, rfl⟩

/-- Every step of a call of `start` is one of the listed ones. -/
theorem StartSearch.advance_step (h : r.advance d.settings d.sha256 s x = some (s', r')) :
    StartStep d s r x s' r' := by
  unfold StartSearch.advance at h
  split at h
  case h_1 available hp =>
    split at h
    · rename_i hcache
      split at h
      · rename_i searchId hc
        cases h
        obtain ⟨cached, hget, hid⟩ := Option.bind_eq_some_iff.mp hc
        rw [hcache.2]
        exact .cached hp hget hid
      · cases h
        exact .unlisted hp
    · cases h
      exact .unlisted hp
  case h_2 searchId now hp =>
    split at h
    · rename_i existing hs
      split at h
      · rename_i hnow
        cases h
        exact .found hp hs hnow
      · rename_i hnow
        cases h
        exact .expired hp (by simpa [hs] using hnow)
    · rename_i hs
      cases h
      exact .expired hp (by simp [hs])
  case h_3 searchId now hp =>
    simp only at h
    split at h
    · split at h
      · cases h
        exact .refused hp
      · rename_i db hc
        cases h
        exact .created hp (startCreate_ok hc)
    · cases h
      exact .refused hp
  case h_4 search written hp =>
    split at h
    · cases h
      exact .remembered hp (Or.inr rfl)
    · cases h
      exact .remembered hp (Or.inl rfl)
  case h_5 search failure hp =>
    split at h
    · rename_i hmode
      cases h
      exact .started hp hmode
    · rename_i hmode
      split at h
      · cases h
        exact .undispatched hp hmode
      · split at h
        · cases h
          exact .undispatched hp hmode
        · cases h
          exact .published hp hmode
  case h_6 => cases h

theorem StartStep.not_done (h : StartStep d s r x s' r') (result : Except StartError FlightSearch) :
    r.phase ≠ .done result := by
  cases h with
  | cached hp | unlisted hp | expired hp | found hp | refused hp | created hp | remembered hp
  | started hp | published hp | undispatched hp =>
    rw [hp]
    simp

end Start

/-- What one step of a run of `process` does. -/
inductive ProcessStep (provider : String) (w : World) (r : ProcessSearch) :
    ProcessChoice → World → ProcessSearch → Prop
  | skipped {x : ProcessChoice} : r.phase = .requested →
      (∀ s, w.db.search? r.searchId = some s → s.status.Final) →
      ProcessStep provider w r x w (r.finish (.ok ()))
  | started {x : ProcessChoice} {s : FlightSearch} {db' : Database} : r.phase = .requested →
      w.db.search? r.searchId = some s → ¬ s.status.Final →
      Rewritten w.db db' s { s with status := .inProgress } [] →
      db'.audit = (w.db.addStatusAudit "flight_search" s.id "provider_search_started"
        (some s.status.value) SearchStatus.inProgress.value).audit →
      ProcessStep provider w r x (w.commit db' []) { r with phase := .started s.providerRequest }
  | called {x : ProcessChoice} {request : ProviderSearchRequest} : r.phase = .started request →
      ProcessStep provider w r x (w.called (.searchCalled r.searchId))
        { r with phase := .searching request }
  | answered {request : ProviderSearchRequest} {items : List ProviderOffer} :
      r.phase = .searching request →
      ProcessStep provider w r (.answer items) w { r with phase := .answered request items }
  | raised {request : ProviderSearchRequest} {e : Raised} : r.phase = .searching request →
      ProcessStep provider w r (.raise e) w { r with phase := .raised request e }
  | lost {x : ProcessChoice} : (∃ request items, r.phase = .answered request items) ∨
      (∃ request e, r.phase = .raised request e) → w.db.search? r.searchId = none →
      ProcessStep provider w r x w (r.finish (.ok ()))
  | cancelled {request : ProviderSearchRequest} : r.phase = .searching request →
      ProcessStep provider w r .cancel w (r.finish (.error .cancelledError))
  | refused {request : ProviderSearchRequest} {items : List ProviderOffer} {s : FlightSearch}
      {newId : ℕ → String} {now : Time} {durationMs : ℤ} {errorText : String} {e : Failure} :
      r.phase = .answered request items → w.db.search? r.searchId = some s →
      Refused w.db provider s.id newId items →
      ProcessStep provider w r (.save newId now durationMs errorText) w
        { r with phase := .raised request ⟨errorText, e.typeName, false⟩ }
  | saved {request : ProviderSearchRequest} {items kept : List ProviderOffer} {s : FlightSearch}
      {newId : ℕ → String} {now : Time} {durationMs : ℤ} {errorText : String} {db' : Database} :
      r.phase = .answered request items → w.db.search? r.searchId = some s →
      keptItems items = some kept → ¬ Clashes w.db (newOffers provider s.id newId kept) →
      Rewritten w.db db' s { s with status := .completed, completedAt := some now }
        (newOffers provider s.id newId kept) →
      db'.audit = ((w.db.addProviderAudit "search" "flight_search" s.id
          (searchRequestPayload request) (some (.obj [("offers_count", .int items.length)]))
          durationMs 200 none).addStatusAudit "flight_search" s.id "provider_search_completed"
        (some s.status.value) SearchStatus.completed.value).audit →
      ProcessStep provider w r (.save newId now durationMs errorText) (w.commit db' [])
        (r.finish (.ok ()))
  | unrecorded {request : ProviderSearchRequest} {e : Raised} {durationMs : ℤ} :
      r.phase = .raised request e → ¬ Storable e.message →
      ProcessStep provider w r (.fail durationMs) w (r.finish (.error .dbapiError))
  | failed {x : ProcessChoice} {request : ProviderSearchRequest} {e : Raised} {s : FlightSearch}
      {durationMs : ℤ} {db' : Database} : r.phase = .raised request e →
      w.db.search? r.searchId = some s → Storable e.message →
      Rewritten w.db db' s { s with
        status := e.searchStatus
        errorCode := some e.searchErrorCode
        errorMessage := some e.message } [] →
      db'.audit = ((w.db.addProviderAudit "search" "flight_search" s.id
          (searchRequestPayload request) none durationMs (if e.timeout then 504 else 502)
          (some e.message)).addStatusAudit "flight_search" s.id "provider_search_failed"
        (some s.status.value) e.searchStatus.value).audit →
      ProcessStep provider w r x (w.commit db' []) (r.finish (.ok ()))

/-- Every step of a run of `process` is one of the listed ones. -/
theorem ProcessSearch.advance_step {provider : String} {w w' : World} {r r' : ProcessSearch}
    {x : ProcessChoice} (h : r.advance provider w x = some (w', r')) :
    ProcessStep provider w r x w' r' := by
  unfold ProcessSearch.advance at h
  split at h
  case h_1 hp =>
    rcases processStart_eq w.db r.searchId with ⟨hfin, he⟩ | ⟨s, db', hs, hf, he, hw, haud⟩
    · rw [he] at h
      cases h
      rw [World.commit_self]
      exact .skipped hp hfin
    · rw [he] at h
      cases h
      exact .started hp hs hf hw haud
  case h_2 request hp => cases h; exact .called hp
  case h_3 request items hp => cases h; exact .answered hp
  case h_4 request e hp => cases h; exact .raised hp
  case h_5 request hp => cases h; exact .cancelled hp
  case h_6 request items newId now durationMs errorText hp =>
    rcases processSave_eq w.db provider r.searchId request items newId now durationMs with
      ⟨hs, he⟩ | ⟨s, hs, ⟨href, e, he⟩ | ⟨kept, db', hk, hcl, he, hw, haud⟩⟩
    · rw [he] at h
      cases h
      rw [World.commit_self]
      exact .lost (Or.inl ⟨request, items, hp⟩) hs
    · rw [he] at h
      cases h
      exact .refused hp hs href
    · rw [he] at h
      cases h
      exact .saved hp hs hk hcl hw haud
  case h_7 request e durationMs hp =>
    rcases processFail_eq w.db r.searchId request e durationMs with
      ⟨hs, he⟩ | ⟨s, hs, hm, he⟩ | ⟨s, db', hs, hm, he, hw, haud⟩
    · rw [he] at h
      cases h
      rw [World.commit_self]
      exact .lost (Or.inr ⟨request, e, hp⟩) hs
    · rw [he] at h
      cases h
      exact .unrecorded hp hm
    · rw [he] at h
      cases h
      exact .failed hp hs hm hw haud
  case h_8 => cases h

end Ioka
