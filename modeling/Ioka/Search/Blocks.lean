import Ioka.Domain.Types
import Ioka.Database.Models

/-! # Session blocks of search processing

Each `async with session_factory()` block of `process` as one function on the
committed database. Only the first block looks at the status of the search; the
other two write whatever it is by then.
-/

namespace Ioka

open Relational

def finalStatuses : List SearchStatus := [.completed, .failed, .timedOut]

def SearchStatus.Final (s : SearchStatus) : Prop := s ∈ finalStatuses

instance (s : SearchStatus) : Decidable s.Final := inferInstanceAs (Decidable (s ∈ finalStatuses))

/-- What the provider is asked for a search. -/
def FlightSearch.providerRequest (s : FlightSearch) : ProviderSearchRequest where
  origin := s.origin
  destination := s.destination
  departureDate := s.departureDate
  adults := s.adults
  cabinClass := s.cabinClass

/-- The first block, which returns no request if there is nothing to do. -/
def processStart (db : Database) (searchId : String) :
    Except Failure (Option ProviderSearchRequest × Database) :=
  match db.search? searchId with
  | none => .ok (none, db)
  | some search =>
    if search.status.Final then .ok (none, db)
    else do
      let db ← db.updateSearch search.id fun s => { s with status := .inProgress }
      return (some search.providerRequest,
        db.addStatusAudit "flight_search" search.id "provider_search_started"
          (some search.status.value) SearchStatus.inProgress.value)

def searchRequestPayload (request : ProviderSearchRequest) : Json :=
  .obj [("origin", .str request.origin), ("destination", .str request.destination),
    ("departure_date", .str request.departureDate.isoformat), ("adults", .int request.adults),
    ("cabin_class", .str request.cabinClass)]

/-- The row that `process` stores for an item of the answer as its columns keep it. -/
def newOffer (provider searchId id : String) (item : ProviderOffer) : Offer where
  id := id
  searchId := searchId
  provider := provider
  providerOfferId := item.providerOfferId
  origin := item.origin
  destination := item.destination
  departureAt := item.departureAt
  arrivalAt := item.arrivalAt
  carrier := item.carrier
  flightNumber := item.flightNumber
  fareFamily := item.fareFamily
  baggage := item.baggage
  totalAmount := item.totalAmount.hundredths
  currency := item.currency
  expiresAt := item.expiresAt
  rawPayload := item.rawPayload

/-- The rows for an answer; `newId` gives each of them its id. -/
def newOffers (provider searchId : String) (newId : ℕ → String) (items : List ProviderOffer) :
    List Offer :=
  items.mapIdx fun i item => newOffer provider searchId (newId i) item

def Database.insertOffers (db : Database) : List Offer → Except Failure Database
  | [] => .ok db
  | offer :: offers => do
    let db ← db.insertOffer offer
    db.insertOffers offers

/-- The answer as the columns of `offers` keep it. -/
def keptItems (items : List ProviderOffer) : Option (List ProviderOffer) :=
  items.mapM ProviderOffer.kept

/-- The block that stores the answer. -/
def processSave (db : Database) (provider searchId : String) (request : ProviderSearchRequest)
    (items : List ProviderOffer) (newId : ℕ → String) (now : Time) (durationMs : ℤ) :
    Except Failure Database :=
  match db.search? searchId with
  | none => .ok db
  | some search =>
    match keptItems items with
    | none => .error .dbapiError
    | some kept => do
      let db ← db.insertOffers (newOffers provider search.id newId kept)
      let db ← db.updateSearch search.id fun s =>
        { s with status := .completed, completedAt := some now }
      let db := db.addProviderAudit "search" "flight_search" search.id
        (searchRequestPayload request) (some (.obj [("offers_count", .int items.length)]))
        durationMs 200 none
      return db.addStatusAudit "flight_search" search.id "provider_search_completed"
        (some search.status.value) SearchStatus.completed.value

/-- The rows of `search.offers`, as they were stored. What reads them gets them in any order. -/
def Database.offersOf (db : Database) (searchId : String) : List Offer :=
  db.offers.rows.filter fun o => o.searchId = searchId

def Raised.searchStatus (e : Raised) : SearchStatus := if e.timeout then .timedOut else .failed

def Raised.searchErrorCode (e : Raised) : String :=
  if e.timeout then "provider_timeout" else "provider_error"

/-- The block that records an exception of the provider or of the block before. -/
def processFail (db : Database) (searchId : String) (request : ProviderSearchRequest)
    (raised : Raised) (durationMs : ℤ) : Except Failure Database :=
  match db.search? searchId with
  | none => .ok db
  | some search =>
    if Storable raised.message then do
      let db ← db.updateSearch search.id fun s => { s with
        status := raised.searchStatus
        errorCode := some raised.searchErrorCode
        errorMessage := some raised.message }
      let db := db.addProviderAudit "search" "flight_search" search.id
        (searchRequestPayload request) none durationMs (if raised.timeout then 504 else 502)
        (some raised.message)
      return db.addStatusAudit "flight_search" search.id "provider_search_failed"
        (some search.status.value) raised.searchStatus.value
    else .error .dbapiError

end Ioka
