import Ioka.Domain.Schemas
import Ioka.Platform.Store
import Ioka.Transition.Program

/-! # Starting a search

`start` as a process that advances one access to the cache, one session block or
one dispatch at a time. Reads of the cache may miss an entry that was stored,
because the read fails or because the entry is lost, and writes may fail.
-/

namespace Ioka

open Transition

inductive DispatchMode
  | inline | rabbitmq
  deriving DecidableEq

/-- The settings of the search service, and whether it was given a cache and a broker. -/
structure SearchSettings where
  searchTtlSeconds : ℤ
  searchDispatchMode : DispatchMode
  cache : Bool
  broker : Bool

/-- The errors that `start` ends with: of the database, and of the dispatch. -/
inductive StartError
  | refused (error : Failure)
  | undispatched (error : Raised)
  deriving DecidableEq

/-! ## The blocks -/

/-- `cached.get("search_id")` -/
def cachedSearchId (cached : Json) : Option String :=
  match cached.member? "search_id" with
  | some (.str searchId) => some searchId
  | _ => none

/-- The columns of `flight_searches` take the codes of the request. Validation can make a code
longer (`"ßAB"` becomes `"SSAB"`), but leaves no blank at its end. -/
def SearchRequest.Stores (payload : SearchRequest) : Prop :=
  Fits 3 payload.origin ∧ Fits 3 payload.destination

instance (payload : SearchRequest) : Decidable payload.Stores :=
  inferInstanceAs (Decidable (_ ∧ _))

/-- The row that `start` stores. -/
def newSearch (settings : SearchSettings) (searchId agentId : String) (payload : SearchRequest)
    (hp : payload.Stores) (now : Time) : FlightSearch where
  id := searchId
  agentId := agentId
  origin := payload.origin
  destination := payload.destination
  departureDate := payload.departureDate
  adults := payload.adults
  cabinClass := payload.cabinClass.value
  status := .pending
  errorCode := none
  errorMessage := none
  expiresAt := now + settings.searchTtlSeconds * 1000000
  completedAt := none
  origin_fits := hp.1
  destination_fits := hp.2
  adults_bounds := payload.adults_bounds

/-- The block that stores the new row. -/
def startCreate (db : Database) (search : FlightSearch) : Except Failure Database := do
  let db ← db.insertSearch search
  return db.addStatusAudit "flight_search" search.id "search_created" none
    SearchStatus.pending.value

/-! ## The process -/

inductive StartPhase
  | requested
  /-- The cache answered with the id of a search. -/
  | cached (searchId : String)
  /-- A new search has to be stored. -/
  | missed
  | created (search : FlightSearch)
  /-- The cache was written, unless the write failed. -/
  | remembered (search : FlightSearch)
  | done (result : Except StartError FlightSearch)

structure StartSearch where
  agentId : String
  payload : SearchRequest
  /-- The time of the call. -/
  calledAt : Time
  phase : StartPhase

inductive StartChoice
  /-- The entry is not `available` if the read fails or the entry is lost. -/
  | readCache (available : Bool)
  | readRow (now : Time)
  | create (searchId : String) (now : Time)
  | writeCache (written : Bool)
  /-- `failure` is what the broker raises, if it does. -/
  | dispatch (failure : Option Raised)

namespace StartSearch

def cacheKey (sha256 : String → String) (r : StartSearch) : String :=
  requestHash sha256 (searchKeyPayload r.agentId r.payload)

def finish (r : StartSearch) (result : Except StartError FlightSearch) : StartSearch :=
  { r with phase := .done result }

def noBroker : Raised := ⟨"RabbitMQ dispatch selected without a broker", "RuntimeError", false⟩

def advance (settings : SearchSettings) (sha256 : String → String) (s : Platform)
    (r : StartSearch) (x : StartChoice) : Option (Platform × StartSearch) :=
  match r.phase, x with
  | .requested, .readCache available =>
    if settings.cache ∧ available then
      match (s.cache.get (r.cacheKey sha256)).bind cachedSearchId with
      | some searchId => some (s, { r with phase := .cached searchId })
      | none => some (s, { r with phase := .missed })
    else some (s, { r with phase := .missed })
  | .cached searchId, .readRow now =>
    match s.world.db.search? searchId with
    | some existing =>
      if now < existing.expiresAt then some (s, r.finish (.ok existing))
      else some (s, { r with phase := .missed })
    | none => some (s, { r with phase := .missed })
  | .missed, .create searchId now =>
    if hp : r.payload.Stores then
      let search := newSearch settings searchId r.agentId r.payload hp now
      match startCreate s.world.db search with
      | .error e => some (s, r.finish (.error (.refused e)))
      | .ok db => some (s.withWorld (s.world.commit db []), { r with phase := .created search })
    else some (s, r.finish (.error (.refused .dbapiError)))
  | .created search, .writeCache written =>
    if settings.cache ∧ written then
      some ({ s with
        cache := s.cache.set (r.cacheKey sha256) (.obj [("search_id", .str search.id)]) },
        { r with phase := .remembered search })
    else some (s, { r with phase := .remembered search })
  | .remembered search, .dispatch failure =>
    match settings.searchDispatchMode with
    | .inline => some ({ s with tasks := s.tasks ++ [search.id] }, r.finish (.ok search))
    | .rabbitmq =>
      if ¬ settings.broker then some (s, r.finish (.error (.undispatched noBroker)))
      else
        match failure with
        | some e => some (s, r.finish (.error (.undispatched e)))
        | none => some ({ s with queue := s.queue ++ [search.id] }, r.finish (.ok search))
  | _, _ => none

end StartSearch

/-- Any calls of `start` by any agents, their steps in any order. -/
def starting (settings : SearchSettings) (sha256 : String → String) :
    Program Platform StartSearch StartChoice where
  fresh r := r.phase matches .requested
  advance := StartSearch.advance settings sha256

@[simp] theorem starting_fresh (settings : SearchSettings) (sha256 : String → String)
    {r : StartSearch} : (starting settings sha256).fresh r = true ↔ r.phase = .requested := by
  cases hp : r.phase <;> simp [starting, hp]

end Ioka
