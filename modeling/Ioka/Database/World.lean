import Ioka.Domain.Schemas
import Ioka.Database.Models

/-! # The store that requests share

The committed database together with what happened so far: the calls that left
for the provider, the orders committed, and the money taken and given back.
-/

namespace Ioka

inductive Event
  | bookCalled (providerOfferId key : String)
  | issueCalled (orderId providerBookingId key : String)
  | searchCalled (searchId : String)
  | orderCommitted (agentId key : String) (payload : OrderCreate) (orderId : String)
  | debited (agentId orderId : String) (amount : Money)
  | refunded (agentId orderId : String) (amount : Money)
  deriving DecidableEq

structure World where
  db : Database
  history : List Event

namespace World

/-- The world after a commit, with what the commit made happen. -/
def commit (w : World) (db : Database) (events : List Event) : World :=
  { w with db := db, history := w.history ++ events }

/-- A call leaves for the provider. -/
def called (w : World) (e : Event) : World := { w with history := w.history ++ [e] }

variable (w : World) (db : Database) (es : List Event) (e : Event)

@[simp] theorem commit_db : (w.commit db es).db = db := rfl
@[simp] theorem commit_history : (w.commit db es).history = w.history ++ es := rfl
@[simp] theorem called_db : (w.called e).db = w.db := rfl
theorem commit_self : w.commit w.db [] = w := by simp [commit]

end World

/-! ## A small store -/

namespace Example

def agent : Agent := ⟨"agent", 30000, "UZS"⟩

def search : FlightSearch where
  id := "search"
  agentId := "agent"
  origin := "TAS"
  destination := "SKD"
  departureDate := ⟨2026, 10, 1, by decide, by decide, by decide⟩
  adults := 1
  cabinClass := "economy"
  status := .completed
  errorCode := none
  errorMessage := none
  expiresAt := 1000
  completedAt := some 10

def offer : Offer where
  id := "offer"
  searchId := "search"
  provider := "mock-air"
  providerOfferId := "seed-0"
  origin := "TAS"
  destination := "SKD"
  departureAt := 2000
  arrivalAt := 3000
  carrier := "Ioka Airways"
  flightNumber := "IO210"
  fareFamily := "BASIC"
  baggage := "Carry-on 8 kg"
  totalAmount := 10000
  currency := "UZS"
  expiresAt := 900
  rawPayload := .obj []

/-- An agent with an offer to book. -/
def offered : World where
  db := {
    agents := ⟨[agent], by decide⟩
    searches := ⟨[search], by decide⟩
    offers := ⟨[offer], by decide⟩
    orders := .empty
    transactions := .empty
    records := .empty
    audit := [] }
  history := []

/-- Two agents, each with an offer of its own. -/
def twoOffered : World where
  db := { offered.db with
    agents := ⟨[agent, { agent with id := "other" }], by decide⟩
    searches := ⟨[search, { search with id := "search-1", agentId := "other" }], by decide⟩
    offers := ⟨[offer, { offer with
      id := "offer-1", searchId := "search-1", providerOfferId := "seed-1" }], by decide⟩ }
  history := []

end Example

end Ioka
