import Mathlib.Data.Multiset.Basic
import Ioka.Booking.Blocks
import Ioka.Search.Blocks

/-! # Requests that only read

The endpoints that look up a search, an offer, an order or a ticket for an agent,
as functions of the committed database.
-/

namespace Ioka

/-- `SearchService.get`, with the offers that it loads in no particular order. -/
def searchGet (db : Database) (searchId agentId : String) :
    Except Failure (FlightSearch × Multiset Offer) :=
  match db.searches.select fun s => s.id = searchId ∧ s.agentId = agentId with
  | none => .error (.notFound "Search not found")
  | some search => .ok (search, db.offersOf search.id)

/-- What `offer_details` shows of an offer. -/
structure OfferDetail where
  id : String
  origin : String
  destination : String
  departureAt : Time
  arrivalAt : Time
  carrier : String
  flightNumber : String
  fareFamily : String
  baggage : String
  totalAmount : Money
  currency : String
  expiresAt : Time
  provider : String
  fareRules : Json

def Offer.detail (offer : Offer) : OfferDetail where
  id := offer.id
  origin := offer.origin
  destination := offer.destination
  departureAt := offer.departureAt
  arrivalAt := offer.arrivalAt
  carrier := offer.carrier
  flightNumber := offer.flightNumber
  fareFamily := offer.fareFamily
  baggage := offer.baggage
  totalAmount := offer.totalAmount
  currency := offer.currency
  expiresAt := offer.expiresAt
  provider := offer.provider
  fareRules := offer.rawPayload

def offerDetails (db : Database) (agentId offerId : String) : Except Failure OfferDetail :=
  match agentOffer db agentId offerId with
  | none => .error (.notFound "Offer not found")
  | some offer => .ok offer.detail

def getOrder (db : Database) (agentId orderId : String) : Except Failure Order :=
  match agentOrder db agentId orderId with
  | none => .error (.notFound "Order not found")
  | some order => .ok order

/-- The text of a member of a JSON object. -/
def memberText (v : Json) (key : String) : String :=
  match v.member? key with
  | some (.str s) => s
  | _ => ""

/-- The table that `build_ticket_pdf` prints. -/
def ticketRows (isoformat : Time → String) (order : Order) (offer : Offer) :
    List (String × String) :=
  [("Booking reference", order.bookingReference),
    ("Ticket number", order.ticketNumber.getD ""),
    ("Passenger", memberText order.passenger "first_name" ++ " " ++
      memberText order.passenger "last_name"),
    ("Route", offer.origin ++ "  ->  " ++ offer.destination),
    ("Flight", offer.carrier ++ " " ++ offer.flightNumber),
    ("Departure", isoformat offer.departureAt),
    ("Fare", offer.fareFamily ++ "; " ++ offer.baggage),
    ("Total", order.amount.str ++ " " ++ order.currency)]

/-- `get_ticket`. Without the offer of the order there would be no rows; the foreign key of the
order rules that out. -/
def getTicket (isoformat : Time → String) (db : Database) (agentId orderId : String) :
    Except Failure (Option (List (String × String))) := do
  let order ← getOrder db agentId orderId
  if order.status ≠ .issued ∨ order.ticketNumber.getD "" = "" then
    .error (.conflict "Ticket is available only for an issued order")
  else
    .ok ((db.offers.select fun o => o.id = order.offerId).map (ticketRows isoformat order))

end Ioka
