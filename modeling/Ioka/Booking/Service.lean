import Ioka.Booking.Blocks
import Ioka.Database.World
import Ioka.Transition.Program

/-! # Requests of the booking service

`create_order` and `issue_order` as processes that advance one session block or
one half of a provider call at a time. Times, durations, new ids and the
provider's answers are chosen by the environment.
-/

namespace Ioka

open Transition

/-! ## `create_order` -/

inductive CreatePhase
  | requested
  /-- No earlier request with the key was found. -/
  | unseen
  | offered (offer : Offer)
  /-- `provider.book` is under way. -/
  | booking (offer : Offer)
  | booked (offer : Offer) (booking : ProviderBooking)
  | refused (offer : Offer) (raised : Raised)
  /-- The commit raised, and the session was rolled back. -/
  | conflicted (error : Failure)
  | done (result : Except Failure Order)

structure CreateOrder where
  agentId : String
  payload : OrderCreate
  idempotencyKey : String
  phase : CreatePhase

inductive CreateChoice
  | replay
  | checkOffer (now : Time)
  | call
  | answer (booking : ProviderBooking)
  | raise (raised : Raised)
  /-- The provider's call ends in a `CancelledError`. -/
  | cancel
  | auditRefusal (durationMs : ℤ)
  | persist (orderId : String) (durationMs : ℤ)

namespace CreateOrder

variable (sha256 : String → String)

def payloadHash (r : CreateOrder) : String := requestHash sha256 r.payload.modelDump

def finish (r : CreateOrder) (result : Except Failure Order) : CreateOrder :=
  { r with phase := .done result }

/-- The replay check; `missing` says what follows when no order is found. -/
def replay (w : World) (r : CreateOrder) (missing : CreatePhase) : World × CreateOrder :=
  match idempotentOrder w.db r.agentId "create_order" r.idempotencyKey (r.payloadHash sha256) with
  | .error e => (w, r.finish (.error e))
  | .ok (some order) => (w, r.finish (.ok order))
  | .ok none => (w, { r with phase := missing })

def advance (w : World) (r : CreateOrder) (x : CreateChoice) : Option (World × CreateOrder) :=
  match r.phase, x with
  | .requested, .replay => some (r.replay sha256 w .unseen)
  | .unseen, .checkOffer now =>
    match createOrderOffer w.db r.agentId r.payload now with
    | .error e => some (w, r.finish (.error e))
    | .ok offer => some (w, { r with phase := .offered offer })
  | .offered offer, .call =>
    some (w.called (.bookCalled offer.providerOfferId r.idempotencyKey),
      { r with phase := .booking offer })
  | .booking offer, .answer booking => some (w, { r with phase := .booked offer booking })
  | .booking offer, .raise raised => some (w, { r with phase := .refused offer raised })
  | .booking _, .cancel => some (w, r.finish (.error .cancelledError))
  | .refused offer raised, .auditRefusal durationMs =>
    match createOrderRefused w.db offer r.idempotencyKey raised durationMs with
    | .error e => some (w, r.finish (.error e))
    | .ok db => some (w.commit db [],
        r.finish (.error (.providerError "Airline provider rejected the booking")))
  | .booked offer booking, .persist orderId durationMs =>
    match createOrderPersist w.db r.agentId r.payload r.idempotencyKey (r.payloadHash sha256)
        offer booking orderId durationMs with
    | .flushFailed e => some (w, r.finish (.error e))
    | .commitFailed e => some (w, { r with phase := .conflicted e })
    | .committed order db =>
      some (w.commit db [.orderCommitted r.agentId r.idempotencyKey r.payload order.id],
        r.finish (.ok order))
  | .conflicted e, .replay => some (r.replay sha256 w (.done (.error e)))
  | _, _ => none

def program : Program World CreateOrder CreateChoice where
  fresh r := r.phase matches .requested
  advance := advance sha256

theorem fresh_iff {r : CreateOrder} :
    (program sha256).fresh r = true ↔ r.phase = .requested := by
  cases hp : r.phase <;> simp [program, hp]

end CreateOrder

/-! ## `issue_order` -/

inductive IssuePhase
  | requested
  /-- The hold is committed. -/
  | held (providerBookingId : String)
  /-- `provider.issue` is under way. -/
  | issuing (providerBookingId : String)
  | ticketed (ticket : ProviderTicket)
  | refused (raised : Raised)
  | done (result : Except Failure Issued)

structure IssueOrder where
  agentId : String
  orderId : String
  idempotencyKey : String
  phase : IssuePhase

inductive IssueChoice
  | hold (transactionId : String)
  | call
  | answer (ticket : ProviderTicket)
  | raise (raised : Raised)
  /-- The provider's call ends in a `CancelledError`. -/
  | cancel
  | release
  | capture (durationMs : ℤ)

namespace IssueOrder

def finish (r : IssueOrder) (result : Except Failure Issued) : IssueOrder :=
  { r with phase := .done result }

def advance (w : World) (r : IssueOrder) (x : IssueChoice) : Option (World × IssueOrder) :=
  match r.phase, x with
  | .requested, .hold transactionId =>
    match issueOrderHold w.db r.agentId r.orderId r.idempotencyKey transactionId with
    | .error e => some (w, r.finish (.error e))
    | .ok (.issued order agent, _) => some (w, r.finish (.ok (order, agent, .captured)))
    | .ok (.held providerBookingId debit, db) =>
      some (w.commit db (debit.toList.map (.debited r.agentId r.orderId)),
        { r with phase := .held providerBookingId })
  | .held providerBookingId, .call =>
    some (w.called (.issueCalled r.orderId providerBookingId r.idempotencyKey),
      { r with phase := .issuing providerBookingId })
  | .issuing _, .answer ticket => some (w, { r with phase := .ticketed ticket })
  | .issuing _, .raise raised => some (w, { r with phase := .refused raised })
  | .issuing _, .cancel => some (w, r.finish (.error .cancelledError))
  | .refused raised, .release =>
    match releaseHold w.db r.agentId r.orderId raised.text with
    | .error e => some (w, r.finish (.error e))
    | .ok (db, refund) =>
      some (w.commit db (refund.toList.map (.refunded r.agentId r.orderId)),
        r.finish (.error (.providerError "Airline provider failed to issue the ticket")))
  | .ticketed ticket, .capture durationMs =>
    match issueOrderCapture w.db r.agentId r.orderId r.idempotencyKey ticket durationMs with
    | .error e => some (w, r.finish (.error e))
    | .ok (result, db) => some (w.commit db [], r.finish (.ok result))
  | _, _ => none

def program : Program World IssueOrder IssueChoice where
  fresh r := r.phase matches .requested
  advance := advance

theorem fresh_iff {r : IssueOrder} : program.fresh r = true ↔ r.phase = .requested := by
  cases hp : r.phase <;> simp [program, hp]

end IssueOrder

/-! ## Both kinds of request side by side -/

abbrev Request := CreateOrder ⊕ IssueOrder

abbrev Choice := CreateChoice ⊕ IssueChoice

def Request.agentId : Request → String := Sum.elim CreateOrder.agentId IssueOrder.agentId

abbrev Booking := Config World Request

/-- Any requests of any agents, their steps in any order. -/
def booking (sha256 : String → String) : Program World Request Choice :=
  (CreateOrder.program sha256).sum IssueOrder.program

@[simp] theorem booking_fresh_create (sha256 : String → String) {r : CreateOrder} :
    (booking sha256).fresh (.inl r) = true ↔ r.phase = .requested :=
  CreateOrder.fresh_iff sha256

@[simp] theorem booking_fresh_issue (sha256 : String → String) {r : IssueOrder} :
    (booking sha256).fresh (.inr r) = true ↔ r.phase = .requested := IssueOrder.fresh_iff

/-! ## Requests on the small store -/

namespace Example

def payload : OrderCreate where
  offerId := "offer"
  passenger := {
    firstName := "ADA"
    lastName := "LOVELACE"
    birthDate := ⟨1990, 12, 10, by decide, by decide, by decide⟩
    documentNumber := "AB1234567"
    documentExpiry := ⟨2030, 1, 1, by decide, by decide, by decide⟩
    citizenship := "UZ" }

def providerBooking : ProviderBooking := ⟨"BKG-1", "REF001"⟩

def ticket : ProviderTicket := ⟨"250-0000000001", 500⟩

/-- The same agent after booking the offer. -/
def booked : World where
  db := { offered.db with
    orders := ⟨[newOrder "order" "agent" payload offer providerBooking], by decide⟩ }
  history := []

def issueRequest (key : String) : Request := .inr ⟨"agent", "order", key, .requested⟩

def createRequest (key : String) : Request := .inl ⟨"agent", payload, key, .requested⟩

/-- A request that finds no earlier one, books the offer and stores its order. -/
def bookSteps : List (Action Request Choice) :=
  [.spawn (createRequest "create"), .advance 0 (.inl .replay), .advance 0 (.inl (.checkOffer 100)),
    .advance 0 (.inl .call), .advance 0 (.inl (.answer providerBooking)),
    .advance 0 (.inl (.persist "order" 5))]

/-- A request that holds, gets its ticket and captures. -/
def issueSteps (i : ℕ) : List (Action Request Choice) :=
  [.advance i (.inr (.hold "transaction")), .advance i (.inr .call),
    .advance i (.inr (.answer ticket)), .advance i (.inr (.capture 5))]

end Example

end Ioka
