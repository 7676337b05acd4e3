import Ioka.Domain.Schemas
import Ioka.Database.Models

/-! # Session blocks of the booking service

Each `async with session_factory()` block of `create_order`, `issue_order` and
`_release_hold` as one function on the committed database. A block that raises
returns the error alone: its session is rolled back.
-/

namespace Ioka

open Relational

/-! ## Creating an order -/

/-- `_idempotent_order` -/
def idempotentOrder (db : Database) (agentId scope key payloadHash : String) :
    Except Failure (Option Order) :=
  match db.records.select fun r => r.agentId = agentId ∧ r.scope = scope ∧ r.key = key with
  | none => .ok none
  | some record =>
    if record.requestHash ≠ payloadHash then
      .error (.conflict "Idempotency key was already used with a different request")
    else .ok (db.order? record.resourceId)

/-- The offer joined with its search, restricted to the agent. -/
def agentOffer (db : Database) (agentId offerId : String) : Option Offer :=
  db.offers.select fun o => o.id = offerId ∧
    db.searches.rows.any fun s => s.id = o.searchId ∧ s.agentId = agentId

def createOrderOffer (db : Database) (agentId : String) (payload : OrderCreate) (now : Time) :
    Except Failure Offer :=
  match agentOffer db agentId payload.offerId with
  | none => .error (.notFound "Offer not found")
  | some offer =>
    if offer.expiresAt ≤ now then .error (.conflict "Offer has expired") else .ok offer

def bookRequestPayload (offer : Offer) (key : String) : Json :=
  .obj [("offer_id", .str offer.id), ("idempotency_key", .str key)]

/-- The audit block of a failed `provider.book`. -/
def createOrderRefused (db : Database) (offer : Offer) (key : String) (raised : Raised)
    (durationMs : ℤ) : Except Failure Database :=
  if Storable raised.message then
    .ok (db.addProviderAudit "book" "offer" offer.id (bookRequestPayload offer key) none durationMs
      (if raised.timeout then 504 else 502) (some raised.message))
  else .error .dbapiError

/-- The row that `create_order` stores for a booking as its columns keep it. -/
def newOrder (orderId agentId : String) (payload : OrderCreate) (offer : Offer)
    (booking : ProviderBooking) : Order where
  id := orderId
  agentId := agentId
  offerId := offer.id
  status := .booked
  passenger := payload.passenger.modelDump
  amount := offer.totalAmount
  currency := offer.currency
  providerBookingId := booking.providerBookingId
  bookingReference := booking.bookingReference
  issueIdempotencyKey := none
  ticketNumber := none
  issuedAt := none

def newRecord (agentId key payloadHash orderId : String) : IdempotencyRecord where
  agentId := agentId
  scope := "create_order"
  key := key
  requestHash := payloadHash
  resourceType := "order"
  resourceId := orderId

/-- How the persist block ends. Only an error of the commit reaches its handler. -/
inductive Persisted
  | committed (order : Order) (db : Database)
  | flushFailed (error : Failure)
  | commitFailed (error : Failure)

def createOrderPersist (db : Database) (agentId : String) (payload : OrderCreate)
    (key payloadHash : String) (offer : Offer) (booking : ProviderBooking) (orderId : String)
    (durationMs : ℤ) : Persisted :=
  match booking.kept with
  | none => .flushFailed .dbapiError
  | some kept =>
    let order := newOrder orderId agentId payload offer kept
    match db.insertOrder order with
    | .error e => .flushFailed e
    | .ok flushed =>
      match flushed.insertRecord (newRecord agentId key payloadHash order.id) with
      | .error e => .commitFailed e
      | .ok db' => .committed order
          ((db'.addProviderAudit "book" "order" order.id (bookRequestPayload offer key)
              (some (.obj [("provider_booking_id", .str booking.providerBookingId)])) durationMs
              200 none).addStatusAudit "order" order.id "order_booked" none
            OrderStatus.booked.value)

/-! ## Issuing an order -/

/-- `select(Order).where(Order.id == order_id, Order.agent_id == agent_id)` -/
def agentOrder (db : Database) (agentId orderId : String) : Option Order :=
  db.orders.select fun o => o.id = orderId ∧ o.agentId = agentId

inductive HoldResult
  /-- The order is issued already and is returned as it is. -/
  | issued (order : Order) (agent : Agent)
  /-- The hold is committed; `debit` is the sum taken from the balance, if any was. -/
  | held (providerBookingId : String) (debit : Option Money)

/-- `order.issue_idempotency_key and order.issue_idempotency_key != idempotency_key` -/
def Order.otherKey (order : Order) (key : String) : Bool :=
  match order.issueIdempotencyKey with
  | none => false
  | some k => k ≠ "" ∧ k ≠ key

/-- Take the money for an order, unless an earlier hold still stands. -/
def holdMoney (db : Database) (order : Order) (agent : Agent)
    (transaction : Option BalanceTransaction) (key transactionId : String) :
    Except Failure (Database × Option Money) :=
  match transaction with
  | none =>
    if agent.balance < order.amount then
      .error (.insufficientBalance "Agent balance is insufficient"
        [("balance", agent.balance.str), ("required", order.amount.str)])
    else do
      let db ← db.updateAgent agent.id fun a => { a with balance := agent.balance - order.amount }
      let db ← db.insertTransaction {
        id := transactionId
        agentId := agent.id
        orderId := order.id
        idempotencyKey := key
        amount := order.amount
        currency := order.currency
        status := .held }
      return (db, some order.amount)
  | some transaction =>
    if transaction.status = .released then
      if agent.balance < order.amount then
        .error (.insufficientBalance "Agent balance is insufficient" [])
      else do
        let db ← db.updateAgent agent.id fun a => { a with balance := agent.balance - order.amount }
        let db ← db.updateTransaction transaction.id fun t => { t with status := .held }
        return (db, some order.amount)
    else .ok (db, none)

/-- The hold phase, after its three reads. -/
def holdRows (db : Database) (order : Order) (agent : Agent)
    (transaction : Option BalanceTransaction) (key transactionId : String) :
    Except Failure (HoldResult × Database) :=
  if order.status = .issued then .ok (.issued order agent, db)
  else if order.otherKey key then
    .error (.conflict "Order issue is already being processed with another idempotency key")
  else do
    let (db, debit) ← holdMoney db order agent transaction key transactionId
    let db ← db.updateOrder order.id fun o =>
      { o with status := .issuing, issueIdempotencyKey := some key }
    return (.held order.providerBookingId debit,
      db.addStatusAudit "order" order.id "issue_started" (some order.status.value)
        OrderStatus.issuing.value)

def issueOrderHold (db : Database) (agentId orderId key transactionId : String) :
    Except Failure (HoldResult × Database) :=
  match agentOrder db agentId orderId with
  | none => .error (.notFound "Order not found")
  | some order =>
    match db.agent? agentId with
    | none => .error (.notFound "Agent not found")
    | some agent => holdRows db order agent (db.transactionOf order.id) key transactionId

/-- What `issue_order` returns. -/
abbrev Issued := Order × Agent × PaymentStatus

/-- The capture phase, after its three reads. -/
def captureRows (db : Database) (order : Order) (agent : Agent) (transaction : BalanceTransaction)
    (key : String) (ticket : ProviderTicket) (durationMs : ℤ) :
    Except Failure (Issued × Database) :=
  if order.status ≠ .issued then
    match ticket.kept with
    | none => .error .dbapiError
    | some kept => do
      let db ← db.updateOrder order.id fun o => { o with
        status := .issued
        ticketNumber := some kept.ticketNumber
        issuedAt := some kept.issuedAt }
      let db ← db.updateTransaction transaction.id fun t => { t with status := .captured }
      let db := db.addProviderAudit "issue" "order" order.id
        (.obj [("idempotency_key", .str key)])
        (some (.obj [("ticket_number", .str ticket.ticketNumber)])) durationMs 200 none
      let db := db.addStatusAudit "order" order.id "issue_completed" (some order.status.value)
        OrderStatus.issued.value
      return (({ order with
        status := .issued
        ticketNumber := some kept.ticketNumber
        issuedAt := some kept.issuedAt }, agent, .captured), db)
  else .ok ((order, agent, transaction.status), db)

def issueOrderCapture (db : Database) (agentId orderId key : String) (ticket : ProviderTicket)
    (durationMs : ℤ) : Except Failure (Issued × Database) :=
  match agentOrder db agentId orderId, db.agent? agentId, db.transactionOf orderId with
  | some order, some agent, some transaction =>
    captureRows db order agent transaction key ticket durationMs
  | _, _, _ => .error (.notFound "Issue state not found")

/-- `_release_hold`, after its three reads, with the sum given back, if any was. -/
def releaseRows (db : Database) (order : Order) (agent : Agent) (transaction : BalanceTransaction)
    (error : String) : Except Failure (Database × Option Money) :=
  if transaction.status = .held then
    if Storable error then do
      let db ← db.updateAgent agent.id fun a =>
        { a with balance := agent.balance + transaction.amount }
      let db ← db.updateTransaction transaction.id fun t => { t with status := .released }
      let db ← db.updateOrder order.id fun o => { o with status := .booked }
      let db := db.addProviderAudit "issue" "order" order.id
        (.obj [("idempotency_key", .str transaction.idempotencyKey)]) none 0 502 (some error)
      return (db.addStatusAudit "order" order.id "issue_failed" (some order.status.value)
        OrderStatus.booked.value, some transaction.amount)
    else .error .dbapiError
  else .ok (db, none)

/-- `_release_hold` -/
def releaseHold (db : Database) (agentId orderId error : String) :
    Except Failure (Database × Option Money) :=
  match db.order? orderId, db.agent? agentId, db.transactionOf orderId with
  | some order, some agent, some transaction => releaseRows db order agent transaction error
  | _, _, _ => .ok (db, none)

end Ioka
