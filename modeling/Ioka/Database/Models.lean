import Ioka.Database.Columns
import Ioka.Relational.Table

/-! # The tables

The rows of each table with its unique columns, and the database. A write that
would break a unique constraint raises `IntegrityError`, and the session that
issued it rolls back. The texts and amounts of a row are those that its columns
have taken already.
-/

namespace Ioka

open Relational

structure Agent where
  id : String
  balance : Money
  currency : String
  deriving DecidableEq

/-- The numbers of passengers that a request may ask for. -/
def AdultsInBounds (adults : ℤ) : Prop := 1 ≤ adults ∧ adults ≤ 9

instance (adults : ℤ) : Decidable (AdultsInBounds adults) := inferInstanceAs (Decidable (_ ∧ _))

/-- A search, with the bounds of its columns and of the request that it was made for. -/
structure FlightSearch where
  id : String
  agentId : String
  origin : String
  destination : String
  departureDate : Date
  adults : ℤ
  cabinClass : String
  status : SearchStatus
  errorCode : Option String
  errorMessage : Option String
  expiresAt : Time
  completedAt : Option Time
  origin_fits : Fits 3 origin := by decide
  destination_fits : Fits 3 destination := by decide
  adults_bounds : AdultsInBounds adults := by decide
  deriving DecidableEq

structure Offer where
  id : String
  searchId : String
  provider : String
  providerOfferId : String
  origin : String
  destination : String
  departureAt : Time
  arrivalAt : Time
  carrier : String
  flightNumber : String
  fareFamily : String
  baggage : String
  totalAmount : Money
  currency : String
  expiresAt : Time
  rawPayload : Json

structure Order where
  id : String
  agentId : String
  offerId : String
  status : OrderStatus
  passenger : Json
  amount : Money
  currency : String
  providerBookingId : String
  bookingReference : String
  issueIdempotencyKey : Option String
  ticketNumber : Option String
  issuedAt : Option Time

structure BalanceTransaction where
  id : String
  agentId : String
  orderId : String
  idempotencyKey : String
  amount : Money
  currency : String
  status : PaymentStatus
  deriving DecidableEq

structure IdempotencyRecord where
  agentId : String
  scope : String
  key : String
  requestHash : String
  resourceType : String
  resourceId : String
  deriving DecidableEq

structure AuditLog where
  kind : AuditKind
  action : String
  entityType : String
  entityId : String
  requestPayload : Option Json
  responsePayload : Option Json
  statusCode : Option ℤ
  durationMs : Option ℤ
  errorMessage : Option String

def Agent.uniques : List (Agent → Option (List String)) := [fun a => some [a.id]]

def FlightSearch.uniques : List (FlightSearch → Option (List String)) := [fun s => some [s.id]]

def Offer.uniques : List (Offer → Option (List String)) :=
  [fun o => some [o.id], fun o => some [o.provider, o.providerOfferId]]

def Order.uniques : List (Order → Option (List String)) :=
  [fun o => some [o.id], fun o => some [o.bookingReference],
    fun o => o.issueIdempotencyKey.map ([·]), fun o => o.ticketNumber.map ([·])]

theorem Order.distinct_iff {o p : Order} : Distinct Order.uniques o p ↔
    o.id ≠ p.id ∧ o.bookingReference ≠ p.bookingReference ∧
      (o.issueIdempotencyKey = none ∨ o.issueIdempotencyKey ≠ p.issueIdempotencyKey) ∧
      (o.ticketNumber = none ∨ o.ticketNumber ≠ p.ticketNumber) := by
  have hmap : ∀ x y : Option String, x.map (fun k => [k]) = y.map (fun k => [k]) ↔ x = y := by
    intro x y
    cases x <;> cases y <;> simp
  simp [Distinct, Order.uniques, hmap]

def BalanceTransaction.uniques : List (BalanceTransaction → Option (List String)) :=
  [fun t => some [t.id], fun t => some [t.idempotencyKey]]

def IdempotencyRecord.uniques : List (IdempotencyRecord → Option (List String)) :=
  [fun r => some [r.agentId, r.scope, r.key]]

structure Database where
  agents : Table Agent.uniques
  searches : Table FlightSearch.uniques
  offers : Table Offer.uniques
  orders : Table Order.uniques
  transactions : Table BalanceTransaction.uniques
  records : Table IdempotencyRecord.uniques
  audit : List AuditLog

namespace Database

/-- A write to one table, which raises if the constraint refuses the new table. -/
def writing {α : Type} {cols : List (α → Option (List String))} (put : Table cols → Database)
    (t? : Option (Table cols)) : Except Failure Database :=
  match t? with
  | some t => .ok (put t)
  | none => .error .integrityError

theorem writing_eq_ok {α : Type} {cols : List (α → Option (List String))}
    {put : Table cols → Database} {t? : Option (Table cols)} {db : Database} :
    writing put t? = .ok db ↔ ∃ t, t? = some t ∧ db = put t := by
  cases t? <;> simp [writing, eq_comm]

theorem writing_eq_error {α : Type} {cols : List (α → Option (List String))}
    {put : Table cols → Database} {t? : Option (Table cols)} {e : Failure}
    (h : writing put t? = .error e) : e = .integrityError := by
  cases t? with
  | none =>
    cases h
    rfl
  | some t => cases h

variable (db : Database)

def updateAgent (id : String) (f : Agent → Agent) : Except Failure Database :=
  writing (fun t => { db with agents := t }) (db.agents.update? (fun a => a.id = id) f)

def insertSearch (s : FlightSearch) : Except Failure Database :=
  writing (fun t => { db with searches := t }) (db.searches.insert? s)

def updateSearch (id : String) (f : FlightSearch → FlightSearch) : Except Failure Database :=
  writing (fun t => { db with searches := t }) (db.searches.update? (fun s => s.id = id) f)

def insertOffer (o : Offer) : Except Failure Database :=
  writing (fun t => { db with offers := t }) (db.offers.insert? o)

def insertOrder (o : Order) : Except Failure Database :=
  writing (fun t => { db with orders := t }) (db.orders.insert? o)

def updateOrder (id : String) (f : Order → Order) : Except Failure Database :=
  writing (fun t => { db with orders := t }) (db.orders.update? (fun o => o.id = id) f)

def insertTransaction (t : BalanceTransaction) : Except Failure Database :=
  writing (fun u => { db with transactions := u }) (db.transactions.insert? t)

def updateTransaction (id : String) (f : BalanceTransaction → BalanceTransaction) :
    Except Failure Database :=
  writing (fun u => { db with transactions := u }) (db.transactions.update? (fun t => t.id = id) f)

def insertRecord (r : IdempotencyRecord) : Except Failure Database :=
  writing (fun t => { db with records := t }) (db.records.insert? r)

/-- `add_status_audit` -/
def addStatusAudit (entityType entityId action : String) (before : Option String)
    (after : String) : Database :=
  { db with audit := db.audit ++ [{
      kind := .statusChange
      action := action
      entityType := entityType
      entityId := entityId
      requestPayload := some (.obj [("before", before.elim .null .str)])
      responsePayload := some (.obj [("after", .str after)])
      statusCode := some 200
      durationMs := none
      errorMessage := none }] }

/-- `add_provider_audit` -/
def addProviderAudit (action entityType entityId : String) (requestPayload : Json)
    (responsePayload : Option Json) (durationMs statusCode : ℤ) (errorMessage : Option String) :
    Database :=
  { db with audit := db.audit ++ [{
      kind := .providerRequest
      action := action
      entityType := entityType
      entityId := entityId
      requestPayload := some requestPayload
      responsePayload := responsePayload
      statusCode := some statusCode
      durationMs := some durationMs
      errorMessage := errorMessage }] }

def agent? (id : String) : Option Agent := db.agents.select fun a => a.id = id

def search? (id : String) : Option FlightSearch := db.searches.select fun s => s.id = id

def order? (id : String) : Option Order := db.orders.select fun o => o.id = id

/-- The transaction of an order, as the first row that carries its id. -/
def transactionOf (orderId : String) : Option BalanceTransaction :=
  db.transactions.select fun t => t.orderId = orderId

variable {db}

theorem agent_ext {a b : Agent} (ha : a ∈ db.agents) (hb : b ∈ db.agents) (h : a.id = b.id) :
    a = b :=
  Table.eq_of_col (c := fun a => some [a.id]) (by simp [Agent.uniques]) ha hb rfl (by simp [h])

theorem search_ext {s t : FlightSearch} (hs : s ∈ db.searches) (ht : t ∈ db.searches)
    (h : s.id = t.id) : s = t :=
  Table.eq_of_col (c := fun s => some [s.id]) (by simp [FlightSearch.uniques]) hs ht rfl
    (by simp [h])

theorem order_ext {o p : Order} (ho : o ∈ db.orders) (hp : p ∈ db.orders) (h : o.id = p.id) :
    o = p :=
  Table.eq_of_col (c := fun o => some [o.id]) (by simp [Order.uniques]) ho hp rfl (by simp [h])

theorem order_ext_of_key {o p : Order} {k : String} (ho : o ∈ db.orders) (hp : p ∈ db.orders)
    (hok : o.issueIdempotencyKey = some k) (hpk : p.issueIdempotencyKey = some k) : o = p := by
  have hc : (fun o : Order => o.issueIdempotencyKey.map ([·])) ∈ Order.uniques := by
    simp [Order.uniques]
  exact Table.eq_of_col hc ho hp (congrArg _ hok) (congrArg _ hpk)

theorem order_ext_of_reference {o p : Order} (ho : o ∈ db.orders) (hp : p ∈ db.orders)
    (h : o.bookingReference = p.bookingReference) : o = p :=
  Table.eq_of_col (c := fun o => some [o.bookingReference]) (by simp [Order.uniques]) ho hp rfl
    (by simp [h])

theorem order_ext_of_ticket {o p : Order} {n : String} (ho : o ∈ db.orders) (hp : p ∈ db.orders)
    (hon : o.ticketNumber = some n) (hpn : p.ticketNumber = some n) : o = p := by
  have hc : (fun o : Order => o.ticketNumber.map ([·])) ∈ Order.uniques := by
    simp [Order.uniques]
  exact Table.eq_of_col hc ho hp (congrArg _ hon) (congrArg _ hpn)

theorem transaction_ext {t u : BalanceTransaction} (ht : t ∈ db.transactions)
    (hu : u ∈ db.transactions) (h : t.id = u.id) : t = u :=
  Table.eq_of_col (c := fun t => some [t.id]) (by simp [BalanceTransaction.uniques]) ht hu rfl
    (by simp [h])

theorem transaction_ext_of_key {t u : BalanceTransaction} (ht : t ∈ db.transactions)
    (hu : u ∈ db.transactions) (h : t.idempotencyKey = u.idempotencyKey) : t = u :=
  Table.eq_of_col (c := fun t => some [t.idempotencyKey]) (by simp [BalanceTransaction.uniques])
    ht hu rfl (by simp [h])

theorem record_ext {r s : IdempotencyRecord} (hr : r ∈ db.records) (hs : s ∈ db.records)
    (ha : r.agentId = s.agentId) (hc : r.scope = s.scope) (hk : r.key = s.key) : r = s :=
  Table.eq_of_col (c := fun r => some [r.agentId, r.scope, r.key])
    (by simp [IdempotencyRecord.uniques]) hr hs rfl (by simp [ha, hc, hk])

theorem agent?_eq_some {id : String} {a : Agent} :
    db.agent? id = some a ↔ a ∈ db.agents ∧ a.id = id := by
  rw [agent?, Table.select_eq_some]
  · simp
  · intro a ha b hb h₁ h₂
    exact agent_ext ha hb (by simp_all)

theorem search?_eq_some {id : String} {s : FlightSearch} :
    db.search? id = some s ↔ s ∈ db.searches ∧ s.id = id := by
  rw [search?, Table.select_eq_some]
  · simp
  · intro s hs t ht h₁ h₂
    exact search_ext hs ht (by simp_all)

theorem order?_eq_some {id : String} {o : Order} :
    db.order? id = some o ↔ o ∈ db.orders ∧ o.id = id := by
  rw [order?, Table.select_eq_some]
  · simp
  · intro a ha b hb h₁ h₂
    exact order_ext ha hb (by simp_all)

theorem offers_nodup : db.offers.rows.Nodup :=
  Table.nodup (c := fun o => some [o.id]) (by simp [Offer.uniques]) (by simp)

theorem orders_nodup : db.orders.rows.Nodup :=
  Table.nodup (c := fun o => some [o.id]) (by simp [Order.uniques]) (by simp)

theorem transactions_nodup : db.transactions.rows.Nodup :=
  Table.nodup (c := fun t => some [t.id]) (by simp [BalanceTransaction.uniques]) (by simp)

/-! Writes that no constraint refuses -/

section Writes

variable (db)

theorem exists_updateAgent {f : Agent → Agent} (id : String) (hf : ∀ a, (f a).id = a.id) :
    ∃ tab, db.updateAgent id f = .ok { db with agents := tab } := by
  have hsome : (db.agents.update? (fun a => a.id = id) f).isSome := by
    apply Table.isSome_update?_of_col
    intro c hc a
    simp only [Agent.uniques, List.mem_singleton] at hc
    simp [hc, hf]
  obtain ⟨tab, ht⟩ := Option.isSome_iff_exists.mp hsome
  exact ⟨tab, by rw [updateAgent, ht]; rfl⟩

theorem exists_updateSearch {f : FlightSearch → FlightSearch} (id : String)
    (hf : ∀ s, (f s).id = s.id) :
    ∃ tab, tab.rows = amend (fun s => s.id = id) f db.searches.rows ∧
      db.updateSearch id f = .ok { db with searches := tab } := by
  have hsome : (db.searches.update? (fun s => s.id = id) f).isSome := by
    apply Table.isSome_update?_of_col
    intro c hc s
    simp only [FlightSearch.uniques, List.mem_singleton] at hc
    simp [hc, hf]
  obtain ⟨tab, ht⟩ := Option.isSome_iff_exists.mp hsome
  exact ⟨tab, Table.update?_eq_some.mp ht, by rw [updateSearch, ht]; rfl⟩

theorem exists_insertTransaction {t : BalanceTransaction}
    (hid : ∀ u ∈ db.transactions, u.id ≠ t.id)
    (hk : ∀ u ∈ db.transactions, u.idempotencyKey ≠ t.idempotencyKey) :
    ∃ tab, db.insertTransaction t = .ok { db with transactions := tab } := by
  have hsome : (db.transactions.insert? t).isSome := by
    rw [Table.isSome_insert?]
    intro u hu c hc
    simp only [BalanceTransaction.uniques, List.mem_cons, List.not_mem_nil, or_false] at hc
    rcases hc with rfl | rfl
    · simp [hid u hu]
    · simp [hk u hu]
  obtain ⟨tab, ht⟩ := Option.isSome_iff_exists.mp hsome
  exact ⟨tab, by rw [insertTransaction, ht]; rfl⟩

theorem exists_updateTransaction {f : BalanceTransaction → BalanceTransaction} (id : String)
    (hf : ∀ t, (f t).id = t.id ∧ (f t).idempotencyKey = t.idempotencyKey) :
    ∃ tab, db.updateTransaction id f = .ok { db with transactions := tab } := by
  have hsome : (db.transactions.update? (fun t => t.id = id) f).isSome := by
    apply Table.isSome_update?_of_col
    intro c hc t
    simp only [BalanceTransaction.uniques, List.mem_cons, List.not_mem_nil, or_false] at hc
    rcases hc with rfl | rfl
    · simp [(hf t).1]
    · simp [(hf t).2]
  obtain ⟨tab, ht⟩ := Option.isSome_iff_exists.mp hsome
  exact ⟨tab, by rw [updateTransaction, ht]; rfl⟩

theorem exists_updateOrder {o : Order} {f : Order → Order} (ho : o ∈ db.orders)
    (hf : ∀ p ∈ db.orders, p.id ≠ o.id → Distinct Order.uniques (f o) p) :
    ∃ tab, db.updateOrder o.id f = .ok { db with orders := tab } := by
  have hsome : (db.orders.update? (fun p => p.id = o.id) f).isSome := by
    refine Table.isSome_update?_of_row orders_nodup ?_ (a := o) ?_
    · intro p hp h
      exact order_ext hp ho (by simpa using h)
    · intro p hp h
      exact hf p hp (by simpa using h)
  obtain ⟨tab, ht⟩ := Option.isSome_iff_exists.mp hsome
  exact ⟨tab, by rw [updateOrder, ht]; rfl⟩

end Writes

theorem orders_distinct {o p : Order} (ho : o ∈ db.orders) (hp : p ∈ db.orders)
    (hne : p.id ≠ o.id) : Distinct Order.uniques o p :=
  db.orders.unique.forall ho hp (by rintro rfl; exact hne rfl)

end Database

end Ioka
