import Ioka.Json.Render

/-! # Domain types

Statuses, the data of the airline provider's port, and the application's errors.
-/

namespace Ioka

/-- An amount in hundredths, as a `Numeric(16, 2)` column holds it. Balances are taken to stay
below the bound of the column. -/
abbrev Money := ℤ

/-- A finite `Decimal`: `coefficient * 10 ^ exponent`. -/
structure Decimal where
  coefficient : ℤ
  exponent : ℤ
  deriving DecidableEq

/-- A point in time, in microseconds since 1970 (UTC). -/
abbrev Time := ℤ

inductive SearchStatus
  | pending | inProgress | completed | failed | timedOut
  deriving DecidableEq, Repr

inductive OrderStatus
  | booked | issuing | issued | cancelled
  deriving DecidableEq, Repr

inductive PaymentStatus
  | held | captured | released
  deriving DecidableEq, Repr

inductive AuditKind
  | providerRequest | statusChange
  deriving DecidableEq, Repr

def SearchStatus.value : SearchStatus → String
  | .pending => "PENDING"
  | .inProgress => "IN_PROGRESS"
  | .completed => "COMPLETED"
  | .failed => "FAILED"
  | .timedOut => "TIMED_OUT"

def OrderStatus.value : OrderStatus → String
  | .booked => "BOOKED"
  | .issuing => "ISSUING"
  | .issued => "ISSUED"
  | .cancelled => "CANCELLED"

/-- The text of an amount with its two decimals. -/
def Money.str (m : Money) : String :=
  (if m < 0 then "-" else "") ++ toString (m.natAbs / 100) ++ "." ++
    toString (m.natAbs % 100 / 10) ++ toString (m.natAbs % 10)

def Date.daysInMonth (year month : ℕ) : ℕ :=
  if month = 2 then
    if year % 4 = 0 ∧ (year % 100 ≠ 0 ∨ year % 400 = 0) then 29 else 28
  else if month = 4 ∨ month = 6 ∨ month = 9 ∨ month = 11 then 30
  else 31

/-- A calendar date. -/
structure Date where
  year : ℕ
  month : ℕ
  day : ℕ
  year_bounds : 1 ≤ year ∧ year ≤ 9999
  month_bounds : 1 ≤ month ∧ month ≤ 12
  day_bounds : 1 ≤ day ∧ day ≤ Date.daysInMonth year month
  deriving DecidableEq

/-- A decimal number padded with zeros to two digits. -/
def pad2 (n : ℕ) : List Char := [(n / 10 % 10).digitChar, (n % 10).digitChar]

def Date.isoformat (d : Date) : String :=
  String.ofList (pad2 (d.year / 100) ++ pad2 (d.year % 100) ++ '-' :: pad2 d.month ++
    '-' :: pad2 d.day)

structure ProviderSearchRequest where
  origin : String
  destination : String
  departureDate : Date
  adults : ℤ
  cabinClass : String
  deriving DecidableEq

structure ProviderOffer where
  providerOfferId : String
  origin : String
  destination : String
  departureAt : Time
  arrivalAt : Time
  carrier : String
  flightNumber : String
  fareFamily : String
  baggage : String
  totalAmount : Decimal
  currency : String
  expiresAt : Time
  rawPayload : Json

structure ProviderBooking where
  providerBookingId : String
  bookingReference : String
  deriving DecidableEq

structure ProviderTicket where
  ticketNumber : String
  issuedAt : Time
  deriving DecidableEq

/-- An exception that reaches a handler: its `str`, the name of its type, and whether it is a
`TimeoutError`. -/
structure Raised where
  text : String
  typeName : String
  timeout : Bool
  deriving DecidableEq

/-- `str(exc) or type(exc).__name__` -/
def Raised.message (e : Raised) : String := if e.text = "" then e.typeName else e.text

/-- The errors a service call ends with: the application's own, and the database's. -/
inductive Failure
  | notFound (message : String)
  | conflict (message : String)
  | insufficientBalance (message : String) (details : List (String × String))
  | providerError (message : String)
  | integrityError
  /-- A column does not take a value. -/
  | dbapiError
  /-- `CancelledError` is no `Exception` and passes every handler. -/
  | cancelledError
  deriving DecidableEq

/-- The name of the type of an error of the database. -/
def Failure.typeName : Failure → String
  | .integrityError => "IntegrityError"
  | _ => "DBAPIError"

theorem bind_eq_ok {ε α β : Type} {x : Except ε α} {f : α → Except ε β} {b : β} :
    x >>= f = .ok b ↔ ∃ a, x = .ok a ∧ f a = .ok b := by
  cases x <;> simp [bind, Except.bind]

@[simp] theorem mapError_eq_ok {ε ε' α : Type} {x : Except ε α} {f : ε → ε'} {a : α} :
    x.mapError f = .ok a ↔ x = .ok a := by
  cases x <;> simp [Except.mapError]

theorem bind_eq_error {ε α β : Type} {x : Except ε α} {f : α → Except ε β} {e : ε} :
    x >>= f = .error e ↔ x = .error e ∨ ∃ a, x = .ok a ∧ f a = .error e := by
  cases x <;> simp [bind, Except.bind]

section Dates

theorem digitChar_inj {m n : ℕ} (hm : m < 10) (hn : n < 10) (h : m.digitChar = n.digitChar) :
    m = n := by
  have hall : ∀ m < 10, ∀ n < 10, m.digitChar = n.digitChar → m = n := by decide
  exact hall m hm n hn h

theorem pad2_inj {m n : ℕ} (hm : m < 100) (hn : n < 100) {r s : List Char}
    (h : pad2 m ++ r = pad2 n ++ s) : m = n ∧ r = s := by
  simp only [pad2, List.cons_append, List.nil_append, List.cons.injEq] at h
  obtain ⟨h₁, h₀, hr⟩ := h
  have e₁ := digitChar_inj (by omega) (by omega) h₁
  have e₀ := digitChar_inj (by omega) (by omega) h₀
  exact ⟨by omega, hr⟩

theorem Date.day_lt (d : Date) : d.day < 100 := by
  have h := d.day_bounds.2
  unfold daysInMonth at h
  split_ifs at h <;> omega

theorem Date.isoformat_injective : Function.Injective Date.isoformat := by
  intro d e h
  have h := String.ofList_injective h
  have hd := d.year_bounds
  have he := e.year_bounds
  have md := d.month_bounds
  have me := e.month_bounds
  simp only [List.append_assoc, List.cons_append] at h
  obtain ⟨hc, h⟩ := pad2_inj (by omega) (by omega) h
  obtain ⟨hy, h⟩ := pad2_inj (by omega) (by omega) h
  obtain ⟨hm, h⟩ := pad2_inj (by omega) (by omega) (List.cons.inj h).2
  have hday := (pad2_inj d.day_lt e.day_lt (r := []) (s := [])
    (by simpa using (List.cons.inj h).2)).1
  obtain ⟨y, m, day, _, _, _⟩ := d
  obtain ⟨y', m', day', _, _, _⟩ := e
  obtain rfl : y = y' := by simp only at hc hy; omega
  obtain rfl : m = m' := hm
  obtain rfl : day = day' := hday
  rfl

end Dates

end Ioka
