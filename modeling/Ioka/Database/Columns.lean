import Mathlib.Algebra.Order.Ring.Int
import Ioka.Domain.Types

/-! # Columns

What the columns of the tables make of the values that come from outside, in
PostgreSQL: a text without NUL characters is stored up to the length of its column,
and a number is rounded to its digits. The identifiers that the service generates
fit, and so do the provider's name and the idempotency keys, whose length the
routes check.
-/

namespace Ioka

/-! ## Texts -/

/-- A text that PostgreSQL can store. -/
def Storable (s : String) : Prop := '\x00' ∉ s.toList

instance (s : String) : Decidable (Storable s) := inferInstanceAs (Decidable (¬ _))

/-- A text that a `String(n)` column takes as it is. -/
def Fits (n : ℕ) (s : String) : Prop := s.toList.length ≤ n ∧ Storable s

instance (n : ℕ) (s : String) : Decidable (Fits n s) := inferInstanceAs (Decidable (_ ∧ _))

theorem Storable.append {s t : String} (hs : Storable s) (ht : Storable t) :
    Storable (s ++ t) := by
  simp only [Storable, String.toList_append, List.mem_append, not_or]
  exact ⟨hs, ht⟩

theorem Storable.toUpper {s : String} (h : Storable s) : Storable s.toUpper := by
  have hchar : ∀ c : Char, c ≠ '\x00' → c.toUpper ≠ '\x00' := by
    intro c hc he
    unfold Char.toUpper at he
    split at he
    · rename_i hcase
      have hlow : 97 ≤ c.toNat := UInt32.le_iff_toNat_le.mp hcase.1
      have hhigh : c.toNat ≤ 122 := UInt32.le_iff_toNat_le.mp hcase.2
      have hn := congrArg Char.toNat he
      simp at hn
      omega
    · exact hc he
  intro hm
  rw [String.toUpper, String.toList_map, List.mem_map] at hm
  obtain ⟨c, hc, he⟩ := hm
  exact hchar c (by rintro rfl; exact h hc) he

/-- What a `String(n)` column makes of a text. One that is too long is refused, unless only blanks
stand behind its first `n` characters, which are cut off. -/
def varchar (n : ℕ) (s : String) : Option String :=
  if Storable s ∧ (s.toList.drop n).all (· = ' ') then some (String.ofList (s.toList.take n))
  else none

theorem varchar_of_fits {n : ℕ} {s : String} (h : Fits n s) : varchar n s = some s := by
  have hdrop : s.toList.drop n = [] := List.drop_eq_nil_of_le h.1
  rw [varchar, if_pos ⟨h.2, by rw [hdrop]; rfl⟩, List.take_of_length_le h.1, String.ofList_toList]

theorem varchar_ne_empty {n : ℕ} {s t : String} (hn : 0 < n) (h : varchar n s = some t)
    (hs : s ≠ "") : t ≠ "" := by
  unfold varchar at h
  split at h
  · obtain rfl := Option.some.inj h
    intro he
    have hnil : s.toList.take n = [] := by simpa using congrArg String.toList he
    rcases List.take_eq_nil_iff.mp hnil with h0 | hs'
    · omega
    · exact hs (String.toList_eq_nil_iff.mp hs')
  · cases h

/-! ## Amounts -/

/-- The amount in hundredths, halves rounded away from zero. -/
def Decimal.hundredths (d : Decimal) : Money :=
  if 0 ≤ d.exponent + 2 then d.coefficient * 10 ^ (d.exponent + 2).toNat
  else
    let unit : ℕ := 10 ^ (-(d.exponent + 2)).toNat
    d.coefficient.sign * ((2 * d.coefficient.natAbs + unit) / (2 * unit) : ℕ)

@[simp] theorem Decimal.hundredths_mk (m : ℤ) : (⟨m, -2⟩ : Decimal).hundredths = m := by
  simp [hundredths]

/-- What a `Numeric(16, 2)` column makes of a number. -/
def numeric (d : Decimal) : Option Money :=
  if d.hundredths.natAbs < 10 ^ 16 then some d.hundredths else none

theorem numeric_eq_some {d : Decimal} {m : Money} :
    numeric d = some m ↔ d.hundredths.natAbs < 10 ^ 16 ∧ d.hundredths = m := by
  unfold numeric
  split <;> simp_all

/-! ## What the provider gives -/

/-- The booking as `orders` holds it. -/
def ProviderBooking.kept (booking : ProviderBooking) : Option ProviderBooking := do
  let providerBookingId ← varchar 128 booking.providerBookingId
  let bookingReference ← varchar 32 booking.bookingReference
  return ⟨providerBookingId, bookingReference⟩

/-- The ticket as `orders` holds it. -/
def ProviderTicket.kept (ticket : ProviderTicket) : Option ProviderTicket := do
  let ticketNumber ← varchar 64 ticket.ticketNumber
  return ⟨ticketNumber, ticket.issuedAt⟩

/-- The item as `offers` holds it. -/
def ProviderOffer.kept (item : ProviderOffer) : Option ProviderOffer := do
  let providerOfferId ← varchar 128 item.providerOfferId
  let origin ← varchar 3 item.origin
  let destination ← varchar 3 item.destination
  let carrier ← varchar 100 item.carrier
  let flightNumber ← varchar 20 item.flightNumber
  let fareFamily ← varchar 50 item.fareFamily
  let baggage ← varchar 100 item.baggage
  let totalAmount ← numeric item.totalAmount
  let currency ← varchar 3 item.currency
  return {
    providerOfferId := providerOfferId
    origin := origin
    destination := destination
    departureAt := item.departureAt
    arrivalAt := item.arrivalAt
    carrier := carrier
    flightNumber := flightNumber
    fareFamily := fareFamily
    baggage := baggage
    totalAmount := ⟨totalAmount, -2⟩
    currency := currency
    expiresAt := item.expiresAt
    rawPayload := item.rawPayload }

theorem ProviderBooking.kept_of_fits {booking : ProviderBooking}
    (hid : Fits 128 booking.providerBookingId) (href : Fits 32 booking.bookingReference) :
    booking.kept = some booking := by
  simp [kept, varchar_of_fits hid, varchar_of_fits href]

theorem ProviderTicket.kept_of_fits {ticket : ProviderTicket} (h : Fits 64 ticket.ticketNumber) :
    ticket.kept = some ticket := by
  simp [kept, varchar_of_fits h]

theorem ProviderTicket.kept_numbered {ticket kept : ProviderTicket} (h : ticket.kept = some kept)
    (hne : ticket.ticketNumber ≠ "") : kept.ticketNumber ≠ "" := by
  simp only [ProviderTicket.kept, Option.bind_eq_bind, Option.bind_eq_some_iff, Option.pure_def,
    Option.some.injEq] at h
  obtain ⟨_, ht, rfl⟩ := h
  exact varchar_ne_empty (by decide) ht hne

theorem ProviderOffer.kept_of_fits {item : ProviderOffer} {amount : Money}
    (hid : Fits 128 item.providerOfferId) (ho : Fits 3 item.origin)
    (hd : Fits 3 item.destination) (hcarrier : Fits 100 item.carrier)
    (hflight : Fits 20 item.flightNumber) (hfare : Fits 50 item.fareFamily)
    (hbaggage : Fits 100 item.baggage) (hamount : numeric item.totalAmount = some amount)
    (hcurrency : Fits 3 item.currency) :
    item.kept = some { item with totalAmount := ⟨amount, -2⟩ } := by
  simp [kept, varchar_of_fits hid, varchar_of_fits ho, varchar_of_fits hd,
    varchar_of_fits hcarrier, varchar_of_fits hflight, varchar_of_fits hfare,
    varchar_of_fits hbaggage, hamount, varchar_of_fits hcurrency]

end Ioka
