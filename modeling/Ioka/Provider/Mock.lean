import Mathlib.Tactic.NormNum
import Ioka.Database.Columns

/-! # The mock airline

`MockAirlineProvider` computes its offers from a digest of the route and the date,
and remembers its bookings by idempotency key.
-/

namespace Ioka

def Date.daysBeforeMonth (year month : ℕ) : ℕ :=
  ((List.range' 1 (month - 1)).map (Date.daysInMonth year)).sum

/-- `date.toordinal`, with day 1 on the first of January of the year 1. -/
def Date.toordinal (d : Date) : ℕ :=
  (d.year - 1) * 365 + (d.year - 1) / 4 - (d.year - 1) / 100 + (d.year - 1) / 400 +
    Date.daysBeforeMonth d.year d.month + d.day

/-- The point in time at a time of day in UTC, given in minutes. -/
def Date.combine (d : Date) (minutes : ℤ) : Time :=
  (((d.toordinal : ℤ) - 719163) * 1440 + minutes) * 60000000

/-- `s[:n]` -/
def slice (n : ℕ) (s : String) : String := String.ofList (s.toList.take n)

theorem length_slice (n : ℕ) (s : String) : (slice n s).toList.length ≤ n := by
  simp [slice]

theorem Storable.slice {s : String} (h : Storable s) (n : ℕ) : Storable (slice n s) := by
  intro hm
  rw [Ioka.slice, String.toList_ofList] at hm
  exact h (List.mem_of_mem_take hm)

/-- The value of a lower-case hexadecimal digit. -/
def hexValue (c : Char) : ℕ :=
  if '0' ≤ c ∧ c ≤ '9' then c.toNat - 48 else if 'a' ≤ c ∧ c ≤ 'f' then c.toNat - 87 else 0

/-- `int(s, 16)` -/
def intOfHex (s : String) : ℕ := s.toList.foldl (fun n c => 16 * n + hexValue c) 0

/-- The provider's dictionary of bookings, the last one first. -/
structure MockAirlineProvider where
  bookings : List (String × ProviderBooking)

namespace MockAirlineProvider

def name : String := "mock-air"

/-! ## Searching -/

variable (sha256 : String → String)

/-- `hashlib.sha256(text.encode()).hexdigest()`, whose digits are never NUL characters. -/
def hexdigest (text : String) : String :=
  String.ofList ((sha256 text).toList.filter fun c => c ≠ '\x00')

theorem storable_hexdigest (text : String) : Storable (hexdigest sha256 text) := by
  simp [Storable, hexdigest]

/-- The digest that stands for a route and a date. -/
def seed (request : ProviderSearchRequest) : String :=
  hexdigest sha256
    (request.origin ++ ":" ++ request.destination ++ ":" ++ request.departureDate.isoformat)

/-- The fares with their baggage, and their multipliers in hundredths. -/
def variants : List (String × String × ℤ) :=
  [("BASIC", "Carry-on 8 kg", 100), ("FLEX", "Checked baggage 23 kg", 125),
    ("BUSINESS", "Checked baggage 32 kg", 210)]

def offerId (request : ProviderSearchRequest) (index : ℕ) : String :=
  slice 12 (seed sha256 request) ++ "-" ++ toString index

def search (request : ProviderSearchRequest) (now : Time) : List ProviderOffer :=
  let basePrice : ℤ := 650000 + intOfHex (slice 4 (seed sha256 request)) % 350000
  let departure := request.departureDate.combine 510
  variants.mapIdx fun index (fare, baggage, multiplier) =>
    { providerOfferId := offerId sha256 request index
      origin := request.origin
      destination := request.destination
      departureAt := departure + index * 180 * 60000000
      arrivalAt := departure + (index * 180 + 260) * 60000000
      carrier := "Ioka Airways"
      flightNumber := "IO" ++ toString (210 + index)
      fareFamily := fare
      baggage := baggage
      totalAmount := ⟨basePrice * multiplier * request.adults, -2⟩
      currency := "UZS"
      expiresAt := now + 15 * 60000000
      rawPayload := .obj [("source", .str name), ("refundable", .bool (fare ≠ "BASIC"))] }

/-- The price of a route and a date, before the fare and the passengers. -/
def basePrice (request : ProviderSearchRequest) : ℤ :=
  650000 + intOfHex (slice 4 (seed sha256 request)) % 350000

theorem basePrice_bounds (request : ProviderSearchRequest) :
    650000 ≤ basePrice sha256 request ∧ basePrice sha256 request < 1000000 := by
  unfold basePrice
  omega

theorem multiplier_bounds {v : String × String × ℤ} (hv : v ∈ variants) :
    100 ≤ v.2.2 ∧ v.2.2 ≤ 210 := by
  simp only [variants, List.mem_cons, List.not_mem_nil, or_false] at hv
  rcases hv with rfl | rfl | rfl <;> decide

theorem price_bounds (request : ProviderSearchRequest) {v : String × String × ℤ} {n : ℤ}
    (hv : v ∈ variants) (hn : 1 ≤ n ∧ n ≤ 9) :
    65000000 ≤ basePrice sha256 request * v.2.2 * n ∧
      basePrice sha256 request * v.2.2 * n < 1890000000 := by
  obtain ⟨hlo, hhi⟩ := basePrice_bounds sha256 request
  obtain ⟨hvlo, hvhi⟩ := multiplier_bounds hv
  constructor
  · calc (65000000 : ℤ) = 650000 * 100 * 1 := by norm_num
      _ ≤ basePrice sha256 request * v.2.2 * n :=
        mul_le_mul (mul_le_mul hlo hvlo (by norm_num) (by omega)) hn.1 (by norm_num)
          (mul_nonneg (by omega) (by omega))
  · calc basePrice sha256 request * v.2.2 * n ≤ 999999 * 210 * 9 :=
        mul_le_mul (mul_le_mul (by omega) hvhi (by omega) (by norm_num)) hn.2 (by omega)
          (by norm_num)
      _ < 1890000000 := by norm_num

theorem fits_offerId (request : ProviderSearchRequest) {index : ℕ} (hi : index < 3) :
    Fits 128 (offerId sha256 request index) := by
  have htail : ∀ i < 3, ("-" ++ toString i).toList.length = 2 ∧ Storable ("-" ++ toString i) := by
    decide
  have hlen := length_slice 12 (seed sha256 request)
  rw [offerId, String.append_assoc]
  constructor
  · rw [String.toList_append, List.length_append, (htail _ hi).1]
    omega
  · exact ((storable_hexdigest sha256 _).slice 12).append (htail _ hi).2

/-- The offers for a stored search are stored as they are. -/
theorem kept_search {request : ProviderSearchRequest} {now : Time} {item : ProviderOffer}
    (ho : Fits 3 request.origin) (hd : Fits 3 request.destination)
    (ha : 1 ≤ request.adults ∧ request.adults ≤ 9) (h : item ∈ search sha256 request now) :
    item.kept = some item := by
  obtain ⟨i, hi, rfl⟩ := List.mem_mapIdx.mp h
  have htexts : ∀ i (hi : i < variants.length), Fits 20 ("IO" ++ toString (210 + i)) ∧
      Fits 50 variants[i].1 ∧ Fits 100 variants[i].2.1 := by decide
  have hprice : numeric ⟨basePrice sha256 request * variants[i].2.2 * request.adults, -2⟩ =
      some (basePrice sha256 request * variants[i].2.2 * request.adults) := by
    have hb := price_bounds sha256 request (List.getElem_mem hi) ha
    rw [numeric_eq_some, Decimal.hundredths_mk]
    exact ⟨by omega, rfl⟩
  have hcarrier : Fits 100 "Ioka Airways" := by decide
  have hcurrency : Fits 3 "UZS" := by decide
  obtain ⟨hflight, hfare, hbaggage⟩ := htexts i hi
  exact ProviderOffer.kept_of_fits (fits_offerId sha256 request hi) ho hd hcarrier hflight hfare
    hbaggage hprice hcurrency

theorem length_search (request : ProviderSearchRequest) (now : Time) :
    (search sha256 request now).length = 3 := rfl

theorem getElem_search (request : ProviderSearchRequest) (now : Time) {k : ℕ}
    (hk : k < (search sha256 request now).length) :
    (search sha256 request now)[k].providerOfferId = offerId sha256 request k := by
  simp only [search, List.getElem_mapIdx]

/-- Two offers have one id only if their digests start alike and they stand at one place. -/
theorem offerId_eq_iff {r r' : ProviderSearchRequest} {i j : ℕ} (hi : i < 3) (hj : j < 3) :
    offerId sha256 r i = offerId sha256 r' j ↔
      slice 12 (seed sha256 r) = slice 12 (seed sha256 r') ∧ i = j := by
  have hdigit : ∀ k < 3, "-".toList ++ (toString k).toList = ['-', k.digitChar] := by decide
  have hinj : ∀ i < 3, ∀ j < 3, i.digitChar = j.digitChar → i = j := by decide
  have hchars : ∀ r, ∀ k < 3, (offerId sha256 r k).toList =
      (slice 12 (seed sha256 r)).toList ++ ['-', k.digitChar] := by
    intro r k hk
    rw [offerId, String.toList_append, String.toList_append, List.append_assoc, hdigit k hk]
  constructor
  · intro h
    have hl := congrArg String.toList h
    rw [hchars r i hi, hchars r' j hj] at hl
    obtain ⟨hs, hd⟩ := List.append_inj' hl rfl
    exact ⟨String.toList_inj.mp hs, hinj i hi j hj (by simpa using hd)⟩
  · rintro ⟨hs, rfl⟩
    rw [offerId, offerId, hs]

/-! ## Booking -/

/-- The booking made for a new idempotency key. -/
def bookingOf (key : String) : ProviderBooking :=
  let digest := (hexdigest sha256 key).toUpper
  ⟨"BKG-" ++ slice 16 digest, slice 6 digest⟩

def find? (p : MockAirlineProvider) (key : String) : Option ProviderBooking :=
  p.bookings.lookup key

/-- `book`, which makes a booking only for a key without one. -/
def book (p : MockAirlineProvider) (key : String) : ProviderBooking × MockAirlineProvider :=
  match p.find? key with
  | some booking => (booking, p)
  | none => (bookingOf sha256 key, ⟨(key, bookingOf sha256 key) :: p.bookings⟩)

section Bookings

variable {sha256} {p : MockAirlineProvider} {k key : String}
  {b : ProviderBooking}

/-- Every booking is the one that its key determines. -/
def Sound (sha256 : String → String) (p : MockAirlineProvider) : Prop :=
  ∀ k b, (k, b) ∈ p.bookings → b = bookingOf sha256 k

theorem kept_bookingOf (key : String) :
    (bookingOf sha256 key).kept = some (bookingOf sha256 key) := by
  have hd : Storable (hexdigest sha256 key).toUpper := (storable_hexdigest sha256 key).toUpper
  have h₁₆ := length_slice 16 (hexdigest sha256 key).toUpper
  have h₆ := length_slice 6 (hexdigest sha256 key).toUpper
  refine ProviderBooking.kept_of_fits ⟨?_, Storable.append (by decide) (hd.slice 16)⟩
    ⟨h₆.trans (by decide), hd.slice 6⟩
  have h₄ : "BKG-".toList.length = 4 := by decide
  simp only [bookingOf, String.toList_append, List.length_append]
  omega

theorem mem_of_find? (h : p.find? k = some b) : (k, b) ∈ p.bookings := by
  rw [find?, List.lookup_eq_some_iff] at h
  obtain ⟨l, l', hl, _⟩ := h
  rw [hl]
  simp

theorem notMem_of_find? (h : p.find? k = none) : (k, b) ∉ p.bookings := by
  rw [find?, List.lookup_eq_none_iff] at h
  intro hm
  simpa using h _ hm

theorem Sound.book_fst (h : p.Sound sha256) : (p.book sha256 key).1 = bookingOf sha256 key := by
  unfold book
  split
  · rename_i b hb
    exact h _ b (mem_of_find? hb)
  · rfl

theorem Sound.mem_book (h : p.Sound sha256) :
    (k, b) ∈ (p.book sha256 key).2.bookings ↔
      (k, b) ∈ p.bookings ∨ (k = key ∧ b = bookingOf sha256 key) := by
  unfold book
  split
  · rename_i b' hb
    refine (or_iff_left_of_imp ?_).symm
    rintro ⟨rfl, rfl⟩
    rw [← h _ b' (mem_of_find? hb)]
    exact mem_of_find? hb
  · simp [or_comm]

theorem bookingReference_eq_of_id
    (h : (bookingOf sha256 k).providerBookingId = (bookingOf sha256 key).providerBookingId) :
    (bookingOf sha256 k).bookingReference = (bookingOf sha256 key).bookingReference := by
  have hchars : ∀ k, (bookingOf sha256 k).bookingReference.toList =
      ((bookingOf sha256 k).providerBookingId.toList.drop 4).take 6 := by
    intro k
    simp only [bookingOf, slice, String.toList_ofList, String.toList_append]
    rw [List.drop_append_of_le_length (by decide)]
    simp [List.take_take]
  apply String.toList_inj.mp
  rw [hchars, hchars, h]

end Bookings

end MockAirlineProvider

end Ioka
