import Ioka.Booking.Coupling

/-! # What a database keeps

No row is ever deleted. A search keeps its owner and what was asked, an order
its booking, a transaction its payment, and offers and records stay as they are.
-/

namespace Ioka

/-- What a search keeps for ever. -/
structure SameSearch (s s' : FlightSearch) : Prop where
  id : s'.id = s.id
  agentId : s'.agentId = s.agentId
  origin : s'.origin = s.origin
  destination : s'.destination = s.destination
  departureDate : s'.departureDate = s.departureDate
  adults : s'.adults = s.adults
  cabinClass : s'.cabinClass = s.cabinClass
  expiresAt : s'.expiresAt = s.expiresAt

theorem SameSearch.refl (s : FlightSearch) : SameSearch s s :=
  ⟨rfl, rfl, rfl, rfl, rfl, rfl, rfl, rfl⟩

theorem SameSearch.update (s : FlightSearch) (status : SearchStatus) (code message : Option String)
    (completedAt : Option Time) : SameSearch s { s with
      status := status, errorCode := code, errorMessage := message, completedAt := completedAt } :=
  ⟨rfl, rfl, rfl, rfl, rfl, rfl, rfl, rfl⟩

theorem SameSearch.trans {s₁ s₂ s₃ : FlightSearch} (h : SameSearch s₁ s₂)
    (h' : SameSearch s₂ s₃) : SameSearch s₁ s₃ where
  id := h'.id.trans h.id
  agentId := h'.agentId.trans h.agentId
  origin := h'.origin.trans h.origin
  destination := h'.destination.trans h.destination
  departureDate := h'.departureDate.trans h.departureDate
  adults := h'.adults.trans h.adults
  cabinClass := h'.cabinClass.trans h.cabinClass
  expiresAt := h'.expiresAt.trans h.expiresAt

/-- What every later database keeps of an earlier one. -/
structure Grows (db db' : Database) : Prop where
  agents : ∀ a ∈ db.agents, ∃ b ∈ db'.agents, b.id = a.id ∧ b.currency = a.currency
  searches : ∀ s ∈ db.searches, ∃ s' ∈ db'.searches, SameSearch s s'
  offers : ∀ o ∈ db.offers, o ∈ db'.offers
  orders : ∀ o ∈ db.orders, ∃ p ∈ db'.orders, SameBooking o p
  transactions : ∀ t ∈ db.transactions, ∃ u ∈ db'.transactions, SamePayment t u
  records : ∀ r ∈ db.records, r ∈ db'.records

namespace Grows

variable {db db' db'' : Database}

theorem refl (db : Database) : Grows db db where
  agents a ha := ⟨a, ha, rfl, rfl⟩
  searches s hs := ⟨s, hs, .refl s⟩
  offers _ ho := ho
  orders o ho := ⟨o, ho, .refl o⟩
  transactions t ht := ⟨t, ht, .refl t⟩
  records _ hr := hr

theorem trans (h : Grows db db') (h' : Grows db' db'') : Grows db db'' where
  agents a ha := by
    obtain ⟨b, hb, hid, hcur⟩ := h.agents a ha
    obtain ⟨c, hc, hid', hcur'⟩ := h'.agents b hb
    exact ⟨c, hc, hid'.trans hid, hcur'.trans hcur⟩
  searches s hs := by
    obtain ⟨s', hs', hss⟩ := h.searches s hs
    obtain ⟨s'', hs'', hss'⟩ := h'.searches s' hs'
    exact ⟨s'', hs'', hss.trans hss'⟩
  offers o ho := h'.offers o (h.offers o ho)
  orders o ho := by
    obtain ⟨p, hp, hop⟩ := h.orders o ho
    obtain ⟨q, hq, hpq⟩ := h'.orders p hp
    exact ⟨q, hq, hop.trans hpq⟩
  transactions t ht := by
    obtain ⟨u, hu, htu⟩ := h.transactions t ht
    obtain ⟨v, hv, huv⟩ := h'.transactions u hu
    exact ⟨v, hv, htu.trans huv⟩
  records r hr := h'.records r (h.records r hr)

end Grows

end Ioka
