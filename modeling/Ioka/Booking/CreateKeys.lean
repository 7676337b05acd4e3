import Ioka.Booking.Coupling
import Ioka.Booking.Race
import Ioka.Provider.Mock

/-! # Create keys of several agents

The records of `create_order` belong to one agent, but the provider knows a
booking by its key alone. So two agents with one key get one booking, and only
one of them can store it: a call gets a booking of its own exactly if no other
agent has brought its key to the provider before, or to the orders.
-/

namespace Ioka

open Relational Transition

/-- The store of the service, and its provider. -/
structure MockWorld where
  world : World
  provider : MockAirlineProvider

inductive BookChoice
  | replay
  | checkOffer (now : Time)
  | call
  | answer
  | raise (raised : Raised)
  | auditRefusal (durationMs : ℤ)
  | persist (orderId : String) (durationMs : ℤ)

def BookChoice.choice (booking : ProviderBooking) : BookChoice → CreateChoice
  | .replay => .replay
  | .checkOffer now => .checkOffer now
  | .call => .call
  | .answer => .answer booking
  | .raise raised => .raise raised
  | .auditRefusal durationMs => .auditRefusal durationMs
  | .persist orderId durationMs => .persist orderId durationMs

def BookChoice.answers : BookChoice → Bool
  | .answer => true
  | _ => false

/-- The answer is what `book` returns, and only an answer changes the provider. -/
def CreateOrder.advanceMock (sha256 : String → String) (s : MockWorld) (r : CreateOrder)
    (x : BookChoice) : Option (MockWorld × CreateOrder) :=
  let (booking, provider) := s.provider.book sha256 r.idempotencyKey
  (r.advance sha256 s.world (x.choice booking)).map fun (w, r') =>
    (⟨w, if x.answers then provider else s.provider⟩, r')

/-- Any calls of `create_order` with one mock airline, their steps in any order. -/
def bookingMock (sha256 : String → String) : Program MockWorld CreateOrder BookChoice where
  fresh r := r.phase matches .requested
  advance := CreateOrder.advanceMock sha256

theorem bookingMock_fresh {sha256 : String → String} {r : CreateOrder} :
    (bookingMock sha256).fresh r = true ↔ r.phase = .requested :=
  CreateOrder.fresh_iff sha256

/-- What a call finds when the provider answers it, and when it stores its order. -/
inductive KeyNote
  | answering (s : MockWorld)
  | storing (s : MockWorld)

def keyNotes (s : MockWorld) (r : CreateOrder) (_ : MockWorld) (_ : CreateOrder) : List KeyNote :=
  match r.phase with
  | .booking _ => [.answering s]
  | .booked _ _ => [.storing s]
  | _ => []

/-- A call with what it found. -/
abbrev NotedCall := CreateOrder × List KeyNote

abbrev Keyed := Config MockWorld NotedCall

abbrev keyed (sha256 : String → String) : Program MockWorld NotedCall BookChoice :=
  (bookingMock sha256).recording keyNotes

/-- The offer is one of the agent's own, and not expired. -/
def Database.offersTo (db : Database) (agentId offerId : String) (now : Time) : Bool :=
  db.offers.rows.any fun o => o.id = offerId ∧ now < o.expiresAt ∧
    db.searches.rows.any fun s => s.id = o.searchId ∧ s.agentId = agentId

/-- The call checks an unexpired offer of its agent, is answered in time, and stores its order
under a new id. -/
def answeredCall (i : ℕ) (c : Keyed) : Action NotedCall BookChoice → Bool
  | .advance j (.checkOffer now) => j ≠ i ∨ c.procs[j]?.all fun p =>
      c.store.world.db.offersTo p.1.agentId p.1.payload.offerId now
  | .advance j (.raise _) => j ≠ i
  | .advance j (.persist orderId _) => j ≠ i ∨
      c.store.world.db.orders.rows.all fun o => o.id ≠ orderId
  | _ => true

/-- The call returned a new order of its agent, with a booking that the provider made for it and
that no other order has. -/
def BookedForIt (sha256 : String → String) (s : MockWorld) (p : NotedCall) : Prop :=
  ∃ o ∈ s.world.db.orders, p.1.phase = .done (.ok o) ∧ o.agentId = p.1.agentId ∧
    (∃ t, .storing t ∈ p.2 ∧ ∀ q ∈ t.world.db.orders, q.id ≠ o.id) ∧
    (∃ t, .answering t ∈ p.2 ∧
      o.providerBookingId = (t.provider.book sha256 p.1.idempotencyKey).1.providerBookingId ∧
      ∀ b ∈ t.provider.bookings, b.2.providerBookingId ≠ o.providerBookingId) ∧
    ∀ q ∈ s.world.db.orders, q ≠ o → q.providerBookingId ≠ o.providerBookingId

/-- The event stores an order under the key. -/
def Event.stores (k : String) : Event → Bool
  | .orderCommitted _ key _ _ => key = k
  | _ => false

/-- The provider has no booking under the key, or no order has been stored under it. -/
def KeyNote.unused (k : String) : KeyNote → Bool
  | .answering s => (s.provider.find? k).isNone
  | .storing s => s.world.history.all fun e => !e.stores k

/-- The provider had no booking under the key when it answered the call, and no order had been
stored under the key when the call stored its own. -/
def KeyUnused (p : NotedCall) : Prop :=
  p.2.all (·.unused p.1.idempotencyKey) = true

/-! ## What the store knows of the keys -/

/-- Orders and records tell which keys have been used, and with which bookings. -/
structure KeysKept (sha256 : String → String) (s : MockWorld) : Prop where
  bookings : s.provider.Sound sha256
  booked : ∀ agentId k payload orderId,
    .orderCommitted agentId k payload orderId ∈ s.world.history →
      (k, MockAirlineProvider.bookingOf sha256 k) ∈ s.provider.bookings ∧
      ∃ o ∈ s.world.db.orders,
        o.bookingReference = (MockAirlineProvider.bookingOf sha256 k).bookingReference
  orders : ∀ o ∈ s.world.db.orders, ∃ agentId k payload orderId,
    .orderCommitted agentId k payload orderId ∈ s.world.history ∧
      o.providerBookingId = (MockAirlineProvider.bookingOf sha256 k).providerBookingId ∧
      o.bookingReference = (MockAirlineProvider.bookingOf sha256 k).bookingReference
  records : ∀ r ∈ s.world.db.records, ∃ payload orderId,
    .orderCommitted r.agentId r.key payload orderId ∈ s.world.history

/-- A booking that a call holds is the one of its key, and the provider has it. -/
def CreateOrder.HoldsBooking (sha256 : String → String) (s : MockWorld) (r : CreateOrder) : Prop :=
  ∀ offer b, r.phase = .booked offer b →
    b = MockAirlineProvider.bookingOf sha256 r.idempotencyKey ∧
      (r.idempotencyKey, b) ∈ s.provider.bookings

/-- What is never taken from the provider and the orders. -/
structure Later (s s' : MockWorld) : Prop where
  bookings : s.provider.bookings ⊆ s'.provider.bookings
  orders : ∀ o ∈ s.world.db.orders, o ∈ s'.world.db.orders

/-- What a step of a call does to the store. -/
inductive MockEffect (sha256 : String → String) (s : MockWorld) (r : CreateOrder) :
    MockWorld → CreateOrder → Prop
  | quiet {w : World} (es : List Event) {phase : CreatePhase} : w.db.orders = s.world.db.orders →
      w.db.records = s.world.db.records → w.history = s.world.history ++ es →
      (∀ agentId k payload orderId, .orderCommitted agentId k payload orderId ∉ es) →
      (∀ offer b, phase ≠ .booked offer b) →
      MockEffect sha256 s r ⟨w, s.provider⟩ { r with phase := phase }
  | answered {offer : Offer} : r.phase = .booking offer →
      MockEffect sha256 s r ⟨s.world, (s.provider.book sha256 r.idempotencyKey).2⟩
        { r with phase := .booked offer (s.provider.book sha256 r.idempotencyKey).1 }
  | created {db' : Database} {orderId : String} {offer : Offer} {b kept : ProviderBooking} :
      r.phase = .booked offer b → b.kept = some kept →
      Created s.world.db db' (newOrder orderId r.agentId r.payload offer kept)
        (newRecord r.agentId r.idempotencyKey (r.payloadHash sha256) orderId) →
      MockEffect sha256 s r
        ⟨s.world.commit db' [.orderCommitted r.agentId r.idempotencyKey r.payload orderId],
          s.provider⟩
        (r.finish (.ok (newOrder orderId r.agentId r.payload offer kept)))

section Store

variable {sha256 : String → String} {s s' : MockWorld} {r r' q : CreateOrder} {x : BookChoice}

theorem CreateOrder.advance_booked {w w' : World} {y : CreateChoice} {offer : Offer}
    {b : ProviderBooking} (h : r.advance sha256 w y = some (w', r'))
    (hp : r'.phase = .booked offer b) : y = .answer b ∧ r.phase = .booking offer := by
  unfold CreateOrder.advance at h
  split at h
  case h_4 hph =>
    cases h
    cases hp
    exact ⟨rfl, hph⟩
  case h_1 | h_9 =>
    unfold CreateOrder.replay at h
    split at h <;> cases h <;> cases hp
  case h_2 | h_7 | h_8 => split at h <;> cases h <;> cases hp
  all_goals cases h
  all_goals cases hp

theorem advanceMock_effect (h : r.advanceMock sha256 s x = some (s', r')) :
    MockEffect sha256 s r s' r' := by
  simp only [CreateOrder.advanceMock, Option.map_eq_some_iff, Prod.mk.injEq, Prod.exists] at h
  obtain ⟨w, q, ha, rfl, rfl⟩ := h
  by_cases hx : x = .answer
  · subst hx
    cases hp : r.phase with
    | booking offer =>
      simp only [CreateOrder.advance, hp, BookChoice.choice, Option.some.injEq,
        Prod.mk.injEq] at ha
      obtain ⟨rfl, rfl⟩ := ha
      exact .answered hp
    | _ => simp [CreateOrder.advance, hp, BookChoice.choice] at ha
  · have hnot : x.answers = false := by
      cases x with
      | answer => exact absurd rfl hx
      | _ => rfl
    rw [hnot, if_neg (by simp)]
    have hph : ∀ offer b, q.phase ≠ .booked offer b := by
      intro offer b hb
      obtain ⟨hy, _⟩ := CreateOrder.advance_booked ha hb
      cases x with
      | answer => exact hx rfl
      | _ => cases hy
    cases CreateOrder.advance_step ha with
    | committed hp hk hc => exact .created hp hk hc
    | answered => exact absurd rfl (hph _ _)
    | @called offer =>
      exact .quiet [.bookCalled offer.providerOfferId r.idempotencyKey] rfl rfl rfl (by simp) hph
    | audited _ hr =>
      obtain ⟨_, rfl⟩ := createOrderRefused_eq_ok.mp hr
      exact .quiet [] rfl rfl rfl (by simp) hph
    | _ => exact .quiet [] rfl rfl (List.append_nil _).symm (by simp) hph

theorem MockEffect.later (h : MockEffect sha256 s r s' r') (hk : KeysKept sha256 s) :
    Later s s' := by
  cases h with
  | quiet es ho =>
    exact ⟨List.Subset.refl _, fun o hm => by rwa [ho]⟩
  | answered =>
    exact ⟨fun _ hb => hk.bookings.mem_book.mpr (Or.inl hb), fun _ hm => hm⟩
  | created _ _ hc =>
    exact ⟨List.Subset.refl _, fun o hm => hc.mem_orders.mpr (Or.inl hm)⟩

theorem CreateOrder.HoldsBooking.mono (h : q.HoldsBooking sha256 s) (hl : Later s s') :
    q.HoldsBooking sha256 s' := by
  intro offer b hp
  obtain ⟨hb, hm⟩ := h offer b hp
  exact ⟨hb, hl.bookings hm⟩

theorem MockEffect.holdsBooking (h : MockEffect sha256 s r s' r') (hk : KeysKept sha256 s) :
    r'.HoldsBooking sha256 s' := by
  cases h with
  | quiet _ _ _ _ _ hph =>
    intro offer b hp
    exact absurd hp (hph offer b)
  | answered =>
    intro offer b hp
    cases hp
    exact ⟨hk.bookings.book_fst, hk.bookings.mem_book.mpr (Or.inr ⟨rfl, hk.bookings.book_fst⟩)⟩
  | created =>
    intro offer b hp
    cases hp

theorem MockEffect.keysKept (h : MockEffect sha256 s r s' r') (hk : KeysKept sha256 s)
    (hr : r.HoldsBooking sha256 s) : KeysKept sha256 s' := by
  cases h with
  | @quiet w es phase ho hrec hhis hes =>
    have hmem : ∀ agentId k payload orderId,
        .orderCommitted agentId k payload orderId ∈ w.history ↔
          .orderCommitted agentId k payload orderId ∈ s.world.history := by
      intro agentId k payload orderId
      rw [hhis, List.mem_append]
      exact or_iff_left (hes agentId k payload orderId)
    refine ⟨hk.bookings, ?_, ?_, ?_⟩
    · intro agentId k payload orderId he
      obtain ⟨hb, o, hm, href⟩ := hk.booked _ _ _ _ ((hmem _ _ _ _).mp he)
      exact ⟨hb, o, ho ▸ hm, href⟩
    · intro o hm
      obtain ⟨agentId, k, payload, orderId, he, hids⟩ := hk.orders o (ho ▸ hm)
      exact ⟨agentId, k, payload, orderId, (hmem _ _ _ _).mpr he, hids⟩
    · intro rec hm
      obtain ⟨payload, orderId, he⟩ := hk.records rec (hrec ▸ hm)
      exact ⟨payload, orderId, (hmem _ _ _ _).mpr he⟩
  | answered =>
    refine ⟨?_, ?_, hk.orders, hk.records⟩
    · intro k b hm
      rcases hk.bookings.mem_book.mp hm with hm | ⟨rfl, rfl⟩
      · exact hk.bookings k b hm
      · rfl
    · intro agentId k payload orderId he
      obtain ⟨hb, ho⟩ := hk.booked _ _ _ _ he
      exact ⟨hk.bookings.mem_book.mpr (Or.inl hb), ho⟩
  | @created db' orderId offer b kept hp hkept hc =>
    obtain ⟨rfl, hb⟩ := hr offer b hp
    obtain rfl := Option.some.inj (hkept.symm.trans (MockAirlineProvider.kept_bookingOf _))
    refine ⟨hk.bookings, ?_, ?_, ?_⟩
    · intro agentId k payload id he
      rcases List.mem_append.mp he with he | he
      · obtain ⟨hb', o, ho, href⟩ := hk.booked _ _ _ _ he
        exact ⟨hb', o, hc.mem_orders.mpr (Or.inl ho), href⟩
      · cases List.mem_singleton.mp he
        exact ⟨hb, _, hc.mem_orders.mpr (Or.inr rfl), rfl⟩
    · intro o ho
      rcases hc.mem_orders.mp ho with ho | rfl
      · obtain ⟨agentId, k, payload, id, he, hids⟩ := hk.orders o ho
        exact ⟨agentId, k, payload, id, List.mem_append_left _ he, hids⟩
      · exact ⟨_, _, _, _, List.mem_append_right _ (List.mem_singleton.mpr rfl), rfl, rfl⟩
    · intro rec hm
      rw [Table.mem_def, World.commit_db, hc.records] at hm
      rcases List.mem_append.mp hm with hm | hm
      · obtain ⟨payload, id, he⟩ := hk.records rec hm
        exact ⟨payload, id, List.mem_append_left _ he⟩
      · cases List.mem_singleton.mp hm
        exact ⟨_, _, List.mem_append_right _ (List.mem_singleton.mpr rfl)⟩

end Store

/-! ## What one call finds -/

/-- An earlier state of the provider. -/
structure Earlier (sha256 : String → String) (t s : MockWorld) : Prop where
  sound : t.provider.Sound sha256
  bookings : t.provider.bookings ⊆ s.provider.bookings

/-- What the call has found when it is at its phase. -/
def Found (sha256 : String → String) (s : MockWorld) (p : NotedCall) : Prop :=
  match p.1.phase with
  | .requested | .unseen | .offered _ | .booking _ => p.2 = []
  | .booked _ _ => ∃ t, p.2 = [.answering t] ∧ Earlier sha256 t s
  | .done result => ∃ t u, p.2 = [.answering t, .storing u] ∧ Earlier sha256 t s ∧
    match result with
    | .ok o => o ∈ s.world.db.orders ∧ o.agentId = p.1.agentId ∧
        o.providerBookingId =
          (MockAirlineProvider.bookingOf sha256 p.1.idempotencyKey).providerBookingId ∧
        (∀ q ∈ u.world.db.orders, q.id ≠ o.id) ∧
        ∀ agentId payload orderId,
          .orderCommitted agentId p.1.idempotencyKey payload orderId ∉ u.world.history
    | .error _ => ∃ agentId k payload orderId,
        .orderCommitted agentId k payload orderId ∈ u.world.history ∧
        (k, MockAirlineProvider.bookingOf sha256 k) ∈ s.provider.bookings ∧
        (MockAirlineProvider.bookingOf sha256 k).bookingReference =
          (MockAirlineProvider.bookingOf sha256 p.1.idempotencyKey).bookingReference
  | .refused _ _ | .conflicted _ => False

section Call

variable {sha256 : String → String} {s s' : MockWorld} {p : NotedCall} {q : CreateOrder}
  {x : BookChoice}

theorem Found.mono (h : Found sha256 s p) (hl : Later s s') : Found sha256 s' p := by
  have hask : ∀ t, Earlier sha256 t s → Earlier sha256 t s' := by
    intro t ht
    exact ⟨ht.sound, List.Subset.trans ht.bookings hl.bookings⟩
  unfold Found at h ⊢
  split at h
  case h_5 =>
    obtain ⟨t, hn, ht⟩ := h
    exact ⟨t, hn, hask t ht⟩
  case h_6 result _ =>
    obtain ⟨t, u, hn, ht, hr⟩ := h
    refine ⟨t, u, hn, hask t ht, ?_⟩
    cases result with
    | ok o => exact ⟨hl.orders o hr.1, hr.2⟩
    | error e =>
      obtain ⟨agentId, k, payload, orderId, he, hb, href⟩ := hr
      exact ⟨agentId, k, payload, orderId, he, hl.bookings hb, href⟩
  all_goals exact h

theorem exists_offer {db : Database} {agentId : String} {payload : OrderCreate} {now : Time}
    (h : db.offersTo agentId payload.offerId now = true) :
    ∃ offer, createOrderOffer db agentId payload now = .ok offer := by
  simp only [Database.offersTo, List.any_eq_true, decide_eq_true_eq] at h
  obtain ⟨o, ho, hid, hnow, s, hs, hsid, hown⟩ := h
  have hof : agentOffer db agentId payload.offerId = some o := by
    rw [agentOffer, Table.select_eq_some]
    · refine ⟨ho, ?_⟩
      simp only [hid, true_and, decide_eq_true_eq, List.any_eq_true]
      exact ⟨s, hs, hsid, hown⟩
    · intro a ha b hb h₁ h₂
      simp only [Bool.decide_and, Bool.and_eq_true, decide_eq_true_eq] at h₁ h₂
      exact Table.eq_of_col (c := fun o => some [o.id]) (by simp [Offer.uniques]) ha hb rfl
        (by rw [h₁.1, h₂.1])
  exact ⟨o, by rw [createOrderOffer, hof]; exact if_neg (not_le.mpr hnow)⟩

theorem Found.advance (h : Found sha256 s p) (hk : KeysKept sha256 s)
    (hr : p.1.HoldsBooking sha256 s)
    (hnone : ∀ rec ∈ s.world.db.records, rec.agentId = p.1.agentId →
      rec.key ≠ p.1.idempotencyKey)
    (hoffer : ∀ now, x = .checkOffer now →
      s.world.db.offersTo p.1.agentId p.1.payload.offerId now = true)
    (hanswer : ∀ e, x ≠ .raise e)
    (hid : ∀ orderId durationMs, x = .persist orderId durationMs →
      ∀ o ∈ s.world.db.orders, o.id ≠ orderId)
    (ha : p.1.advanceMock sha256 s x = some (s', q)) :
    Found sha256 s' (q, p.2 ++ keyNotes s p.1 s' q) := by
  have hlater := (advanceMock_effect ha).later hk
  obtain ⟨r, notes⟩ := p
  simp only [CreateOrder.advanceMock, Option.map_eq_some_iff, Prod.mk.injEq, Prod.exists] at ha
  obtain ⟨w, q', ha, rfl, rfl⟩ := ha
  have hreplay : ∀ missing, r.replay sha256 s.world missing =
      (s.world, { r with phase := missing }) := by
    intro missing
    rw [CreateOrder.replay, idempotentOrder_none fun rec hrec ha _ => hnone rec hrec ha]
  unfold Found at h
  generalize hy : x.choice (s.provider.book sha256 r.idempotencyKey).1 = y at ha
  unfold CreateOrder.advance at ha
  split at ha
  case h_1 hp =>
    rw [hreplay] at ha
    cases ha
    rw [hp] at h
    simpa [Found, keyNotes, hp] using h
  case h_2 now hp =>
    cases x with
    | checkOffer =>
      cases hy
      obtain ⟨offer, hof⟩ := exists_offer (hoffer now rfl)
      rw [hof] at ha
      cases ha
      rw [hp] at h
      simpa [Found, keyNotes, hp] using h
    | _ => cases hy
  case h_3 offer hp =>
    cases ha
    rw [hp] at h
    simpa [Found, keyNotes, hp] using h
  case h_4 offer b hp =>
    cases ha
    rw [hp] at h
    simp only at h
    refine ⟨s, ?_, hk.bookings, hlater.bookings⟩
    simp [keyNotes, hp, h]
  case h_5 offer e hp =>
    cases x with
    | raise e' => exact absurd rfl (hanswer e')
    | _ => cases hy
  case h_6 =>
    cases x <;> cases hy
  case h_7 hp =>
    rw [hp] at h
    exact h.elim
  case h_8 offer b orderId durationMs hp =>
    obtain ⟨rfl, hb⟩ := hr offer b hp
    rw [hp] at h
    obtain ⟨t, hn, ht⟩ := h
    obtain rfl : notes = [.answering t] := hn
    have hask := List.Subset.trans ht.bookings hlater.bookings
    have hkept : (MockAirlineProvider.bookingOf sha256 r.idempotencyKey).kept = some _ :=
      MockAirlineProvider.kept_bookingOf _
    have hfresh : ∀ o ∈ s.world.db.orders, o.id ≠ orderId := by
      cases x with
      | persist =>
        cases hy
        exact hid _ _ rfl
      | _ => cases hy
    by_cases hused : ∃ o ∈ s.world.db.orders, o.bookingReference =
        (MockAirlineProvider.bookingOf sha256 r.idempotencyKey).bookingReference
    · have hstored : ∀ kept,
          (MockAirlineProvider.bookingOf sha256 r.idempotencyKey).kept = some kept →
          ∃ p ∈ s.world.db.orders, p.bookingReference = kept.bookingReference := by
        intro kept hk
        obtain rfl := Option.some.inj (hk.symm.trans hkept)
        exact hused
      obtain ⟨f, hf⟩ : ∃ e, createOrderPersist s.world.db r.agentId r.payload r.idempotencyKey
          (r.payloadHash sha256) offer _ orderId durationMs = .flushFailed e :=
        createOrderPersist_of_stored hstored
      simp only [hf] at ha
      cases ha
      obtain ⟨o, ho, href⟩ := hused
      obtain ⟨agentId, k, payload, id, he, _, hok⟩ := hk.orders o ho
      obtain ⟨hkb, _⟩ := hk.booked _ _ _ _ he
      refine ⟨t, s, by simp [keyNotes, hp], ⟨ht.sound, hask⟩, ?_⟩
      exact ⟨agentId, k, payload, id, he, hlater.bookings hkb, hok.symm.trans href⟩
    · push Not at hused
      obtain ⟨db', hc⟩ := createOrderPersist_of_unstored r.payload (r.payloadHash sha256) offer
        durationMs hkept hfresh hused fun rec hrec ha _ => hnone rec hrec ha
      simp only [hc] at ha
      cases ha
      obtain ⟨_, _, _, hcr⟩ := createOrderPersist_committed hc
      refine ⟨t, s, by simp [keyNotes, hp], ⟨ht.sound, hask⟩, ?_, rfl, rfl, hfresh, ?_⟩
      · exact hcr.mem_orders.mpr (Or.inr rfl)
      · intro agentId payload id he
        obtain ⟨_, o, ho, href⟩ := hk.booked _ _ _ _ he
        exact hused o ho href
  case h_9 e hp =>
    rw [hp] at h
    exact h.elim
  case h_10 => cases ha

end Call

/-! ## Runs -/

/-- Another call of the agent has the key of this one. -/
def Reused (c : Keyed) (i : ℕ) (p : NotedCall) : Prop :=
  ∃ j q, c.procs[j]? = some q ∧ j ≠ i ∧ q.1.agentId = p.1.agentId ∧
    q.1.idempotencyKey = p.1.idempotencyKey

/-- The store and all calls, with what call `i` has found. -/
structure Placed (sha256 : String → String) (i : ℕ) (c : Keyed) : Prop where
  kept : KeysKept sha256 c.store
  holds : ∀ p ∈ c.procs, p.1.HoldsBooking sha256 c.store
  ended : ∀ agentId k payload orderId,
    .orderCommitted agentId k payload orderId ∈ c.store.world.history →
      ∃ (j : ℕ) (q : NotedCall) (result : Except Failure Order), c.procs[j]? = some q ∧
        q.1.agentId = agentId ∧ q.1.idempotencyKey = k ∧ q.1.phase = .done result
  own : ∀ p, c.procs[i]? = some p → Reused c i p ∨ Found sha256 c.store p

/-- Nothing is stored, and the provider has no bookings. -/
structure Bare (s : MockWorld) : Prop where
  orders : s.world.db.orders.rows = []
  records : s.world.db.records.rows = []
  history : s.world.history = []
  bookings : s.provider.bookings = []

section Runs

variable {sha256 : String → String} {s s' : MockWorld} {c c' : Keyed} {i j : ℕ}
  {p p' : NotedCall} {r r' : CreateOrder} {x : BookChoice} {as : List (Action NotedCall BookChoice)}

theorem MockEffect.agentId (h : MockEffect sha256 s r s' r') : r'.agentId = r.agentId := by
  cases h <;> rfl

theorem MockEffect.key (h : MockEffect sha256 s r s' r') :
    r'.idempotencyKey = r.idempotencyKey := by
  cases h <;> rfl

theorem advanceMock_done {result : Except Failure Order} (hp : r.phase = .done result) :
    r.advanceMock sha256 s x = none := by
  cases x <;> simp [CreateOrder.advanceMock, CreateOrder.advance, hp, BookChoice.choice]

theorem MockEffect.committed (h : MockEffect sha256 s r s' r') {agentId k orderId : String}
    {payload : OrderCreate}
    (he : .orderCommitted agentId k payload orderId ∈ s'.world.history) :
    .orderCommitted agentId k payload orderId ∈ s.world.history ∨
      (r.agentId = agentId ∧ r.idempotencyKey = k ∧ ∃ result, r'.phase = .done result) := by
  cases h with
  | quiet es _ _ hhis hes =>
    rw [hhis] at he
    exact Or.inl ((List.mem_append.mp he).resolve_right (hes _ _ _ _))
  | answered => exact Or.inl he
  | created =>
    rcases List.mem_append.mp he with he | he
    · exact Or.inl he
    · cases List.mem_singleton.mp he
      exact Or.inr ⟨rfl, rfl, _, rfl⟩

theorem Reused.set (h : Reused c i p) {q q' : NotedCall} (hj : c.procs[j]? = some q)
    (ha : q'.1.agentId = q.1.agentId) (hk : q'.1.idempotencyKey = q.1.idempotencyKey) :
    Reused ⟨s, c.procs.set j q'⟩ i p := by
  obtain ⟨n, u, hn, hne, hua, huk⟩ := h
  by_cases hjn : j = n
  · subst hjn
    obtain rfl : q = u := Option.some.inj (hj.symm.trans hn)
    have hlt : j < c.procs.length := (List.getElem?_eq_some_iff.mp hj).1
    exact ⟨j, q', List.getElem?_set_self hlt, hne, ha.trans hua, hk.trans huk⟩
  · exact ⟨n, u, (List.getElem?_set_ne hjn).trans hn, hne, hua, huk⟩

theorem Reused.congr (h : Reused c i p) (ha : p'.1.agentId = p.1.agentId)
    (hk : p'.1.idempotencyKey = p.1.idempotencyKey) : Reused c i p' := by
  obtain ⟨n, u, hn, hne, hua, huk⟩ := h
  exact ⟨n, u, hn, hne, hua.trans ha.symm, huk.trans hk.symm⟩

theorem Placed.spawn (h : Placed sha256 i c) (hf : (keyed sha256).fresh p = true) :
    Placed sha256 i ⟨c.store, c.procs ++ [p]⟩ := by
  have hp : p.1.phase = .requested ∧ p.2 = [] :=
    (Program.recording_fresh.mp hf).imp_left bookingMock_fresh.mp
  have hget : ∀ {k : ℕ} {q : NotedCall}, c.procs[k]? = some q → (c.procs ++ [p])[k]? = some q := by
    intro k q hk
    rwa [List.getElem?_append_left (List.getElem?_eq_some_iff.mp hk).1]
  refine ⟨h.kept, ?_, ?_, ?_⟩
  · intro q hq
    rcases List.mem_append.mp hq with hq | hq
    · exact h.holds q hq
    · obtain rfl := List.mem_singleton.mp hq
      intro offer b hb
      rw [hp.1] at hb
      cases hb
  · intro agentId k payload orderId he
    obtain ⟨n, q, result, hn, hq⟩ := h.ended _ _ _ _ he
    exact ⟨n, q, result, hget hn, hq⟩
  · intro q hq
    rcases Program.getElem?_concat hq with hq | ⟨_, rfl⟩
    · apply (h.own q hq).imp_left
      rintro ⟨n, u, hn, hu⟩
      exact ⟨n, u, hget hn, hu⟩
    · right
      rw [Found, hp.1]
      exact hp.2

theorem Placed.advance (h : Placed sha256 i c) (hg : answeredCall i c (.advance j x) = true)
    (hj : c.procs[j]? = some p) (ha : (keyed sha256).advance c.store p x = some (s', p')) :
    Placed sha256 i ⟨s', c.procs.set j p'⟩ := by
  obtain ⟨q, hq, rfl⟩ := Program.recording_advance.mp ha
  have ha' : p.1.advanceMock sha256 c.store x = some (s', q) := hq
  have he := advanceMock_effect ha'
  have hmem := List.mem_of_getElem? hj
  have hlt : j < c.procs.length := (List.getElem?_eq_some_iff.mp hj).1
  have hlater := he.later h.kept
  refine ⟨he.keysKept h.kept (h.holds p hmem), ?_, ?_, ?_⟩
  · intro u hu
    rcases List.mem_or_eq_of_mem_set hu with hu | rfl
    · exact (h.holds u hu).mono hlater
    · exact he.holdsBooking h.kept
  · intro agentId k payload orderId hev
    rcases he.committed hev with hev | ⟨hag, hk, result, hd⟩
    · obtain ⟨n, u, result, hn, hua, huk, hd⟩ := h.ended _ _ _ _ hev
      have hne : j ≠ n := by
        rintro rfl
        obtain rfl : p = u := Option.some.inj (hj.symm.trans hn)
        rw [advanceMock_done hd] at ha'
        cases ha'
      exact ⟨n, u, result, (List.getElem?_set_ne hne).trans hn, hua, huk, hd⟩
    · exact ⟨j, _, result, List.getElem?_set_self hlt, he.agentId.trans hag, he.key.trans hk, hd⟩
  · intro u hu
    by_cases hji : j = i
    · subst hji
      rw [List.getElem?_set_self hlt] at hu
      cases hu
      rcases h.own p hj with hr | hfound
      · exact Or.inl ((hr.set hj he.agentId he.key).congr he.agentId he.key)
      · by_cases hrec : ∃ rec ∈ c.store.world.db.records, rec.agentId = p.1.agentId ∧
            rec.key = p.1.idempotencyKey
        · obtain ⟨rec, hrec, hag, hk⟩ := hrec
          obtain ⟨payload, orderId, hev⟩ := h.kept.records rec hrec
          obtain ⟨n, u, result, hn, hua, huk, hd⟩ := h.ended _ _ _ _ hev
          have hne : j ≠ n := by
            rintro rfl
            obtain rfl : p = u := Option.some.inj (hj.symm.trans hn)
            rw [advanceMock_done hd] at ha'
            cases ha'
          left
          exact ⟨n, u, (List.getElem?_set_ne hne).trans hn, hne.symm,
            (hua.trans hag).trans he.agentId.symm, (huk.trans hk).trans he.key.symm⟩
        · push Not at hrec
          right
          refine hfound.advance h.kept (h.holds p hmem) hrec ?_ ?_ ?_ ha'
          · rintro now rfl
            simpa [answeredCall, hj] using hg
          · rintro e rfl
            simp [answeredCall] at hg
          · rintro orderId durationMs rfl
            simpa [answeredCall, Table.mem_def] using hg
    · rw [List.getElem?_set_ne hji] at hu
      rcases h.own u hu with hr | hfound
      · exact Or.inl (hr.set hj he.agentId he.key)
      · exact Or.inr (hfound.mono hlater)

theorem Placed.of_run (hs : Bare s)
    (h : (keyed sha256).machine.RunWhere (fun c a => answeredCall i c a) (Program.start s) as c) :
    Placed sha256 i c := by
  refine h.invariant (I := Placed sha256 i) ?_ ⟨⟨?_, ?_, ?_, ?_⟩, ?_, ?_, ?_⟩
  · intro c a c' hg hstep h
    cases a with
    | spawn p =>
      obtain ⟨hf, rfl⟩ := Program.step_spawn_iff.mp hstep
      exact h.spawn hf
    | advance j x =>
      obtain ⟨p, s', p', hj, ha, rfl⟩ := Program.step_advance_iff.mp hstep
      exact h.advance hg hj ha
  all_goals
    simp [MockAirlineProvider.Sound, Program.start, Table.mem_def, hs.orders, hs.records,
      hs.history, hs.bookings]

theorem exists_advanceMock (sha256 : String → String) (s : MockWorld) (r : CreateOrder)
    (hp : ∀ result, r.phase ≠ .done result) :
    ∃ x, (r.advanceMock sha256 s x).isSome = true := by
  simp only [CreateOrder.advanceMock, Option.isSome_map]
  cases hph : r.phase with
  | requested | conflicted => exact ⟨.replay, by simp [CreateOrder.advance, hph, BookChoice.choice]⟩
  | unseen =>
    refine ⟨.checkOffer 0, ?_⟩
    simp only [CreateOrder.advance, hph, BookChoice.choice]
    split <;> rfl
  | offered => exact ⟨.call, by simp [CreateOrder.advance, hph, BookChoice.choice]⟩
  | booking => exact ⟨.answer, by simp [CreateOrder.advance, hph, BookChoice.choice]⟩
  | refused =>
    refine ⟨.auditRefusal 0, ?_⟩
    simp only [CreateOrder.advance, hph, BookChoice.choice]
    split <;> rfl
  | booked =>
    refine ⟨.persist "" 0, ?_⟩
    simp only [CreateOrder.advance, hph, BookChoice.choice]
    split <;> rfl
  | done result => exact absurd hph (hp result)

theorem unused_storing {u : MockWorld} {k : String} :
    (KeyNote.storing u).unused k = true ↔ ∀ agentId payload orderId,
      .orderCommitted agentId k payload orderId ∉ u.world.history := by
  simp only [KeyNote.unused, List.all_eq_true, Bool.not_eq_true', Bool.eq_false_iff]
  constructor
  · intro h agentId payload orderId he
    exact h _ he (by simp [Event.stores])
  · intro h e he hst
    cases e with
    | orderCommitted agentId key payload orderId =>
      obtain rfl : key = k := by simpa [Event.stores] using hst
      exact h agentId payload orderId he
    | _ => cases hst

theorem unused_answering {t : MockWorld} {k : String} :
    (KeyNote.answering t).unused k = true ↔ t.provider.find? k = none := by
  simp [KeyNote.unused]

theorem KeysKept.order_ext (h : KeysKept sha256 s) {o q : Order} (ho : o ∈ s.world.db.orders)
    (hq : q ∈ s.world.db.orders) (hid : q.providerBookingId = o.providerBookingId) : q = o := by
  obtain ⟨_, k, _, _, _, hok, hor⟩ := h.orders o ho
  obtain ⟨_, l, _, _, _, hql, hqr⟩ := h.orders q hq
  apply Database.order_ext_of_reference hq ho
  rw [hor, hqr]
  exact MockAirlineProvider.bookingReference_eq_of_id (by rw [← hql, ← hok, hid])

/-- A call that has ended got a booking of its own exactly if its key was unused. -/
theorem Found.bookedForIt_iff (h : Found sha256 s p) (hk : KeysKept sha256 s)
    {result : Except Failure Order} (hp : p.1.phase = .done result)
    (href : ∀ k b, (k, b) ∈ s.provider.bookings →
      (MockAirlineProvider.bookingOf sha256 k).bookingReference =
        (MockAirlineProvider.bookingOf sha256 p.1.idempotencyKey).bookingReference →
      k = p.1.idempotencyKey) :
    BookedForIt sha256 s p ↔ KeyUnused p := by
  rw [Found, hp] at h
  obtain ⟨t, u, hn, ht, hres⟩ := h
  simp only [KeyUnused, hn, List.all_cons, List.all_nil, Bool.and_true, Bool.and_eq_true,
    unused_storing, unused_answering]
  cases result with
  | ok o =>
    obtain ⟨ho, hag, hid, hnew, hun⟩ := hres
    constructor
    · rintro ⟨_, _, hph, _, _, ⟨t', ht', _, hb⟩, _⟩
      cases hp.symm.trans hph
      obtain rfl : t' = t := by simpa [hn] using ht'
      refine ⟨?_, hun⟩
      by_contra hne
      obtain ⟨b, hfind⟩ := Option.ne_none_iff_exists'.mp hne
      have hmem := MockAirlineProvider.mem_of_find? hfind
      apply hb _ hmem
      rw [hid, ht.sound _ _ hmem]
    · rintro ⟨hfind, _⟩
      refine ⟨o, ho, hp, hag, ⟨u, by simp [hn], hnew⟩, ⟨t, by simp [hn], ?_, ?_⟩, ?_⟩
      · rw [ht.sound.book_fst, hid]
      · rintro ⟨k, b⟩ hmem heq
        obtain rfl := ht.sound k b hmem
        obtain rfl := href k _ (ht.bookings hmem)
          (MockAirlineProvider.bookingReference_eq_of_id (heq.trans hid))
        exact MockAirlineProvider.notMem_of_find? hfind hmem
      · intro q hq hne heq
        exact hne (hk.order_ext ho hq heq)
  | error e =>
    obtain ⟨agentId, k, payload, orderId, he, hb, hkr⟩ := hres
    constructor
    · rintro ⟨_, _, hph, _⟩
      cases hp.symm.trans hph
    · rintro ⟨_, hun⟩
      obtain rfl := href k _ hb hkr
      exact absurd he (hun _ _ _)

/-- Whatever keys other agents use, an agent's call under a key of its own, answered in time and
for an unexpired offer of the agent, ends, and it returns a new order with a booking of its own
exactly if the key was unused at the provider and in the orders. -/
theorem booked_for_it_iff (hs : Bare s)
    (h : (keyed sha256).machine.RunWhere (fun c a => answeredCall i c a) (Program.start s) as c)
    (hi : c.procs[i]? = some p)
    (hend : ∀ x, (keyed sha256).machine.step c (.advance i x) = none)
    (honce : ∀ j q, c.procs[j]? = some q → q.1.agentId = p.1.agentId →
      q.1.idempotencyKey = p.1.idempotencyKey → j = i)
    (href : ∀ k b, (k, b) ∈ c.store.provider.bookings →
      (MockAirlineProvider.bookingOf sha256 k).bookingReference =
        (MockAirlineProvider.bookingOf sha256 p.1.idempotencyKey).bookingReference →
      k = p.1.idempotencyKey) :
    BookedForIt sha256 c.store p ↔ KeyUnused p := by
  have hpl : Placed sha256 i c := .of_run hs h
  have hfound : Found sha256 c.store p := by
    apply (hpl.own p hi).resolve_left
    rintro ⟨j, q, hj, hne, ha, hk⟩
    exact hne (honce j q hj ha hk)
  obtain ⟨result, hp⟩ : ∃ result, p.1.phase = .done result := by
    by_contra hno
    obtain ⟨x, hx⟩ := exists_advanceMock sha256 c.store p.1 (not_exists.mp hno)
    obtain ⟨⟨s', q⟩, ha⟩ := Option.isSome_iff_exists.mp hx
    have hadv : (keyed sha256).advance c.store p x =
        some (s', q, p.2 ++ keyNotes c.store p.1 s' q) :=
      Program.recording_advance.mpr ⟨q, ha, rfl⟩
    have hstep := Program.step_advance_iff.mpr ⟨p, s', _, hi, hadv, rfl⟩
    rw [hend x] at hstep
    cases hstep
  exact hfound.bookedForIt_iff hpl.kept hp href

end Runs

/-! ## Two agents -/

namespace Example

/-- Two agents, and a provider that has booked nothing. -/
def twoAgents : MockWorld := ⟨twoOffered, ⟨[]⟩⟩

/-- A call from its arrival to its persist block. -/
def bookCall (i : ℕ) (agentId offerId key orderId : String) :
    List (Action NotedCall BookChoice) :=
  [.spawn (⟨agentId, { payload with offerId := offerId }, key, .requested⟩, []),
    .advance i .replay, .advance i (.checkOffer 100), .advance i .call, .advance i .answer,
    .advance i (.persist orderId 5)]

/-- A call of each agent, the second one under the given key. -/
def bothBook (key : String) : List (Action NotedCall BookChoice) :=
  bookCall 0 "agent" "offer" "01-BOOK-KEY" "order" ++ bookCall 1 "other" "offer-1" key "order-1"

def ended (p : NotedCall) : Bool := p.1.phase matches .done _

def succeeded (p : NotedCall) : Bool := p.1.phase matches .done (.ok _)

end Example

theorem exists_secondCall {sha256 : String → String} {c : Keyed} {key : String}
    (hp : c.procs.map (fun p => (p.1.agentId, p.1.idempotencyKey)) =
      [("agent", "01-BOOK-KEY"), ("other", key)])
    (hd : c.procs.all Example.ended = true) :
    ∃ p, c.procs[1]? = some p ∧ p.1.agentId = "other" ∧ p.1.idempotencyKey = key ∧
      (∀ x, (keyed sha256).machine.step c (.advance 1 x) = none) ∧
      ∀ j q, c.procs[j]? = some q → q.1.agentId = p.1.agentId →
        q.1.idempotencyKey = p.1.idempotencyKey → j = 1 := by
  have hget : ∀ j : ℕ, (c.procs[j]?).map (fun p : NotedCall => (p.1.agentId, p.1.idempotencyKey)) =
      [("agent", "01-BOOK-KEY"), ("other", key)][j]? := by
    intro j
    rw [← List.getElem?_map, hp]
  obtain ⟨p, hi, hpair⟩ := Option.map_eq_some_iff.mp (hget 1)
  obtain ⟨hag, hk⟩ := Prod.mk.inj hpair
  refine ⟨p, hi, hag, hk, ?_, ?_⟩
  · intro x
    obtain ⟨result, hph⟩ : ∃ result, p.1.phase = .done result := by
      have hdone := List.all_eq_true.mp hd p (List.mem_of_getElem? hi)
      unfold Example.ended at hdone
      split at hdone
      · exact ⟨_, by assumption⟩
      · cases hdone
    rw [Option.eq_none_iff_forall_ne_some]
    intro c' hstep
    obtain ⟨q, s', q', hq, ha, _⟩ := Program.step_advance_iff.mp hstep
    obtain rfl : p = q := Option.some.inj (hi.symm.trans hq)
    obtain ⟨u, ha', _⟩ := Program.recording_advance.mp ha
    have hnone : (bookingMock sha256).advance c.store p.1 x = none := advanceMock_done hph
    rw [hnone] at ha'
    cases ha'
  · intro j q hj hqa _
    have hq := hget j
    rw [hj, Option.map_some, hqa, hag] at hq
    match j, hq with
    | 0, hq => simp at hq
    | 1, _ => rfl
    | j + 2, hq => simp at hq

/-- The call under the key of another agent fails at the reference of that agent's order. -/
theorem not_bookedForIt_sameKey : ¬ ∀ (sha256 : String → String) (s : MockWorld) (i : ℕ)
    (as : List (Action NotedCall BookChoice)) (c : Keyed) (p : NotedCall), Bare s →
    (keyed sha256).machine.RunWhere (fun c a => answeredCall i c a) (Program.start s) as c →
    c.procs[i]? = some p → (∀ x, (keyed sha256).machine.step c (.advance i x) = none) →
    (∀ j q, c.procs[j]? = some q → q.1.agentId = p.1.agentId →
      q.1.idempotencyKey = p.1.idempotencyKey → j = i) →
    (∀ k b, (k, b) ∈ c.store.provider.bookings →
      (MockAirlineProvider.bookingOf sha256 k).bookingReference =
        (MockAirlineProvider.bookingOf sha256 p.1.idempotencyKey).bookingReference →
      k = p.1.idempotencyKey) →
    BookedForIt sha256 c.store p := by
  intro hall
  have hrun : ((keyed id).machine.execWhere (fun c a => answeredCall 1 c a)
      (Program.start Example.twoAgents) (Example.bothBook "01-BOOK-KEY")).map (fun c =>
        (c.procs.map (fun p => (p.1.agentId, p.1.idempotencyKey)),
          c.procs.all Example.ended,
          c.procs.map Example.succeeded,
          c.store.provider.bookings.map (·.1))) =
      some ([("agent", "01-BOOK-KEY"), ("other", "01-BOOK-KEY")], true, [true, false],
        ["01-BOOK-KEY"]) := by
    decide +kernel
  obtain ⟨c, hc, he⟩ := Option.map_eq_some_iff.mp hrun
  simp only [Prod.mk.injEq] at he
  obtain ⟨hprocs, hdone, hok, hkeys⟩ := he
  obtain ⟨p, hi, _, hk, hend, honce⟩ := exists_secondCall hprocs hdone
  obtain ⟨o, _, hph, _⟩ := hall id _ 1 _ c p ⟨rfl, rfl, rfl, rfl⟩
    (Machine.runWhere_of_execWhere hc) hi hend honce (by
      intro k b hb _
      have hmem : k ∈ c.store.provider.bookings.map (·.1) := List.mem_map.mpr ⟨(k, b), hb, rfl⟩
      rw [hkeys, List.mem_singleton] at hmem
      rw [hmem, hk])
  have hfalse := congrArg (·[1]?) hok
  simp [Example.succeeded, hi, hph] at hfalse

theorem booked_for_it_iff_twoKeys : ∃ (c : Keyed) (p : NotedCall), c.procs[1]? = some p ∧
    p.1.agentId = "other" ∧ BookedForIt id c.store p := by
  have hrun : ((keyed id).machine.execWhere (fun c a => answeredCall 1 c a)
      (Program.start Example.twoAgents) (Example.bothBook "02-BOOK-KEY")).map (fun c =>
        (c.procs.map (fun p => (p.1.agentId, p.1.idempotencyKey)),
          c.procs.all Example.ended,
          c.procs.all (fun p => p.2.all (·.unused p.1.idempotencyKey)),
          c.store.provider.bookings.map (·.1))) =
      some ([("agent", "01-BOOK-KEY"), ("other", "02-BOOK-KEY")], true, true,
        ["02-BOOK-KEY", "01-BOOK-KEY"]) := by
    decide +kernel
  obtain ⟨c, hc, he⟩ := Option.map_eq_some_iff.mp hrun
  simp only [Prod.mk.injEq] at he
  obtain ⟨hprocs, hdone, hunused, hkeys⟩ := he
  obtain ⟨p, hi, hag, hk, hend, honce⟩ := exists_secondCall hprocs hdone
  refine ⟨c, p, hi, hag, (booked_for_it_iff ⟨rfl, rfl, rfl, rfl⟩
    (Machine.runWhere_of_execWhere hc) hi hend honce ?_).mpr
    (List.all_eq_true.mp hunused p (List.mem_of_getElem? hi))⟩
  intro k b hb href
  have hmem : k ∈ c.store.provider.bookings.map (·.1) := List.mem_map.mpr ⟨(k, b), hb, rfl⟩
  rw [hkeys] at hmem
  rw [hk] at href ⊢
  have hall : ∀ k ∈ ["02-BOOK-KEY", "01-BOOK-KEY"],
      (MockAirlineProvider.bookingOf id k).bookingReference =
        (MockAirlineProvider.bookingOf id "02-BOOK-KEY").bookingReference →
      k = "02-BOOK-KEY" := by
    decide +kernel
  exact hall k hmem href

end Ioka
