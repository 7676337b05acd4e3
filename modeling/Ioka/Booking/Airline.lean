import Ioka.Booking.CreateKeys
import Ioka.Booking.Keys
import Ioka.Provider.Issue
import Ioka.Transition.Simulation

/-! # The booking service and its airline

Requests against one mock airline. The airline completes a call that is under way, and its
answer arrives or is lost; a call may also fail before it reaches the airline. Keys tie the
two together: the airline has at most one ticket for an order, and an issued order has it.
-/

namespace Ioka

open Relational Transition

structure AirlineWorld where
  world : World
  airline : MockAirline

inductive AirlineChoice
  /-- A step of the service that needs no answer. -/
  | service (x : Choice)
  | answer (now : Time)
  /-- The call is completed, but the request gets an exception. -/
  | lost (now : Time) (error : Raised)

/-- The step takes the answer of a provider. -/
def Choice.answers : Choice → Bool
  | .inl (.answer _) | .inr (.answer _) => true
  | _ => false

/-- The answer to the call of a request that is under way, and the airline after it. -/
def Request.ask (sha256 : String → String) (p : MockAirline) (now : Time) :
    Request → Option (Choice × MockAirline)
  | .inl r =>
    match r.phase with
    | .booking _ =>
      let (booking, p) := p.book sha256 r.idempotencyKey
      some (.inl (.answer booking), p)
    | _ => none
  | .inr r =>
    match r.phase with
    | .issuing providerBookingId =>
      let (ticket, p) := p.issue sha256 providerBookingId r.idempotencyKey now
      some (.inr (.answer ticket), p)
    | _ => none

def Request.raises (error : Raised) : Request → Choice
  | .inl _ => .inl (.raise error)
  | .inr _ => .inr (.raise error)

def Request.advanceAirline (sha256 : String → String) (s : AirlineWorld) (p : Request)
    (x : AirlineChoice) : Option (AirlineWorld × Request) :=
  match x with
  | .service x =>
    if x.answers then none
    else ((booking sha256).advance s.world p x).map fun r => (⟨r.1, s.airline⟩, r.2)
  | .answer now => (p.ask sha256 s.airline now).bind fun a =>
      ((booking sha256).advance s.world p a.1).map fun r => (⟨r.1, a.2⟩, r.2)
  | .lost now error => (p.ask sha256 s.airline now).bind fun a =>
      ((booking sha256).advance s.world p (p.raises error)).map fun r => (⟨r.1, a.2⟩, r.2)

/-- Any requests of any agents with one mock airline, their steps in any order. -/
def airline (sha256 : String → String) : Program AirlineWorld Request AirlineChoice where
  fresh := (booking sha256).fresh
  advance := Request.advanceAirline sha256

abbrev Flying := Config AirlineWorld Request

/-- Issue requests arrive with non-empty keys. -/
def airlineKeyed (_ : Flying) : Action Request AirlineChoice → Bool
  | .spawn (.inr r) => r.idempotencyKey ≠ ""
  | _ => true

/-- What one step of a request does to the service and the airline. -/
inductive AirlineStep (sha256 : String → String) (s : AirlineWorld) :
    Request → AirlineWorld → Request → Prop
  | service {p p' : Request} {x : Choice} {w : World} : x.answers = false →
      (booking sha256).advance s.world p x = some (w, p') →
      AirlineStep sha256 s p ⟨w, s.airline⟩ p'
  | booked {r : CreateOrder} {offer : Offer} {phase : CreatePhase} : r.phase = .booking offer →
      phase = .booked offer (s.airline.book sha256 r.idempotencyKey).1 ∨
        (∃ e, phase = .refused offer e) →
      AirlineStep sha256 s (.inl r) ⟨s.world, (s.airline.book sha256 r.idempotencyKey).2⟩
        (.inl { r with phase := phase })
  | ticketed {r : IssueOrder} {b : String} {now : Time} {phase : IssuePhase} :
      r.phase = .issuing b →
      phase = .ticketed (s.airline.issue sha256 b r.idempotencyKey now).1 ∨
        (∃ e, phase = .refused e) →
      AirlineStep sha256 s (.inr r) ⟨s.world, (s.airline.issue sha256 b r.idempotencyKey now).2⟩
        (.inr { r with phase := phase })

section Step

variable {sha256 : String → String} {s s' : AirlineWorld} {p p' : Request} {x : AirlineChoice}

theorem ask_cases {a a' : MockAirline} {now : Time} {y : Choice}
    (h : p.ask sha256 a now = some (y, a')) :
    (∃ r offer, p = .inl r ∧ r.phase = .booking offer ∧
      y = .inl (.answer (a.book sha256 r.idempotencyKey).1) ∧
      a' = (a.book sha256 r.idempotencyKey).2) ∨
    ∃ r b, p = .inr r ∧ r.phase = .issuing b ∧
      y = .inr (.answer (a.issue sha256 b r.idempotencyKey now).1) ∧
      a' = (a.issue sha256 b r.idempotencyKey now).2 := by
  rcases p with r | r
  · cases hp : r.phase with
    | booking offer =>
      simp only [Request.ask, hp, Option.some.injEq, Prod.mk.injEq] at h
      exact Or.inl ⟨r, offer, rfl, hp, h.1.symm, h.2.symm⟩
    | _ => simp [Request.ask, hp] at h
  · cases hp : r.phase with
    | issuing b =>
      simp only [Request.ask, hp, Option.some.injEq, Prod.mk.injEq] at h
      exact Or.inr ⟨r, b, rfl, hp, h.1.symm, h.2.symm⟩
    | _ => simp [Request.ask, hp] at h

/-- Every step with the airline is one of the listed ones. -/
theorem airline_step (h : (airline sha256).advance s p x = some (s', p')) :
    AirlineStep sha256 s p s' p' := by
  cases x with
  | service x =>
    simp only [airline, Request.advanceAirline, Option.ite_none_left_eq_some,
      Option.map_eq_some_iff, Prod.mk.injEq, Prod.exists, Bool.not_eq_true] at h
    obtain ⟨hx, w, q, ha, rfl, rfl⟩ := h
    exact .service hx ha
  | answer now =>
    simp only [airline, Request.advanceAirline, Option.bind_eq_some_iff, Option.map_eq_some_iff,
      Prod.mk.injEq, Prod.exists] at h
    obtain ⟨y, a, hask, w, q, ha, rfl, rfl⟩ := h
    rcases ask_cases hask with ⟨r, offer, rfl, hp, rfl, rfl⟩ | ⟨r, b, rfl, hp, rfl, rfl⟩ <;>
      simp only [booking, Program.sum, CreateOrder.program, CreateOrder.advance,
        IssueOrder.program, IssueOrder.advance, hp, Option.map_some, Option.some.injEq,
        Prod.mk.injEq] at ha <;> obtain ⟨rfl, rfl⟩ := ha
    · exact .booked hp (Or.inl rfl)
    · exact .ticketed hp (Or.inl rfl)
  | lost now e =>
    simp only [airline, Request.advanceAirline, Option.bind_eq_some_iff, Option.map_eq_some_iff,
      Prod.mk.injEq, Prod.exists] at h
    obtain ⟨y, a, hask, w, q, ha, rfl, rfl⟩ := h
    rcases ask_cases hask with ⟨r, offer, rfl, hp, rfl, rfl⟩ | ⟨r, b, rfl, hp, rfl, rfl⟩ <;>
      simp only [booking, Program.sum, Request.raises, CreateOrder.program, CreateOrder.advance,
        IssueOrder.program, IssueOrder.advance, hp, Option.map_some, Option.some.injEq,
        Prod.mk.injEq] at ha <;> obtain ⟨rfl, rfl⟩ := ha
    · exact .booked hp (Or.inr ⟨e, rfl⟩)
    · exact .ticketed hp (Or.inr ⟨e, rfl⟩)

theorem booking_of_airline (h : (airline sha256).advance s p x = some (s', p')) :
    ∃ y, (booking sha256).advance s.world p y = some (s'.world, p') := by
  cases x with
  | service x =>
    simp only [airline, Request.advanceAirline, Option.ite_none_left_eq_some,
      Option.map_eq_some_iff, Prod.mk.injEq, Prod.exists] at h
    obtain ⟨_, w, q, ha, rfl, rfl⟩ := h
    exact ⟨x, ha⟩
  | answer now | lost now e =>
    simp only [airline, Request.advanceAirline, Option.bind_eq_some_iff, Option.map_eq_some_iff,
      Prod.mk.injEq, Prod.exists] at h
    obtain ⟨y, a, _, w, q, ha, rfl, rfl⟩ := h
    exact ⟨_, ha⟩

end Step

/-! ## What the airline and the orders agree on -/

/-- The airline's tickets belong to orders by their keys, and the issued orders have them. -/
structure AirlineKept (sha256 : String → String) (s : AirlineWorld) : Prop where
  onePerKey : (s.airline.tickets.map (·.1)).Nodup
  forOrder : ∀ k t, (k, t) ∈ s.airline.tickets → k ≠ "" ∧ ∃ o ∈ s.world.db.orders,
    o.issueIdempotencyKey = some k ∧
      t.ticketNumber = MockAirline.ticketNumberOf sha256 o.providerBookingId k
  issued : ∀ o ∈ s.world.db.orders, o.status = .issued → ∃ k t,
    o.issueIdempotencyKey = some k ∧ (k, t) ∈ s.airline.tickets ∧
      o.ticketNumber = some t.ticketNumber ∧ o.issuedAt = some t.issuedAt

/-- The ticket that a request got is the airline's. -/
def Request.Answered (s : AirlineWorld) : Request → Prop
  | .inl _ => True
  | .inr r => ∀ t, r.phase = .ticketed t → (r.idempotencyKey, t) ∈ s.airline.tickets

section Kept

variable {sha256 : String → String} {s s' : AirlineWorld} {p p' q : Request} {w : World}
  {k key b : String} {now : Time} {x : Choice}

theorem AirlineStep.tickets_subset (h : AirlineStep sha256 s p s' p') :
    s.airline.tickets ⊆ s'.airline.tickets := by
  cases h with
  | service | booked => exact List.Subset.refl _
  | ticketed => exact MockAirline.tickets_issue ..

theorem Request.Answered.mono (h : q.Answered s)
    (ht : s.airline.tickets ⊆ s'.airline.tickets) : q.Answered s' := by
  rcases q with r | r
  · trivial
  · exact fun t hp => ht (h t hp)

theorem Request.Answered.service (hx : x.answers = false)
    (h : (booking sha256).advance s.world p x = some (w, p')) : p'.Answered s' := by
  rcases Program.sum_advance h with ⟨r, r', y, rfl, rfl, rfl, ha⟩ | ⟨r, r', y, rfl, rfl, rfl, ha⟩
  · trivial
  · intro t hp
    obtain ⟨rfl, _⟩ := IssueOrder.answer_of_ticketed ha hp
    cases hx

/-- The request that took the step has what it got, and the others still have theirs. -/
theorem AirlineStep.answered (h : AirlineStep sha256 s p s' p') : p'.Answered s' := by
  cases h with
  | service hx ha => exact Request.Answered.service hx ha
  | booked => trivial
  | @ticketed r b now phase _ hph =>
    rintro t rfl
    rcases hph with hph | ⟨e, hph⟩
    · rw [IssuePhase.ticketed.inj hph]
      exact MockAirline.mem_issue ..
    · cases hph

namespace AirlineKept

theorem kept_ticket (hk : AirlineKept sha256 s) {t : ProviderTicket}
    (hm : (k, t) ∈ s.airline.tickets) : t.kept = some t := by
  obtain ⟨_, o, _, _, ht⟩ := hk.forOrder k t hm
  exact MockAirline.kept_ticketNumberOf ht

theorem issued_of_effect (hk : AirlineKept sha256 s) (hv : p.Valid s.world.db) (hp : p.Keyed)
    (hans : p.Answered s) (he : Effect sha256 s.world p w) {o : Order} (ho : o ∈ w.db.orders)
    (hi : o.status = .issued) : ∃ k t, o.issueIdempotencyKey = some k ∧
      (k, t) ∈ s.airline.tickets ∧ o.ticketNumber = some t.ticketNumber ∧
      o.issuedAt = some t.issuedAt := by
  cases he with
  | quiet => exact hk.issued o ho hi
  | @moved r db' phase a q q' t? t' es hph hid _ hm =>
    rcases hm.mem_orders.mp ho with rfl | ⟨ho, _⟩
    · cases hm.move with
      | @capture ticket _ _ _ hne =>
        obtain ⟨given, hph, hgiven⟩ := hph
        obtain rfl := Option.some.inj ((hk.kept_ticket (hans given hph)).symm.trans hgiven)
        obtain ⟨q', hq', hqid, _, hkey, _⟩ := (hv (by simp [IssueOrder.Active, hph])).order
        obtain rfl := Database.order_ext hq' hm.order_mem (hqid.trans hid.symm)
        exact ⟨_, given, hkey (hp r rfl), hans given hph, rfl, rfl⟩
      | debit | debitAgain | join | release => cases hi
    · exact hk.issued o ho hi
  | created _ _ hcr =>
    rcases hcr.mem_orders.mp ho with ho | rfl
    · exact hk.issued o ho hi
    · cases hi

theorem service (hk : AirlineKept sha256 s) (hc : Coupled s.world.db) (hv : p.Valid s.world.db)
    (hp : p.Keyed) (hans : p.Answered s) (he : Effect sha256 s.world p w) :
    AirlineKept sha256 ⟨w, s.airline⟩ where
  onePerKey := hk.onePerKey
  forOrder k t hm := by
    obtain ⟨hne, o, ho, hkey, ht⟩ := hk.forOrder k t hm
    obtain ⟨o', ho', hs⟩ := (he.extends hc).orders o ho
    exact ⟨hne, o', ho', hs.key k hne hkey, by rw [hs.providerBookingId, ht]⟩
  issued _ ho hi := hk.issued_of_effect hv hp hans he ho hi

theorem book (hk : AirlineKept sha256 s) (key : String) :
    AirlineKept sha256 ⟨s.world, (s.airline.book sha256 key).2⟩ where
  onePerKey := hk.onePerKey
  forOrder := hk.forOrder
  issued := hk.issued

theorem issue (hk : AirlineKept sha256 s) {o : Order} (ho : o ∈ s.world.db.orders)
    (hkey : o.issueIdempotencyKey = some key) (hne : key ≠ "") (now : Time) :
    AirlineKept sha256
      ⟨s.world, (s.airline.issue sha256 o.providerBookingId key now).2⟩ := by
  rcases MockAirline.issue_cases sha256 s.airline o.providerBookingId key now with
    ⟨_, _, he⟩ | ⟨hnew, he⟩ <;> rw [he]
  · exact hk
  · constructor
    · exact List.nodup_cons.mpr ⟨hnew, hk.onePerKey⟩
    · intro k t hm
      rcases List.mem_cons.mp hm with hm | hm
      · cases hm
        exact ⟨hne, o, ho, hkey, rfl⟩
      · exact hk.forOrder k t hm
    · intro p hp hi
      obtain ⟨k, t, hpk, hm, ht⟩ := hk.issued p hp hi
      exact ⟨k, t, hpk, List.mem_cons_of_mem _ hm, ht⟩

theorem step (h : AirlineStep sha256 s p s' p') (hk : AirlineKept sha256 s)
    (hc : Coupled s.world.db) (hv : p.Valid s.world.db) (hp : p.Keyed) (hans : p.Answered s) :
    AirlineKept sha256 s' := by
  cases h with
  | service _ ha => exact hk.service hc hv hp hans (booking_effect ha hv hc).1
  | booked => exact hk.book _
  | @ticketed r b now _ hph =>
    obtain ⟨o, ho, _, _, hkey, hb⟩ := (hv (by simp [IssueOrder.Active, hph])).order
    rw [← hb b (Or.inr hph)]
    exact hk.issue ho (hkey (hp r rfl)) (hp r rfl) now

end AirlineKept

end Kept

section Runs

variable {sha256 : String → String} {c c' : Flying} {w : World}
  {as bs : List (Action Request AirlineChoice)}

/-- The service and the airline agree, and every request has what it relies on. -/
def Aligned (sha256 : String → String) (c : Flying) : Prop :=
  Program.Holds (fun s => Coupled s.world.db ∧ AirlineKept sha256 s)
    (fun s p => p.Valid s.world.db ∧ p.Keyed ∧ p.Answered s) c

theorem aligned_of_run
    (h : (airline sha256).machine.RunWhere (fun c a => airlineKeyed c a = true) c as c')
    (hc : Aligned sha256 c) : Aligned sha256 c' := by
  refine Program.holds_of_run ?_ ?_ h hc
  · intro c p hg hf _
    have hkeyed : p.Keyed := by
      rintro r rfl
      simpa [airlineKeyed] using hg
    refine ⟨Request.valid_of_fresh hf, hkeyed, ?_⟩
    rcases p with r | r
    · trivial
    · have hp : r.phase = .requested := (booking_fresh_issue sha256).mp hf
      intro t ht
      rw [hp] at ht
      cases ht
  · rintro c i x p s' p' _ _ ha ⟨hc, hk⟩ ⟨hv, hkeyed, hans⟩
    have hs := airline_step ha
    obtain ⟨y, hb⟩ := booking_of_airline ha
    obtain ⟨he, hv', hcont⟩ := booking_effect hb hv hc
    refine ⟨⟨he.coupled hc, hk.step hs hc hv hkeyed hans⟩,
      ⟨hv', hkeyed.continues hcont, hs.answered⟩, ?_⟩
    rintro q _ ⟨hqv, hqk, hqa⟩
    exact ⟨hqv.mono (he.extends hc).grows, hqk,
      hqa.mono hs.tickets_subset⟩

theorem aligned_start (hb : Blank w.db) :
    Aligned sha256 (Program.start ⟨w, MockAirline.idle⟩) := by
  have hnone : ∀ o, o ∉ w.db.orders := by simp [Table.mem_def, hb.orders]
  refine Program.holds_start ⟨hb.unpaid.coupled, List.nodup_nil, ?_, ?_⟩
  · intro k t hm
    cases hm
  · exact fun o ho => absurd ho (hnone o)

/-- Tickets and orders outlive every run. -/
theorem later_of_run
    (h : (airline sha256).machine.RunWhere (fun c a => airlineKeyed c a = true) c as c')
    (hc : Aligned sha256 c) :
    c.store.airline.tickets ⊆ c'.store.airline.tickets ∧
      ∀ o ∈ c.store.world.db.orders, ∃ o' ∈ c'.store.world.db.orders, SameBooking o o' := by
  induction h with
  | nil => exact ⟨List.Subset.refl _, fun o ho => ⟨o, ho, .refl o⟩⟩
  | @cons c c₁ c₂ a as hg hs _ ih =>
    obtain ⟨htickets, horders⟩ := ih (aligned_of_run (.cons hg hs (.nil c₁)) hc)
    cases a with
    | spawn p =>
      obtain ⟨_, rfl⟩ := Program.step_spawn_iff.mp hs
      exact ⟨htickets, horders⟩
    | advance i x =>
      obtain ⟨p, s', p', hp, ha, rfl⟩ := Program.step_advance_iff.mp hs
      obtain ⟨y, hb⟩ := booking_of_airline ha
      obtain ⟨hv, _, _⟩ := hc.2 p (List.mem_of_getElem? hp)
      obtain ⟨he, _, _⟩ := booking_effect hb hv hc.1.1
      refine ⟨fun e hm => htickets ((airline_step ha).tickets_subset hm), fun o ho => ?_⟩
      obtain ⟨o₁, ho₁, hsame⟩ := (he.extends hc.1.1).orders o ho
      obtain ⟨o₂, ho₂, hsame'⟩ := horders o₁ ho₁
      exact ⟨o₂, ho₂, hsame.trans hsame'⟩

/-- The tickets that the airline has under the key of an order. -/
def MockAirline.ticketsOf (a : MockAirline) (o : Order) : List ProviderTicket :=
  (a.tickets.filter fun e => o.issueIdempotencyKey = some e.1).map (·.2)

theorem MockAirline.ticketsOf_eq {a : MockAirline} {o : Order} {k : String} {t : ProviderTicket}
    (hnd : (a.tickets.map (·.1)).Nodup) (hm : (k, t) ∈ a.tickets)
    (hk : o.issueIdempotencyKey = some k) : a.ticketsOf o = [t] := by
  have hperm : (a.tickets.filter fun e => o.issueIdempotencyKey = some e.1).Perm [(k, t)] := by
    rw [List.perm_ext_iff_of_nodup (hnd.of_map.filter _) (List.nodup_singleton _)]
    rintro ⟨k', t'⟩
    rw [List.mem_filter, List.mem_singleton, hk]
    constructor
    · rintro ⟨hm', hk'⟩
      have hkey : k = k' := by simpa using hk'
      exact List.inj_on_of_nodup_map hnd hm' hm hkey.symm
    · rintro he
      cases he
      exact ⟨hm, by simp⟩
  rw [MockAirline.ticketsOf, List.perm_singleton.mp hperm]
  rfl

theorem MockAirline.length_ticketsOf_le {a : MockAirline} (o : Order)
    (hnd : (a.tickets.map (·.1)).Nodup) : (a.ticketsOf o).length ≤ 1 := by
  cases hl : a.ticketsOf o with
  | nil => simp
  | cons t l =>
    have ht : t ∈ a.ticketsOf o := hl ▸ List.mem_cons_self
    obtain ⟨⟨k, t'⟩, hm, rfl⟩ := List.mem_map.mp ht
    obtain ⟨hm, hk⟩ := List.mem_filter.mp hm
    rw [← hl, MockAirline.ticketsOf_eq hnd hm (by simpa using hk)]
    simp

/-- However calls are retried, lost or refused, the airline has at most one ticket for an order
and none for anything else; an issued order shows it, and no later run changes it. -/
theorem tickets_agree (hb : Blank w.db)
    (h : (airline sha256).machine.RunWhere (fun c a => airlineKeyed c a = true)
      (Program.start ⟨w, MockAirline.idle⟩) as c)
    (h' : (airline sha256).machine.RunWhere (fun c a => airlineKeyed c a = true) c bs c') :
    (∀ o ∈ c.store.world.db.orders, (c.store.airline.ticketsOf o).length ≤ 1) ∧
    (∀ k t, (k, t) ∈ c.store.airline.tickets → ∃ o ∈ c.store.world.db.orders,
      c.store.airline.ticketsOf o = [t] ∧
      t.ticketNumber = MockAirline.ticketNumberOf sha256 o.providerBookingId k) ∧
    (∀ o ∈ c.store.world.db.orders, o.status = .issued → ∃ t,
      c.store.airline.ticketsOf o = [t] ∧ o.ticketNumber = some t.ticketNumber ∧
        o.issuedAt = some t.issuedAt) ∧
    ∀ o ∈ c.store.world.db.orders, ∀ t, c.store.airline.ticketsOf o = [t] →
      ∃ o' ∈ c'.store.world.db.orders, SameBooking o o' ∧ c'.store.airline.ticketsOf o' = [t] := by
  have hc : Aligned sha256 c := aligned_of_run h (aligned_start hb)
  have hc' : Aligned sha256 c' := aligned_of_run h' hc
  obtain ⟨_, hk⟩ := hc.1
  obtain ⟨_, hk'⟩ := hc'.1
  obtain ⟨htickets, horders⟩ := later_of_run h' hc
  refine ⟨fun o _ => MockAirline.length_ticketsOf_le o hk.onePerKey, ?_, ?_, ?_⟩
  · intro k t hm
    obtain ⟨_, o, ho, hkey, ht⟩ := hk.forOrder k t hm
    exact ⟨o, ho, MockAirline.ticketsOf_eq hk.onePerKey hm hkey, ht⟩
  · intro o ho hi
    obtain ⟨k, t, hkey, hm, ht⟩ := hk.issued o ho hi
    exact ⟨t, MockAirline.ticketsOf_eq hk.onePerKey hm hkey, ht⟩
  · intro o ho t ht
    have hmem : t ∈ c.store.airline.ticketsOf o := ht ▸ List.mem_singleton_self t
    obtain ⟨⟨k, t'⟩, hm, rfl⟩ := List.mem_map.mp hmem
    obtain ⟨hm, hkey⟩ := List.mem_filter.mp hm
    have hkey : o.issueIdempotencyKey = some k := by simpa using hkey
    obtain ⟨hne, _⟩ := hk.forOrder k t' hm
    obtain ⟨o', ho', hsame⟩ := horders o ho
    exact ⟨o', ho', hsame,
      MockAirline.ticketsOf_eq hk'.onePerKey (htickets hm) (hsame.key k hne hkey)⟩

end Runs

/-! ## A ticket whose answer was lost -/

namespace Example

/-- An order is booked, its first issue loses the ticket and gives the money back. -/
def lostTicket : List (Action Request AirlineChoice) :=
  [.spawn (createRequest "0f"), .advance 0 (.service (.inl .replay)),
    .advance 0 (.service (.inl (.checkOffer 100))), .advance 0 (.service (.inl .call)),
    .advance 0 (.answer 100), .advance 0 (.service (.inl (.persist "order" 5))),
    .spawn (issueRequest "1e"), .advance 1 (.service (.inr (.hold "transaction"))),
    .advance 1 (.service (.inr .call)), .advance 1 (.lost 200 ⟨"", "TimeoutError", true⟩),
    .advance 1 (.service (.inr .release))]

/-- A second issue under the same key. -/
def secondIssue : List (Action Request AirlineChoice) :=
  [.spawn (issueRequest "1e"), .advance 2 (.service (.inr (.hold "unused"))),
    .advance 2 (.service (.inr .call)), .advance 2 (.answer 900),
    .advance 2 (.service (.inr (.capture 5)))]

end Example

/-- The second issue of an order gets the ticket of the first one. -/
theorem tickets_agree_lostTicket : ∃ c c' : Flying,
    c.store.world.db.orders.rows.map (·.status) = [.booked] ∧
    c.store.airline.tickets.map (·.2.issuedAt) = [200] ∧
    c'.store.world.db.orders.rows.map (·.issuedAt) = [some 200] ∧
    ∀ o ∈ c.store.world.db.orders, ∀ t, c.store.airline.ticketsOf o = [t] →
      ∃ o' ∈ c'.store.world.db.orders, SameBooking o o' ∧
        c'.store.airline.ticketsOf o' = [t] := by
  have hrun : ((airline id).machine.execWhere (fun c a => airlineKeyed c a = true)
      (Program.start ⟨Example.offered, MockAirline.idle⟩) Example.lostTicket).bind (fun c =>
        ((airline id).machine.execWhere (fun c a => airlineKeyed c a = true) c
          Example.secondIssue).map fun c' =>
        (c.store.world.db.orders.rows.map (·.status),
          c.store.airline.tickets.map (·.2.issuedAt),
          c'.store.world.db.orders.rows.map (·.issuedAt))) =
      some ([.booked], [200], [some 200]) := by
    decide +kernel
  obtain ⟨c, hc, hrest⟩ := Option.bind_eq_some_iff.mp hrun
  obtain ⟨c', hc', he⟩ := Option.map_eq_some_iff.mp hrest
  simp only [Prod.mk.injEq] at he
  exact ⟨c, c', he.1, he.2.1, he.2.2, (tickets_agree ⟨rfl, rfl, rfl⟩
    (Machine.runWhere_of_execWhere hc) (Machine.runWhere_of_execWhere hc')).2.2.2⟩

end Ioka
