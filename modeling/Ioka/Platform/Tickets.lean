import Ioka.Platform.Currency
import Ioka.Platform.Sessions

/-! # Printed tickets

The table of a ticket is made exactly for an order whose payment is captured, with the sum of that
payment. It is the same ever after, and no other ticket shows its numbers. A provider has to
number its tickets; one without a number could not be printed. That the table fits the page and
the reference the header of the answer is not modelled.
-/

namespace Ioka

open Relational Transition

/-- The provider numbers the tickets that it returns. -/
def numbersTickets : Action Job JobChoice → Bool
  | .advance _ (.inr (.inr (.inr (.answer ticket)))) => ticket.ticketNumber ≠ ""
  | _ => true

/-- No order has a ticket without a number. -/
def Numbered (db : Database) : Prop := ∀ o ∈ db.orders, o.ticketNumber ≠ some ""

/-- A ticket that a call holds has a number. -/
def Job.HoldsTicket : Job → Prop
  | .inr (.inr (.inr r)) => ∀ ticket, r.phase = .ticketed ticket → ticket.ticketNumber ≠ ""
  | _ => True

section Steps

variable {sha256 : String → String} {w w' : World} {p : Request} {db : Database} {d : Deployment}
  {s s' : Platform} {j j' : Job} {x : JobChoice} {c : Serving} {i : ℕ}

theorem Effect.numbered (h : Effect sha256 w p w') (hn : Numbered w.db)
    (hj : Job.HoldsTicket (.inr (.inr p))) : Numbered w'.db := by
  cases h with
  | quiet => exact hn
  | @moved r db' phase a o o' t? t' es hph _ _ hm =>
    intro q hq
    rcases hm.mem_orders.mp hq with rfl | ⟨hq, _⟩
    · have hold := hn o hm.order_mem
      cases hm.move with
      | debit => exact hold
      | debitAgain => exact hold
      | join => exact hold
      | capture =>
        obtain ⟨given, hp, hk⟩ := hph
        have hne := ProviderTicket.kept_numbered hk (hj given hp)
        simpa [Order.ticketed] using hne
      | release => exact hold
    · exact hn q hq
  | created _ _ hcr =>
    intro q hq
    rcases hcr.mem_orders.mp hq with hq | rfl
    · exact hn q hq
    · simp [newOrder]

theorem JobStep.holdsTicket (h : JobStep d s j x s' j') {i : ℕ}
    (hg : numbersTickets (.advance i x) = true) : j'.HoldsTicket := by
  cases h with
  | start => trivial
  | process => trivial
  | book ha =>
    rcases Program.sum_advance ha with ⟨_, _, _, rfl, rfl, rfl, _⟩ | ⟨r, r', y, rfl, rfl, rfl, hr⟩
    · trivial
    · intro ticket ht
      obtain ⟨rfl, _⟩ := IssueOrder.answer_of_ticketed hr ht
      simpa [numbersTickets] using hg

theorem JobStep.numbered (h : JobStep d s j x s' j') (hc : Coupled s.world.db)
    (hv : Job.Valid s.world.db j) (hn : Numbered s.world.db) (hj : j.HoldsTicket) :
    Numbered s'.world.db := by
  cases h with
  | start ha =>
    rcases (StartSearch.advance_step ha).db with he | ⟨db', _, _, _, he, hst⟩
    · rw [he]
      exact hn
    · rw [he]
      intro o ho
      rw [World.commit_db, hst.orders] at ho
      exact hn o ho
  | process ha =>
    rcases (ProcessSearch.advance_step ha).db with he | ⟨q, q', offers, _, _, hw⟩
    · rw [Platform.withWorld_world, he]
      exact hn
    · intro o ho
      rw [Platform.withWorld_world, hw.orders] at ho
      exact hn o ho
  | book ha => exact (booking_effect ha hv hc).1.numbered hn hj

end Steps

section Prints

variable {isoformat : Time → String} {db : Database} {agentId orderId : String} {o : Order}
  {rows : Option (List (String × String))}

theorem getTicket_eq_ok : getTicket isoformat db agentId orderId = .ok rows ↔
    ∃ o ∈ db.orders, o.id = orderId ∧ o.agentId = agentId ∧ o.status = .issued ∧
      o.ticketNumber.getD "" ≠ "" ∧
      rows = (db.offers.select fun f => f.id = o.offerId).map (ticketRows isoformat o) := by
  unfold getTicket getOrder
  constructor
  · intro h
    obtain ⟨o, ho, h⟩ := bind_eq_ok.mp h
    split at ho
    · cases ho
    · rename_i order hfound
      obtain rfl := Except.ok.inj ho
      obtain ⟨hmem, hid, hown⟩ := agentOrder_eq_some.mp hfound
      split at h
      · cases h
      · rename_i hprint
        push Not at hprint
        exact ⟨order, hmem, hid, hown, hprint.1, hprint.2, (Except.ok.inj h).symm⟩
  · rintro ⟨o, hmem, hid, hown, hi, hnumber, rfl⟩
    rw [agentOrder_eq_some.mpr ⟨hmem, hid, hown⟩]
    simp [hi, hnumber, bind, Except.bind]

/-- An order is issued, and then has a ticket, exactly if its payment is captured. -/
theorem Coupled.issued_iff (hc : Coupled db) (ho : o ∈ db.orders) : o.status = .issued ↔
    ∃ t ∈ db.transactions, t.orderId = o.id ∧ t.status = .captured := by
  constructor
  · intro hi
    obtain ⟨t, ht, hst⟩ := hc.exists_captured ho hi
    obtain ⟨hmem, hto⟩ := mem_of_transactionOf ht
    exact ⟨t, hmem, hto, hst⟩
  · rintro ⟨t, hmem, hto, hst⟩
    have hpair := (hc.standing o ho).status
    rw [hc.onePayment.transactionOf_eq_some.mpr ⟨hmem, hto⟩, Option.map_some, hst] at hpair
    cases hs : o.status with
    | issued => rfl
    | booked | issuing | cancelled =>
      rw [hs] at hpair
      exact hpair.elim

theorem Owners.select_offer (h : Owners db) (ho : o ∈ db.orders) :
    ∃ offer ∈ db.offers, offer.id = o.offerId ∧
      (db.offers.select fun f => f.id = o.offerId) = some offer := by
  obtain ⟨offer, hof, hid, _⟩ := h.orders o ho
  refine ⟨offer, hof, hid, ?_⟩
  rw [Table.select_eq_some]
  · exact ⟨hof, by simpa using hid⟩
  · intro f hf f' hf' h₁ h₂
    simp only [decide_eq_true_eq] at h₁ h₂
    exact Table.eq_of_col (c := fun f => some [f.id]) (by simp [Offer.uniques]) hf hf' rfl
      (by simp [h₁, h₂])

theorem lookup_ticketNumber (offer : Offer) :
    (ticketRows isoformat o offer).lookup "Ticket number" = some (o.ticketNumber.getD "") :=
  rfl

theorem lookup_bookingReference (offer : Offer) :
    (ticketRows isoformat o offer).lookup "Booking reference" = some o.bookingReference :=
  rfl

/-- What a ticket shows. -/
structure Prints (isoformat : Time → String) (db : Database) (agentId orderId : String)
    (table : List (String × String)) : Prop where
  paid : ∃ o ∈ db.orders, ∃ offer ∈ db.offers, ∃ t ∈ db.transactions, o.id = orderId ∧
    o.agentId = agentId ∧ offer.id = o.offerId ∧ t.orderId = orderId ∧ t.agentId = agentId ∧
    t.status = .captured ∧ table = ticketRows isoformat o offer ∧
    table.lookup "Total" = some (t.amount.str ++ " " ++ t.currency)

theorem getTicket_iff (hc : Coupled db) (ho : Owners db) (hn : Numbered db) :
    getTicket isoformat db agentId orderId = .ok rows ↔
      ∃ table, rows = some table ∧ Prints isoformat db agentId orderId table := by
  rw [getTicket_eq_ok]
  constructor
  · rintro ⟨o, hmem, hid, hown, hi, _, hrows⟩
    obtain ⟨offer, hof, hoid, hselect⟩ := ho.select_offer hmem
    obtain ⟨t, ht, hto, hst⟩ := (hc.issued_iff hmem).mp hi
    obtain ⟨hamount, hcur, hag, _⟩ := (hc.standing o hmem).payment t
      (hc.onePayment.transactionOf_eq_some.mpr ⟨ht, hto⟩)
    rw [hselect, Option.map_some] at hrows
    refine ⟨_, hrows, ⟨o, hmem, offer, hof, t, ht, hid, hown, hoid, hto.trans hid,
      hag.trans hown, hst, rfl, ?_⟩⟩
    rw [hamount, hcur]
    rfl
  · rintro ⟨table, rfl, o, hmem, offer, hof, t, ht, hid, hown, hoid, hto, _, hst, rfl, _⟩
    have hi := (hc.issued_iff hmem).mpr ⟨t, ht, hto.trans hid.symm, hst⟩
    obtain ⟨offer', hof', hoid', hselect⟩ := ho.select_offer hmem
    obtain rfl := Table.eq_of_col (c := fun f => some [f.id]) (by simp [Offer.uniques]) hof hof' rfl
      (by simp [hoid, hoid'])
    refine ⟨o, hmem, hid, hown, hi, ?_, ?_⟩
    · obtain ⟨n, hnumber⟩ := Option.isSome_iff_exists.mp ((hc.standing o hmem).ticket.mpr hi)
      have hne := hn o hmem
      rw [hnumber] at hne ⊢
      simpa using hne
    · rw [hselect, Option.map_some]

end Prints

section Runs

variable {d : Deployment} {w : World} {c c' : Serving} {as bs : List (Action Job JobChoice)}
  {isoformat : Time → String} {agentId orderId : String} {o p : Order} {offer : Offer}
  {rows : Option (List (String × String))} {db : Database}

theorem Job.ticket_of_fresh {j : Job} (h : (serving d).fresh j = true) : j.HoldsTicket := by
  rcases j with r | r | r | r
  · trivial
  · trivial
  · trivial
  · intro ticket ht
    rw [serving_fresh_book, booking_fresh_issue] at h
    rw [h] at ht
    cases ht

theorem numbered_of_run (ha : OnlyAgents w.db)
    (h : (serving d).machine.RunWhere (fun _ a => numbersTickets a = true)
      (Program.start (Platform.start w)) as c) : Numbered c.store.world.db := by
  refine (jobs_of_run (I := fun s => Numbered s.world.db) (J := fun _ j => j.HoldsTicket) ?_ ?_ h
    (steady_start ha.unpaid.coupled) ?_ (by simp [Program.start])).1
  · intro c j _ hf
    exact Job.ticket_of_fresh hf
  · intro c i x s j s' j' hg _ _ hc hv hI hJ hstep
    exact ⟨hstep.numbered hc hv hI hJ, hstep.holdsTicket hg, fun _ _ hq => hq⟩
  · intro o ho
    simp [Program.start, Platform.start, Table.mem_def, ha.orders] at ho

theorem distinct_tickets (ho : o ∈ db.orders) (hp : p ∈ db.orders) (hne : o.id ≠ p.id) :
    (o.ticketNumber.getD "" ≠ "" → o.ticketNumber.getD "" ≠ p.ticketNumber.getD "") ∧
      o.bookingReference ≠ p.bookingReference := by
  have hop : o ≠ p := fun he => hne (congrArg Order.id he)
  obtain ⟨_, href, _, hticket⟩ := Order.distinct_iff.mp
    (db.orders.unique.forall ho hp hop)
  refine ⟨fun hnumber hsame => ?_, href⟩
  cases hn : o.ticketNumber with
  | none => simp [hn] at hnumber
  | some n =>
    rcases hticket with hnone | hdiff
    · rw [hn] at hnone
      cases hnone
    · cases hm : p.ticketNumber with
      | none =>
        rw [hn] at hnumber
        rw [hn, hm] at hsame
        exact hnumber hsame
      | some m =>
        apply hdiff
        rw [hn, hm]
        simpa [hn, hm] using hsame

/-- In every reachable state the table of a ticket is made exactly for a paid order of the agent,
with the sum of the payment; it is the same in every later state; and tickets of different orders
differ in their numbers and booking references. -/
theorem ticket_printed (isoformat : Time → String) (ha : OnlyAgents w.db)
    (h : (serving d).machine.RunWhere (fun _ a => numbersTickets a = true)
      (Program.start (Platform.start w)) as c) :
    (∀ agentId orderId rows, getTicket isoformat c.store.world.db agentId orderId = .ok rows ↔
      ∃ table, rows = some table ∧ Prints isoformat c.store.world.db agentId orderId table) ∧
    (∀ agentId orderId rows, getTicket isoformat c.store.world.db agentId orderId = .ok rows →
      ∀ bs c', (serving d).machine.Run c bs c' →
        getTicket isoformat c'.store.world.db agentId orderId = .ok rows) ∧
    ∀ agentId agentId' orderId orderId' table table',
      getTicket isoformat c.store.world.db agentId orderId = .ok (some table) →
      getTicket isoformat c.store.world.db agentId' orderId' = .ok (some table') →
      orderId ≠ orderId' → table.lookup "Ticket number" ≠ table'.lookup "Ticket number" ∧
        table.lookup "Booking reference" ≠ table'.lookup "Booking reference" := by
  have hsteady := steady_of_run h (steady_start (s := Platform.start w) ha.unpaid.coupled)
  obtain ⟨howners, _⟩ := traced_of_run ha h.run
  refine ⟨?_, ?_, ?_⟩
  · intro agentId orderId rows
    exact getTicket_iff hsteady.1 howners (numbered_of_run ha h)
  · intro agentId orderId rows hok bs c' hrun
    obtain ⟨o, hmem, hid, hown, hi, hnumber, hrows⟩ := getTicket_eq_ok.mp hok
    obtain ⟨offer, hof, hoid, hselect⟩ := howners.select_offer hmem
    have hlasting := lasting_of_run hrun hsteady
    have hmem' := hlasting.issued o hmem hi
    have hof' := hlasting.offers offer hof
    have hselect' : (c'.store.world.db.offers.select fun f => f.id = o.offerId) = some offer := by
      obtain ⟨howners', _⟩ := traced_of_run ha (h.run.append hrun)
      obtain ⟨offer', hof₂, hoid₂, hselect₂⟩ := howners'.select_offer hmem'
      obtain rfl := Table.eq_of_col (c := fun f => some [f.id]) (by simp [Offer.uniques]) hof' hof₂
        rfl (by simp [hoid, hoid₂])
      exact hselect₂
    rw [getTicket_eq_ok]
    exact ⟨o, hmem', hid, hown, hi, hnumber, by rw [hrows, hselect, hselect']⟩
  · intro agentId agentId' orderId orderId' table table' hok hok' hne
    obtain ⟨o, hmem, hid, _, _, hnumber, hrows⟩ := getTicket_eq_ok.mp hok
    obtain ⟨p, hmem', hid', _, _, _, hrows'⟩ := getTicket_eq_ok.mp hok'
    obtain ⟨_, _, rfl⟩ := Option.map_eq_some_iff.mp hrows.symm
    obtain ⟨_, _, rfl⟩ := Option.map_eq_some_iff.mp hrows'.symm
    obtain ⟨hticket, href⟩ := distinct_tickets hmem hmem' (by rwa [hid, hid'])
    constructor
    · rw [lookup_ticketNumber, lookup_ticketNumber]
      intro hsame
      exact hticket hnumber (Option.some.inj hsame)
    · rw [lookup_bookingReference, lookup_bookingReference]
      intro hsame
      exact href (Option.some.inj hsame)

end Runs

/-- The issued order of a run has its ticket. -/
theorem ticket_printed_full : ∃ c : Serving, ∃ table,
    getTicket (fun _ => "") c.store.world.db "agent" "order" = .ok (some table) ∧
    Prints (fun _ => "") c.store.world.db "agent" "order" table := by
  have hrun : ((serving Example.deployment).machine.execWhere (fun _ a => numbersTickets a)
      (Program.start (Platform.start Example.bare)) Example.fullSteps).map
        (fun c => (getTicket (fun _ => "") c.store.world.db "agent" "order").toOption.isSome) =
      some true := by
    decide +kernel
  obtain ⟨c, hc, hok⟩ := Option.map_eq_some_iff.mp hrun
  obtain ⟨hiff, _⟩ := ticket_printed (fun _ => "") ⟨rfl, rfl, rfl, rfl, rfl, rfl⟩
    (Machine.runWhere_of_execWhere hc)
  cases ht : getTicket (fun _ => "") c.store.world.db "agent" "order" with
  | error e =>
    rw [ht] at hok
    cases hok
  | ok rows =>
    obtain ⟨table, rfl, hprints⟩ := (hiff _ _ rows).mp ht
    exact ⟨c, table, ht, hprints⟩

end Ioka
