import Ioka.Transition.Unwinding
import Ioka.Booking.Success
import Ioka.Booking.Reachable

/-! # Issue keys of different agents

A run of `issue_order` requests against a provider whose answer depends on the
booking and the key, compared with the run in which only one agent's requests
were made. The agents share two unique columns, so the hold of a request can
fail on a key that another agent has used; nothing else passes from one agent
to another.
-/

namespace Ioka

open Relational Transition

inductive ProvidedChoice
  | hold (transactionId : String)
  | call
  | answer
  | release
  | capture (durationMs : ℤ)

namespace IssueOrder

/-- The choice of a step; the provider answers the call that is under way. -/
def choice? (provider : String → String → Except Raised ProviderTicket) (r : IssueOrder) :
    ProvidedChoice → Option IssueChoice
  | .hold transactionId => some (.hold transactionId)
  | .call => some .call
  | .answer =>
    match r.phase with
    | .issuing providerBookingId =>
      match provider providerBookingId r.idempotencyKey with
      | .ok ticket => some (.answer ticket)
      | .error e => some (.raise e)
    | _ => none
  | .release => some .release
  | .capture durationMs => some (.capture durationMs)

/-- Any requests, with the answers of the provider. -/
def providing (provider : String → String → Except Raised ProviderTicket) :
    Program World IssueOrder ProvidedChoice where
  fresh r := r.phase matches .requested
  advance w r x := (r.choice? provider x).bind (r.advance w)

theorem providing_fresh : (providing provider).fresh r = true ↔ r.phase = .requested :=
  fresh_iff

/-- What the request has returned or raised. -/
def outcome? (r : IssueOrder) : Option (Except Failure Issued) :=
  match r.phase with
  | .done result => some result
  | _ => none

end IssueOrder

/-- New transactions get new ids. -/
def newIds (c : Config World IssueOrder) : Action IssueOrder ProvidedChoice → Bool
  | .advance _ (.hold transactionId) =>
    c.store.db.transactions.rows.all fun t => t.id ≠ transactionId
  | _ => true

/-- The ticket of a booking and a key, as its column keeps it. -/
def keptTicket (provider : String → String → Except Raised ProviderTicket)
    (providerBookingId key : String) : Option ProviderTicket :=
  (provider providerBookingId key).toOption.bind ProviderTicket.kept

/-- Different orders get tickets with different numbers. -/
def DistinctTickets (provider : String → String → Except Raised ProviderTicket)
    (db : Database) : Prop :=
  ∀ o ∈ db.orders, ∀ p ∈ db.orders, o.id ≠ p.id → ∀ k l t u,
    keptTicket provider o.providerBookingId k = some t →
    keptTicket provider p.providerBookingId l = some u → t.ticketNumber ≠ u.ticketNumber

/-- Without the requests of the other agents those of the agent have the same outcomes. -/
def Undisturbed (provider : String → String → Except Raised ProviderTicket) (agentId : String)
    (w : World) (as : List (Action IssueOrder ProvidedChoice)) (c : Config World IssueOrder) :
    Prop :=
  ∃ d, (IssueOrder.providing provider).machine.Run (Program.start w)
      (Program.project (fun r => r.agentId = agentId) [] as) d ∧
    d.procs.map (·.outcome?) =
      (c.procs.filter fun r => r.agentId = agentId).map (·.outcome?)

/-- A hold comes to its writes, and a row of another agent has its key, but none of the agent's
own rows has. -/
def crossed (db : Database) (agentId orderId key : String) : Bool :=
  match agentOrder db agentId orderId, db.agent? agentId with
  | some order, some agent =>
    let transaction := db.transactionOf order.id
    holdWrites order agent transaction key ∧
      keyFree db.orders.rows db.transactions.rows order transaction key = false ∧
      keyFree (db.orders.rows.filter fun o => o.agentId = agentId)
        (db.transactions.rows.filter fun t => t.agentId = agentId) order transaction key
  | _, _ => false

/-- No hold of the agent is crossed. -/
def uncrossed (agentId : String) (c : Config World IssueOrder) :
    Action IssueOrder ProvidedChoice → Bool
  | .advance i (.hold _) => c.procs[i]?.all fun r =>
      r.agentId ≠ agentId ∨ crossed c.store.db agentId r.orderId r.idempotencyKey = false
  | _ => true

/-! ## The rows of one agent -/

/-- The database of a run without the other agents has the same rows of the agent, and has left
the orders of the others as they were. -/
structure OwnView (agentId : String) (db own : Database) : Prop where
  coupled : Coupled db
  ownCoupled : Coupled own
  agents : ∀ a : Agent, a.id = agentId → (a ∈ own.agents ↔ a ∈ db.agents)
  orders : ∀ o : Order, o.agentId = agentId → (o ∈ own.orders ↔ o ∈ db.orders)
  transactions : ∀ t : BalanceTransaction, t.agentId = agentId →
    (t ∈ own.transactions ↔ t ∈ db.transactions)
  others : ∀ o ∈ own.orders, o.agentId ≠ agentId → o.New
  payments : ∀ t ∈ own.transactions, t.agentId = agentId

theorem Unpaid.ownView {db : Database} (h : Unpaid db) (agentId : String) :
    OwnView agentId db db where
  coupled := h.coupled
  ownCoupled := h.coupled
  agents _ _ := Iff.rfl
  orders _ _ := Iff.rfl
  transactions _ _ := Iff.rfl
  others o ho _ := h.orders o ho
  payments t ht := by simp [Table.mem_def, h.transactions] at ht

theorem Move.hold_unique {key : String} {a : Agent} {o o' : Order}
    {t? : Option BalanceTransaction} {t t' : BalanceTransaction} {es es' : List Event}
    (h : Move (.hold key) a o t? o' t es) (h' : Move (.hold key) a o t? o' t' es')
    (hid : t? = none → t.id = t'.id) : t = t' ∧ es = es' := by
  cases h with
  | debit =>
    cases h' with
    | debit =>
      obtain rfl := hid rfl
      exact ⟨rfl, rfl⟩
  | debitAgain _ _ _ hr =>
    cases h' with
    | debitAgain => exact ⟨rfl, rfl⟩
    | join _ _ hn => exact absurd hr hn
  | join _ _ hn =>
    cases h' with
    | debitAgain _ _ _ hr => exact absurd hr hn
    | join => exact ⟨rfl, rfl⟩

namespace OwnView

variable {agentId orderId key transactionId : String} {db own db' own' : Database}
  {phase : Phase} {a : Agent} {o o' : Order} {t? : Option BalanceTransaction}
  {t t' : BalanceTransaction} {es : List Event}

theorem agent?_eq (h : OwnView agentId db own) : own.agent? agentId = db.agent? agentId := by
  apply Option.ext
  intro a
  rw [Database.agent?_eq_some, Database.agent?_eq_some]
  exact and_congr_left (h.agents a)

theorem agentOrder_eq (h : OwnView agentId db own) :
    agentOrder own agentId orderId = agentOrder db agentId orderId := by
  apply Option.ext
  intro o
  rw [agentOrder_eq_some, agentOrder_eq_some]
  exact and_congr_left fun ho => h.orders o ho.2

theorem rows (h : OwnView agentId db own) (hat : At db a o t?) (hown : o.agentId = a.id)
    (ha : a.id = agentId) : At own a o t? := by
  have ho : o.agentId = agentId := hown.trans ha
  refine ⟨(h.agents a ha).mpr hat.agent, (h.orders o ho).mpr hat.order, ?_⟩
  cases t? with
  | some t =>
    obtain ⟨ht, hto, hta⟩ := h.coupled.payment_own hat.order hat.payment
    apply h.ownCoupled.onePayment.transactionOf_eq_some.mpr
    exact ⟨(h.transactions t (hta.trans ho)).mpr ht, hto⟩
  | none =>
    apply transactionOf_eq_none.mpr
    intro t ht
    exact transactionOf_eq_none.mp hat.payment t ((h.transactions t (h.payments t ht)).mp ht)

theorem keyFree_eq (h : OwnView agentId db own) :
    keyFree own.orders.rows own.transactions.rows o t? key =
      keyFree (db.orders.rows.filter fun o => o.agentId = agentId)
        (db.transactions.rows.filter fun t => t.agentId = agentId) o t? key := by
  rw [Bool.eq_iff_iff, keyFree_iff, keyFree_iff]
  simp only [List.mem_filter, decide_eq_true_eq, ← Table.mem_def]
  constructor
  · rintro ⟨hord, htr⟩
    constructor
    · rintro p ⟨hp, hpa⟩
      exact hord p ((h.orders p hpa).mpr hp)
    · rintro hn u ⟨hu, hua⟩
      exact htr hn u ((h.transactions u hua).mpr hu)
  · rintro ⟨hord, htr⟩
    constructor
    · intro p hp hpk
      by_cases hpa : p.agentId = agentId
      · exact hord p ⟨(h.orders p hpa).mp hp, hpa⟩ hpk
      · rw [(h.others p hp hpa).key] at hpk
        cases hpk
    · intro hn u hu
      have hua := h.payments u hu
      exact htr hn u ⟨(h.transactions u hua).mp hu, hua⟩

theorem moved (h : OwnView agentId db own) (ha : a.id = agentId)
    (hm : Moved phase db db' a o o' t? t' es) (hm' : Moved phase own own' a o o' t? t' es) :
    OwnView agentId db' own' := by
  have ho' : o'.agentId = agentId := hm.agentId.trans (hm.owner.trans ha)
  have hc := hm'.coupled h.ownCoupled
  refine ⟨hm.coupled h.coupled, hc, fun b hb => ?_, fun p hp => ?_, fun u hu => ?_,
    fun p hp hne => ?_, fun u hu => ?_⟩
  · rw [hm.mem_agents, hm'.mem_agents, h.agents b hb]
  · rw [hm.mem_orders, hm'.mem_orders, h.orders p hp]
  · rw [hm.mem_transactions h.coupled.onePayment,
      hm'.mem_transactions h.ownCoupled.onePayment, h.transactions u hu]
  · rcases hm'.mem_orders.mp hp with rfl | ⟨hp, _⟩
    · exact absurd ho' hne
    · exact h.others p hp hne
  · rcases (hm'.mem_transactions h.ownCoupled.onePayment).mp hu with rfl | ⟨hu, _⟩
    · have hself := hm'.transactionOf_self h.ownCoupled.onePayment
      rw [← hm'.id] at hself
      exact (hc.payment_own (hm'.mem_orders.mpr (Or.inl rfl)) hself).2.2.trans ho'
    · exact h.payments u hu

theorem other {sha256 : String → String} {w w' : World} {r : IssueOrder}
    (h : OwnView agentId w.db own) (he : Effect sha256 w (.inr r) w') (hne : r.agentId ≠ agentId) :
    OwnView agentId w'.db own := by
  have hc := he.coupled h.coupled
  cases he with
  | quiet =>
    exact ⟨hc, h.ownCoupled, h.agents, h.orders, h.transactions, h.others, h.payments⟩
  | @moved _ db' phase a o o' t? t' es _ _ ha hm =>
    have hane : a.id ≠ agentId := fun he => hne (ha.symm.trans he)
    have hone : o.agentId ≠ agentId := fun he => hane (hm.owner.symm.trans he)
    have hc' : Coupled db' := hc
    refine ⟨hc, h.ownCoupled, fun b hb => ?_, fun p hp => ?_, fun u hu => ?_, h.others,
      h.payments⟩
    · rw [World.commit_db, hm.mem_agents, h.agents b hb]
      constructor
      · intro hbm
        exact Or.inr ⟨hbm, fun he => hane (he.symm.trans hb)⟩
      · rintro (rfl | ⟨hbm, _⟩)
        · exact absurd hb hane
        · exact hbm
    · rw [World.commit_db, hm.mem_orders, h.orders p hp]
      constructor
      · intro hpm
        refine Or.inr ⟨hpm, fun hid => hone ?_⟩
        rw [← Database.order_ext hpm hm.order_mem hid, hp]
      · rintro (rfl | ⟨hpm, _⟩)
        · exact absurd (hm.agentId.symm.trans hp) hone
        · exact hpm
    · rw [World.commit_db, hm.mem_transactions h.coupled.onePayment, h.transactions u hu]
      constructor
      · intro hum
        refine Or.inr ⟨hum, fun hid => hone ?_⟩
        have hpay := h.coupled.onePayment.transactionOf_eq_some.mpr ⟨hum, hid⟩
        exact (h.coupled.payment_own hm.order_mem hpay).2.2.symm.trans hu
      · rintro (rfl | ⟨hum, _⟩)
        · have hself := hm.transactionOf_self h.coupled.onePayment
          rw [← hm.id] at hself
          have hown := (hc'.payment_own (hm.mem_orders.mpr (Or.inl rfl)) hself).2.2
          exact absurd (hm.agentId.symm.trans (hown.symm.trans hu)) hone
        · exact hum

theorem keyFree_own (h : OwnView agentId db own)
    (hfree : keyFree db.orders.rows db.transactions.rows o t? key = true) :
    keyFree own.orders.rows own.transactions.rows o t? key = true := by
  obtain ⟨hord, htr⟩ := keyFree_iff.mp hfree
  rw [h.keyFree_eq]
  apply keyFree_iff.mpr
  constructor
  · intro p hp
    exact hord p (List.mem_of_mem_filter hp)
  · intro hn u hu
    exact htr hn u (List.mem_of_mem_filter hu)

theorem newId_own (h : OwnView agentId db own) (hid : ∀ t ∈ db.transactions, t.id ≠ transactionId) :
    ∀ t ∈ own.transactions, t.id ≠ transactionId := by
  intro t ht
  exact hid t ((h.transactions t (h.payments t ht)).mp ht)

theorem held (h : OwnView a.id db own) (hat : At db a o t?) (hown : o.agentId = a.id)
    (hw : holdWrites o a t? key = true) (hid : ∀ t ∈ db.transactions, t.id ≠ transactionId)
    (hfree : keyFree db.orders.rows db.transactions.rows o t? key = true) :
    ∃ debit debit' db' own',
      issueOrderHold db a.id o.id key transactionId =
        .ok (.held o.providerBookingId debit, db') ∧
      issueOrderHold own a.id o.id key transactionId =
        .ok (.held o.providerBookingId debit', own') ∧ OwnView a.id db' own' := by
  have hat' := h.rows hat hown rfl
  have hs := (holdWrites_iff.mp hw).1
  obtain ⟨debit, db', hok⟩ := hat.exists_hold hown hw hid hfree
  obtain ⟨debit', own', hok'⟩ := hat'.exists_hold hown hw (h.newId_own hid) (h.keyFree_own hfree)
  obtain ⟨t, _, _, hm⟩ := hat.hold_moved hs hok
  obtain ⟨t', _, _, hm'⟩ := hat'.hold_moved hs hok'
  have hsame : t? = none → t.id = t'.id := by
    rintro rfl
    rw [hat.hold_id hs hok hm h.coupled.onePayment,
      hat'.hold_id hs hok' hm' h.ownCoupled.onePayment]
  obtain ⟨rfl, hes⟩ := hm.move.hold_unique hm'.move hsame
  exact ⟨debit, debit', db', own', hok, hok', h.moved rfl hm (hes ▸ hm')⟩

theorem hold (h : OwnView agentId db own)
    (hid : ∀ t ∈ db.transactions, t.id ≠ transactionId)
    (hc : crossed db agentId orderId key = false) :
    (∃ e, issueOrderHold db agentId orderId key transactionId = .error e ∧
      issueOrderHold own agentId orderId key transactionId = .error e) ∨
    (∃ o a, issueOrderHold db agentId orderId key transactionId = .ok (.issued o a, db) ∧
      issueOrderHold own agentId orderId key transactionId = .ok (.issued o a, own)) ∨
    ∃ b debit debit' db' own',
      issueOrderHold db agentId orderId key transactionId = .ok (.held b debit, db') ∧
      issueOrderHold own agentId orderId key transactionId = .ok (.held b debit', own') ∧
      OwnView agentId db' own' := by
  cases ho : agentOrder db agentId orderId with
  | none =>
    left
    simp [issueOrderHold, ho, h.agentOrder_eq]
  | some o =>
    cases ha : db.agent? agentId with
    | none =>
      left
      simp [issueOrderHold, ho, ha, h.agentOrder_eq, h.agent?_eq]
    | some a =>
      simp only [crossed, ho, ha] at hc
      obtain ⟨hmo, rfl, hown⟩ := agentOrder_eq_some.mp ho
      obtain ⟨hma, rfl⟩ := Database.agent?_eq_some.mp ha
      have hat : At db a o (db.transactionOf o.id) := ⟨hma, hmo, rfl⟩
      have hat' := h.rows hat hown rfl
      cases hw : holdWrites o a (db.transactionOf o.id) key with
      | false =>
        rcases holdWrites_eq_false hown hw with ⟨e, he⟩ | hi
        · exact Or.inl ⟨e, he db transactionId hat, he own transactionId hat'⟩
        · exact Or.inr (Or.inl ⟨o, a, hi db transactionId hat, hi own transactionId hat'⟩)
      | true =>
        rw [hw, ← h.keyFree_eq] at hc
        cases hfree : keyFree db.orders.rows db.transactions.rows o (db.transactionOf o.id) key with
        | false =>
          have hfree' : keyFree own.orders.rows own.transactions.rows o
              (db.transactionOf o.id) key = false := by
            simpa [hfree] using hc
          exact Or.inl ⟨_, hat.hold_refused hown hw hfree, hat'.hold_refused hown hw hfree'⟩
        | true =>
          obtain ⟨debit, debit', db', own', hok, hok', hview⟩ := h.held hat hown hw hid hfree
          exact Or.inr (Or.inr ⟨_, debit, debit', db', own', hok, hok', hview⟩)

theorem hold_crossed (h : OwnView agentId db own)
    (hid : ∀ t ∈ db.transactions, t.id ≠ transactionId)
    (hc : crossed db agentId orderId key = true) :
    issueOrderHold db agentId orderId key transactionId = .error .integrityError ∧
      ∃ b debit own', issueOrderHold own agentId orderId key transactionId =
        .ok (.held b debit, own') := by
  unfold crossed at hc
  split at hc
  · rename_i o a ho ha
    simp only [Bool.decide_and, Bool.and_eq_true, decide_eq_true_eq] at hc
    obtain ⟨hw, hfree, hfree'⟩ := hc
    obtain ⟨hmo, rfl, hown⟩ := agentOrder_eq_some.mp ho
    obtain ⟨hma, rfl⟩ := Database.agent?_eq_some.mp ha
    have hat : At db a o (db.transactionOf o.id) := ⟨hma, hmo, rfl⟩
    rw [← h.keyFree_eq] at hfree'
    obtain ⟨debit, own', hok⟩ :=
      (h.rows hat hown rfl).exists_hold hown hw (h.newId_own hid) hfree'
    exact ⟨hat.hold_refused hown hw hfree, _, debit, own', hok⟩
  · cases hc

theorem release (h : OwnView a.id db own) (hat : At db a o (some t)) (hown : o.agentId = a.id)
    (error : String) :
    (releaseHold db a.id o.id error = .error .dbapiError ∧
      releaseHold own a.id o.id error = .error .dbapiError) ∨
    ∃ refund db' own', releaseHold db a.id o.id error = .ok (db', refund) ∧
      releaseHold own a.id o.id error = .ok (own', refund) ∧ OwnView a.id db' own' := by
  have hat' := h.rows hat hown rfl
  by_cases hs : t.status = .held
  · by_cases he : Storable error
    · obtain ⟨db', hok⟩ := hat.exists_release hs he
      obtain ⟨own', hok'⟩ := hat'.exists_release hs he
      have hm := hat.release_moved hown hok
      have hm' := hat'.release_moved hown hok'
      exact Or.inr ⟨_, db', own', hok, hok', h.moved rfl hm hm'⟩
    · exact Or.inl ⟨hat.release_untaken hs he, hat'.release_untaken hs he⟩
  · refine Or.inr ⟨none, db, own, ?_, ?_, h⟩
    · rw [hat.releaseHold_eq, releaseRows, if_neg hs]
    · rw [hat'.releaseHold_eq, releaseRows, if_neg hs]

theorem capture {ticket : ProviderTicket} (h : OwnView a.id db own) (hat : At db a o (some t))
    (hown : o.agentId = a.id)
    (htk : ∀ kept, ticket.kept = some kept →
      ∀ p ∈ db.orders, p.ticketNumber = some kept.ticketNumber → p.id = o.id)
    (key : String) (durationMs : ℤ) :
    (issueOrderCapture db a.id o.id key ticket durationMs = .error .dbapiError ∧
      issueOrderCapture own a.id o.id key ticket durationMs = .error .dbapiError) ∨
    ∃ result db' own',
      issueOrderCapture db a.id o.id key ticket durationMs = .ok (result, db') ∧
      issueOrderCapture own a.id o.id key ticket durationMs = .ok (result, own') ∧
      OwnView a.id db' own' := by
  have hat' := h.rows hat hown rfl
  by_cases hs : o.status = .issued
  · refine Or.inr ⟨(o, a, t.status), db, own, ?_, ?_, h⟩
    · rw [hat.issueOrderCapture_eq hown, captureRows, if_neg (not_not.mpr hs)]
    · rw [hat'.issueOrderCapture_eq hown, captureRows, if_neg (not_not.mpr hs)]
  · cases hk : ticket.kept with
    | none =>
      exact Or.inl ⟨hat.capture_untaken key durationMs hown hs hk,
        hat'.capture_untaken key durationMs hown hs hk⟩
    | some kept =>
      have htk' : ∀ p ∈ own.orders, p.ticketNumber = some kept.ticketNumber → p.id = o.id := by
        intro p hp hpt
        by_cases hpa : p.agentId = a.id
        · exact htk kept hk p ((h.orders p hpa).mp hp) hpt
        · rw [(h.others p hp hpa).ticket] at hpt
          cases hpt
      obtain ⟨result, db', hok⟩ := hat.exists_capture key durationMs hown hs hk (htk kept hk)
      obtain ⟨result', own', hok'⟩ := hat'.exists_capture key durationMs hown hs hk htk'
      obtain ⟨kept₁, hk₁, rfl, hm⟩ := hat.capture_moved hs hok
      obtain ⟨kept₂, hk₂, rfl, hm'⟩ := hat'.capture_moved hs hok'
      obtain rfl := Option.some.inj (hk₁.symm.trans hk₂)
      exact Or.inr ⟨_, db', own', hok, hok', h.moved rfl hm hm'⟩

end OwnView

/-! ## Tickets -/

/-- The stored ticket numbers are those of the provider's tickets for the orders. -/
structure Ticketing (provider : String → String → Except Raised ProviderTicket)
    (db : Database) : Prop where
  distinct : DistinctTickets provider db
  stored : ∀ o ∈ db.orders, ∀ n, o.ticketNumber = some n →
    ∃ k t, keptTicket provider o.providerBookingId k = some t ∧ t.ticketNumber = n

/-- The ticket of a request is the provider's for its order. -/
def IssueOrder.Answered (provider : String → String → Except Raised ProviderTicket)
    (db : Database) (r : IssueOrder) : Prop :=
  ∀ ticket, r.phase = .ticketed ticket → ∃ o ∈ db.orders, o.id = r.orderId ∧
    provider o.providerBookingId r.idempotencyKey = .ok ticket

/-- What holds of the store and of each request along a run. -/
def Supplied (provider : String → String → Except Raised ProviderTicket)
    (c : Config World IssueOrder) : Prop :=
  Program.Holds (fun w => Coupled w.db ∧ Ticketing provider w.db)
    (fun w r => (r.Active → r.Pending w.db) ∧ r.Answered provider w.db) c

section Tickets

variable {provider : String → String → Except Raised ProviderTicket} {db db' : Database}
  {w w' : World} {r r' : IssueOrder} {x : ProvidedChoice} {c c' : Config World IssueOrder}
  {o : Order}

theorem Unpaid.ticketing (h : Unpaid db) (hd : DistinctTickets provider db) :
    Ticketing provider db := by
  refine ⟨hd, fun o ho n hn => ?_⟩
  rw [(h.orders o ho).ticket] at hn
  cases hn

theorem keptTicket_of_ok {b k : String} {ticket kept : ProviderTicket}
    (h : provider b k = .ok ticket) (hk : ticket.kept = some kept) :
    keptTicket provider b k = some kept := by
  rw [keptTicket, h]
  exact hk

theorem Ticketing.ticket_free {k : String} {kept : ProviderTicket} (h : Ticketing provider db)
    (ho : o ∈ db.orders) (hk : keptTicket provider o.providerBookingId k = some kept) :
    ∀ p ∈ db.orders, p.ticketNumber = some kept.ticketNumber → p.id = o.id := by
  intro p hp hpt
  by_contra hne
  obtain ⟨l, u, hl, hu⟩ := h.stored p hp _ hpt
  exact h.distinct p hp o ho hne l k u kept hl hk hu

theorem Ticketing.moved {phase : Phase} {a : Agent} {o' : Order}
    {t? : Option BalanceTransaction} {t' : BalanceTransaction} {es : List Event}
    (h : Ticketing provider db) (hm : Moved phase db db' a o o' t? t' es)
    (hcap : ∀ kept, phase = .capture kept →
      ∃ k, keptTicket provider o.providerBookingId k = some kept) : Ticketing provider db' := by
  have hsame := hm.move.sameBooking
  have hfrom : ∀ p ∈ db'.orders, ∃ q ∈ db.orders, q.id = p.id ∧
      q.providerBookingId = p.providerBookingId := by
    intro p hp
    rcases hm.mem_orders.mp hp with rfl | ⟨hp, _⟩
    · exact ⟨o, hm.order_mem, hsame.id.symm, hsame.providerBookingId.symm⟩
    · exact ⟨p, hp, rfl, rfl⟩
  constructor
  · intro p hp q hq hne k l t u hk hl
    obtain ⟨p', hp', hpid, hpb⟩ := hfrom p hp
    obtain ⟨q', hq', hqid, hqb⟩ := hfrom q hq
    rw [← hpb] at hk
    rw [← hqb] at hl
    exact h.distinct p' hp' q' hq' (by rwa [hpid, hqid]) k l t u hk hl
  · intro p hp n hn
    rcases hm.mem_orders.mp hp with rfl | ⟨hp, _⟩
    · rw [hsame.providerBookingId]
      have hold : p.ticketNumber = o.ticketNumber ∨
          ∃ ticket, phase = .capture ticket ∧ p.ticketNumber = some ticket.ticketNumber := by
        cases hm.move with
        | capture => exact Or.inr ⟨_, rfl, rfl⟩
        | _ => exact Or.inl rfl
      rcases hold with he | ⟨ticket, hph, he⟩
      · exact h.stored o hm.order_mem n (he.symm.trans hn)
      · obtain ⟨k, hk⟩ := hcap ticket hph
        exact ⟨k, ticket, hk, Option.some.inj (he.symm.trans hn)⟩
    · exact h.stored p hp n hn

theorem IssueOrder.Answered.mono (h : r.Answered provider db) (hx : Extends db db') :
    r.Answered provider db' := by
  intro ticket hp
  obtain ⟨o, ho, hid, hk⟩ := h ticket hp
  obtain ⟨o', ho', hs⟩ := hx.orders o ho
  exact ⟨o', ho', hs.id.trans hid, by rwa [hs.providerBookingId]⟩

theorem providing_advance :
    (IssueOrder.providing provider).advance w r x = some (w', r') ↔
      ∃ y, r.choice? provider x = some y ∧ r.advance w y = some (w', r') :=
  Option.bind_eq_some_iff

theorem answer_of_choice? {ticket : ProviderTicket} {b : String}
    (h : r.choice? provider x = some (.answer ticket)) (hp : r.phase = .issuing b) :
    provider b r.idempotencyKey = .ok ticket := by
  cases x with
  | answer =>
    simp only [IssueOrder.choice?, hp] at h
    split at h
    · cases h
      assumption
    · cases h
  | _ => cases h

theorem providing_effect (h : (IssueOrder.providing provider).advance w r x = some (w', r'))
    (hc : Coupled w.db) (ht : Ticketing provider w.db) (hv : r.Active → r.Pending w.db)
    (hans : r.Answered provider w.db) :
    Effect id w (.inr r) w' ∧ Ticketing provider w'.db ∧ (r'.Active → r'.Pending w'.db) ∧
      r'.Answered provider w'.db := by
  obtain ⟨y, hy, ha⟩ := providing_advance.mp h
  have hstep := IssueOrder.advance_step (fun hact => (hv hact).owns) ha
  obtain ⟨he, hv'⟩ : Effect id w (.inr r) w' ∧ (r'.Active → r'.Pending w'.db) :=
    hstep.effect hv hc
  refine ⟨he, ?_, hv', ?_⟩
  · cases he with
    | quiet => exact ⟨ht.distinct, ht.stored⟩
    | moved hph hid _ hm =>
      apply ht.moved hm
      rintro kept rfl
      obtain ⟨ticket, hph, hkept⟩ := hph
      obtain ⟨o, ho, hoid, hk⟩ := hans ticket hph
      obtain rfl := Database.order_ext ho hm.order_mem (hoid.trans hid.symm)
      exact ⟨_, keptTicket_of_ok hk hkept⟩
  · intro ticket hp
    obtain ⟨rfl, b, hph⟩ := IssueOrder.answer_of_ticketed ha hp
    simp only [IssueOrder.advance, hph] at ha
    cases ha
    obtain ⟨⟨o, ho, hid, _, _, hb⟩, _⟩ := hv (by simp [IssueOrder.Active, hph])
    refine ⟨o, ho, hid, ?_⟩
    rw [hb b (Or.inr hph)]
    exact answer_of_choice? (r := r) hy hph

theorem Supplied.of_step {a : Action IssueOrder ProvidedChoice} (hc : Supplied provider c)
    (h : (IssueOrder.providing provider).machine.step c a = some c') : Supplied provider c' := by
  refine Program.holds_of_run (G := fun _ _ => True) ?_ ?_ (.cons trivial h (.nil c')) hc
  · intro c r _ hf _
    have hp : r.phase = .requested := IssueOrder.providing_fresh.mp hf
    constructor
    · intro ha
      simp [IssueOrder.Active, hp] at ha
    · intro ticket hp'
      rw [hp] at hp'
      cases hp'
  · rintro c i x r s' r' _ _ ha ⟨hI, ht⟩ ⟨hv, hans⟩
    obtain ⟨he, ht', hv', hans'⟩ := providing_effect ha hI ht hv hans
    have hx := he.extends hI
    refine ⟨⟨he.coupled hI, ht'⟩, ⟨hv', hans'⟩, ?_⟩
    rintro q _ ⟨hq, hqa⟩
    have hvq : Request.Valid c.store.db (.inr q) := hq
    exact ⟨hvq.mono hx.grows, hqa.mono hx⟩

end Tickets

/-! ## The run of one agent -/

section Own

variable {provider : String → String → Except Raised ProviderTicket} {db : Database}
  {w w' v : World} {r r' : IssueOrder} {x : ProvidedChoice}

theorem hold_of_choice? {transactionId : String}
    (h : r.choice? provider x = some (.hold transactionId)) : x = .hold transactionId := by
  cases x with
  | hold => rw [IssueChoice.hold.inj (Option.some.inj h)]
  | answer =>
    simp only [IssueOrder.choice?] at h
    split at h
    · split at h <;> cases h
    · cases h
  | _ => cases h

theorem IssueOrder.Pending.exists_at (h : r.Pending db) (hc : Coupled db) :
    ∃ a o t, At db a o (some t) ∧ o.id = r.orderId ∧ a.id = r.agentId ∧ o.agentId = a.id := by
  obtain ⟨⟨o, ho, hid, hown, _⟩, ⟨a, ha, haid⟩, ⟨t, ht, hto⟩⟩ := h
  refine ⟨a, o, t, ⟨ha, ho, ?_⟩, hid, haid, hown.trans haid.symm⟩
  exact hc.onePayment.transactionOf_eq_some.mpr ⟨ht, hto.trans hid.symm⟩

/-- A step of a request of the agent, without the other agents. -/
theorem OwnView.advance (h : OwnView r.agentId w.db v.db) (ht : Ticketing provider w.db)
    (hv : r.Active → r.Pending w.db) (hans : r.Answered provider w.db)
    (hid : ∀ transactionId, x = .hold transactionId →
      ∀ t ∈ w.db.transactions, t.id ≠ transactionId)
    (hunc : ∀ transactionId, x = .hold transactionId →
      crossed w.db r.agentId r.orderId r.idempotencyKey = false)
    (ha : (IssueOrder.providing provider).advance w r x = some (w', r')) :
    ∃ v', (IssueOrder.providing provider).advance v r x = some (v', r') ∧
      OwnView r.agentId w'.db v'.db := by
  obtain ⟨y, hy, ha⟩ := providing_advance.mp ha
  suffices hs : ∃ v', r.advance v y = some (v', r') ∧ OwnView r.agentId w'.db v'.db by
    obtain ⟨v', hav, hview⟩ := hs
    exact ⟨v', providing_advance.mpr ⟨y, hy, hav⟩, hview⟩
  unfold IssueOrder.advance at ha ⊢
  split at ha
  case h_1 transactionId hp =>
    have hx := hold_of_choice? hy
    rcases h.hold (hid _ hx) (hunc _ hx) with ⟨e, he, he'⟩ | ⟨o, a, he, he'⟩ |
      ⟨b, debit, debit', db', own', he, he', hview⟩
    · simp only [he] at ha
      cases ha
      exact ⟨v, by simp only [he'], h⟩
    · simp only [he] at ha
      cases ha
      exact ⟨v, by simp only [he'], h⟩
    · simp only [he] at ha
      cases ha
      exact ⟨v.commit own' (debit'.toList.map (.debited r.agentId r.orderId)),
        by simp only [he'], hview⟩
  case h_2 b hp =>
    cases ha
    exact ⟨v.called (.issueCalled r.orderId b r.idempotencyKey), rfl, h⟩
  case h_3 b ticket hp =>
    cases ha
    exact ⟨v, rfl, h⟩
  case h_4 b e hp =>
    cases ha
    exact ⟨v, rfl, h⟩
  case h_5 =>
    cases ha
    exact ⟨v, rfl, h⟩
  case h_6 e hp =>
    obtain ⟨a, o, t, hat, hoid, haid, hown⟩ :=
      (hv (by simp [IssueOrder.Active, hp])).exists_at h.coupled
    have hrel := OwnView.release (haid ▸ h) hat hown e.text
    rw [hoid, haid] at hrel
    rcases hrel with ⟨he, he'⟩ | ⟨refund, db', own', he, he', hview⟩
    · simp only [he] at ha
      cases ha
      exact ⟨v, by simp only [he'], h⟩
    · simp only [he] at ha
      cases ha
      exact ⟨v.commit own' (refund.toList.map (.refunded r.agentId r.orderId)),
        by simp only [he'], hview⟩
  case h_7 ticket durationMs hp =>
    obtain ⟨a, o, t, hat, hoid, haid, hown⟩ :=
      (hv (by simp [IssueOrder.Active, hp])).exists_at h.coupled
    obtain ⟨q, hq, hqid, hk⟩ := hans ticket hp
    obtain rfl := hat.order_eq hq (hqid.trans hoid.symm)
    have hcap := OwnView.capture (haid ▸ h) hat hown
      (fun kept hkept => ht.ticket_free hq (keptTicket_of_ok hk hkept)) r.idempotencyKey durationMs
    rw [hoid, haid] at hcap
    rcases hcap with ⟨he, he'⟩ | ⟨result, db', own', he, he', hview⟩
    · simp only [he] at ha
      cases ha
      exact ⟨v, by simp only [he'], h⟩
    · simp only [he] at ha
      cases ha
      exact ⟨v.commit own' [], by simp only [he'], hview⟩
  case h_8 => cases ha

theorem OwnView.advance_crossed {transactionId : String} {r'' : IssueOrder} {v' : World}
    (h : OwnView r.agentId w.db v.db) (hid : ∀ t ∈ w.db.transactions, t.id ≠ transactionId)
    (hc : crossed w.db r.agentId r.orderId r.idempotencyKey = true)
    (ha : (IssueOrder.providing provider).advance w r (.hold transactionId) = some (w', r'))
    (ha' : (IssueOrder.providing provider).advance v r (.hold transactionId) = some (v', r'')) :
    r''.outcome? ≠ r'.outcome? := by
  obtain ⟨_, hy, ha⟩ := providing_advance.mp ha
  obtain ⟨_, hy', ha'⟩ := providing_advance.mp ha'
  cases hy
  cases hy'
  obtain ⟨he, b, debit, own', he'⟩ := h.hold_crossed hid hc
  unfold IssueOrder.advance at ha ha'
  split at ha
  case h_1 hp hx =>
    cases hx
    simp only [hp, he, he'] at ha ha'
    cases ha
    cases ha'
    simp [IssueOrder.outcome?, IssueOrder.finish]
  case h_8 => cases ha
  all_goals rename_i hx; cases hx

variable (provider) in
/-- The steps of the other agents touch nothing of the agent's, and those of the agent are the
same without them, but for crossed holds. -/
theorem issue_unwinding (agentId : String) :
    Program.Unwinding (IssueOrder.providing provider) (fun r => r.agentId = agentId)
      (·.outcome?) (Supplied provider) (fun c a => newIds c a) (fun c a => uncrossed agentId c a)
      (fun w v => OwnView agentId w.db v.db) where
  keep_eq ha := by
    obtain ⟨y, _, ha⟩ := providing_advance.mp ha
    rw [IssueOrder.advance_agentId ha]
  inv _ hs hI := hI.of_step hs
  spawn _ _ := rfl
  other {c i x r r' w' v} _ hI hR hr hk ha := by
    have hne : r.agentId ≠ agentId := by simpa using hk
    obtain ⟨hv, hans⟩ := hI.2 r (List.mem_of_getElem? hr)
    obtain ⟨he, _⟩ := providing_effect ha hI.1.1 hI.1.2 hv hans
    constructor
    · cases x <;> simp [uncrossed, hr, hne]
    · exact hR.other he hne
  own {c i x r r' w' v} hE hI hR hr hk ha hG := by
    obtain rfl : r.agentId = agentId := by simpa using hk
    obtain ⟨hv, hans⟩ := hI.2 r (List.mem_of_getElem? hr)
    refine hR.advance hI.1.2 hv hans ?_ ?_ ha
    · rintro transactionId rfl
      simpa [newIds, Table.mem_def] using hE
    · rintro transactionId rfl
      simpa [uncrossed, hr] using hG
  parts {c i x r r' w' v} hE hI hR hr hk ha hG := by
    obtain rfl : r.agentId = agentId := by simpa using hk
    intro v' q ha'
    cases x with
    | hold transactionId =>
      refine hR.advance_crossed ?_ ?_ ha ha'
      · simpa [newIds, Table.mem_def] using hE
      · simpa [uncrossed, hr] using hG
    | _ => exact absurd rfl hG

end Own

section Runs

variable {provider : String → String → Except Raised ProviderTicket} {w : World}
  {c : Config World IssueOrder} {as : List (Action IssueOrder ProvidedChoice)}

/-- Without the requests of the other agents those of an agent have the same outcomes, in a run
and in all its beginnings, exactly if no hold of the agent is crossed. -/
theorem undisturbed_iff (agentId : String) (hu : Unpaid w.db)
    (hd : DistinctTickets provider w.db)
    (h : (IssueOrder.providing provider).machine.RunWhere (fun c a => newIds c a)
      (Program.start w) as c) :
    (∀ bs cs u, as = bs ++ cs →
      (IssueOrder.providing provider).machine.Run (Program.start w) bs u →
      Undisturbed provider agentId w bs u) ↔
    (IssueOrder.providing provider).machine.RunWhere (fun c a => uncrossed agentId c a)
      (Program.start w) as c :=
  (issue_unwinding provider agentId).run_iff h
    (Program.holds_start ⟨hu.coupled, hu.ticketing hd⟩) (hu.ownView agentId)

end Runs

/-! ## Two agents -/

namespace Example

/-- Two agents, each with a booked order of its own. -/
def bothBooked : World where
  db := { twoOffered.db with
    orders := ⟨[newOrder "order" "agent" payload offer providerBooking,
      newOrder "order-1" "other" payload { offer with id := "offer-1" } ⟨"BKG-2", "REF002"⟩],
      by decide⟩ }
  history := []

/-- A provider that numbers its tickets by their bookings. -/
def ticketFor (providerBookingId _key : String) : Except Raised ProviderTicket :=
  .ok ⟨"250-" ++ providerBookingId, 500⟩

def holdCall (i : ℕ) (agentId orderId key transactionId : String) :
    List (Action IssueOrder ProvidedChoice) :=
  [.spawn ⟨agentId, orderId, key, .requested⟩, .advance i (.hold transactionId)]

/-- From the call of the provider to the capture. -/
def issueRest (i : ℕ) : List (Action IssueOrder ProvidedChoice) :=
  [.advance i .call, .advance i .answer, .advance i (.capture 5)]

/-- One agent issues its order, and the other one holds for its own under the given key. -/
def secondHold (key : String) : List (Action IssueOrder ProvidedChoice) :=
  holdCall 0 "agent" "order" "issue-key-01" "transaction" ++ issueRest 0 ++
    holdCall 1 "other" "order-1" key "transaction-1"

theorem unpaid_bothBooked : Unpaid bothBooked.db := by
  refine ⟨rfl, fun o ho => ?_⟩
  simp only [bothBooked, Table.mem_def, List.mem_cons, List.not_mem_nil, or_false] at ho
  rcases ho with rfl | rfl <;> exact ⟨rfl, rfl, rfl, rfl⟩

theorem distinctTickets_bothBooked : DistinctTickets ticketFor bothBooked.db := by
  have hkept : ∀ b k, Fits 64 ("250-" ++ b) → keptTicket ticketFor b k = some ⟨"250-" ++ b, 500⟩ :=
    fun _ _ h => ProviderTicket.kept_of_fits h
  intro o ho p hp hne k l t u hk hl
  simp only [bothBooked, Table.mem_def, List.mem_cons, List.not_mem_nil, or_false] at ho hp
  rcases ho with rfl | rfl <;> rcases hp with rfl | rfl
  case inl.inl | inr.inr => exact absurd rfl hne
  all_goals
    rw [hkept _ _ (by decide)] at hk hl
    cases hk
    cases hl
    decide

end Example

/-- The hold under the key of the other agent's order fails; alone its request gets the ticket. -/
theorem not_undisturbed_sameKey :
    (¬ ∀ (provider : String → String → Except Raised ProviderTicket) (agentId : String)
      (w : World) (as : List (Action IssueOrder ProvidedChoice)) (c : Config World IssueOrder),
      Unpaid w.db → DistinctTickets provider w.db →
      (IssueOrder.providing provider).machine.RunWhere (fun c a => newIds c a)
        (Program.start w) as c → Undisturbed provider agentId w as c) ∧
    ∃ d, (IssueOrder.providing Example.ticketFor).machine.Run (Program.start Example.bothBooked)
      (Program.project (fun r => r.agentId = "other") [] (Example.secondHold "issue-key-01") ++
        Example.issueRest 0) d ∧
      d.procs.map (·.phase matches .done (.ok _)) = [true] := by
  constructor
  · intro hall
    have hrun : ((IssueOrder.providing Example.ticketFor).machine.execWhere
        (fun c a => newIds c a) (Program.start Example.bothBooked)
        (Example.secondHold "issue-key-01")).map (fun c =>
          (c.procs.filter fun r => r.agentId = "other").map fun r => r.outcome?.isSome) =
        some [true] := by
      decide +kernel
    have halone : ((IssueOrder.providing Example.ticketFor).machine.exec
        (Program.start Example.bothBooked) (Program.project (fun r => r.agentId = "other") []
          (Example.secondHold "issue-key-01"))).map (fun d =>
          d.procs.map fun r => r.outcome?.isSome) = some [false] := by
      decide +kernel
    obtain ⟨c, hc, hsome⟩ := Option.map_eq_some_iff.mp hrun
    obtain ⟨d, hd, hobs⟩ := hall Example.ticketFor "other" Example.bothBooked _ c
      Example.unpaid_bothBooked Example.distinctTickets_bothBooked
      (Machine.runWhere_of_execWhere hc)
    rw [Machine.exec_eq_some_iff.mpr hd, Option.map_some] at halone
    have hobs' := congrArg (List.map Option.isSome) hobs
    rw [List.map_map, List.map_map] at hobs'
    have heq := (Option.some.inj halone).symm.trans (hobs'.trans hsome)
    cases heq
  · have hrun : ((IssueOrder.providing Example.ticketFor).machine.exec
        (Program.start Example.bothBooked) (Program.project (fun r => r.agentId = "other") []
          (Example.secondHold "issue-key-01") ++ Example.issueRest 0)).map (fun d =>
          d.procs.map (·.phase matches .done (.ok _))) = some [true] := by
      decide +kernel
    obtain ⟨d, hd, hok⟩ := Option.map_eq_some_iff.mp hrun
    exact ⟨d, Machine.exec_eq_some_iff.mp hd, hok⟩

theorem undisturbed_iff_twoKeys : ∃ c : Config World IssueOrder,
    c.procs.map (·.phase matches .done (.ok _)) = [true, true] ∧
    Undisturbed Example.ticketFor "other" Example.bothBooked
      (Example.secondHold "issue-key-02" ++ Example.issueRest 1) c := by
  have hrun : ((IssueOrder.providing Example.ticketFor).machine.execWhere
      (fun c a => newIds c a && uncrossed "other" c a) (Program.start Example.bothBooked)
      (Example.secondHold "issue-key-02" ++ Example.issueRest 1)).map (fun c =>
        c.procs.map (·.phase matches .done (.ok _))) = some [true, true] := by
    decide +kernel
  obtain ⟨c, hc, hok⟩ := Option.map_eq_some_iff.mp hrun
  have hboth := Machine.runWhere_of_execWhere hc
  have hids := hboth.mono fun _ _ hg => (Bool.and_eq_true_iff.mp hg).1
  have hunc := hboth.mono fun _ _ hg => (Bool.and_eq_true_iff.mp hg).2
  refine ⟨c, hok, ?_⟩
  exact (undisturbed_iff "other" Example.unpaid_bothBooked Example.distinctTickets_bothBooked
    hids).mpr hunc _ [] c (List.append_nil _).symm hids.run

end Ioka
