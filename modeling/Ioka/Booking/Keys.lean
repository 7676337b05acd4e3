import Ioka.Booking.Ledger

/-! # Issue keys, offers and payments

With non-empty keys, the key of an order is the key of its payment, and all
provider calls for an order carry it. Together with the standing of orders and
their prices this couples orders, offers and payments in every reachable state.
-/

namespace Ioka

open Relational Transition

/-- Issue requests arrive with non-empty keys. -/
def issueKeyed (_ : Booking) : Action Request Choice → Bool
  | .spawn (.inr r) => r.idempotencyKey ≠ ""
  | _ => true

def Request.Keyed (p : Request) : Prop := ∀ r, p = .inr r → r.idempotencyKey ≠ ""

theorem Request.Keyed.continues {p p' : Request} (h : p.Continues p') (hp : p.Keyed) :
    p'.Keyed := by
  cases h with
  | create => rintro _ ⟨⟩
  | issue r phase =>
    rintro _ ⟨rfl⟩
    exact hp r rfl

theorem Request.keyed_of_issueKeyed {c : Booking} {p : Request}
    (h : issueKeyed c (.spawn p) = true) : p.Keyed := by
  rintro r rfl
  simpa [issueKeyed] using h

/-! ## Keys of orders and payments -/

/-- The key of every order is the key of its payment. -/
structure KeysAgree (db : Database) : Prop where
  keyOf : ∀ o ∈ db.orders,
    o.issueIdempotencyKey = (db.transactionOf o.id).map (·.idempotencyKey)
  nonempty : ∀ t ∈ db.transactions, t.idempotencyKey ≠ ""

/-- The price of every order is the price of its offer. -/
def PricesAgree (db : Database) : Prop :=
  ∀ o ∈ db.orders, ∃ offer ∈ db.offers, offer.id = o.offerId ∧ o.amount = offer.totalAmount ∧
    o.currency = offer.currency

section Step

variable {sha256 : String → String} {w w' : World} {p : Request} {phase : Phase}
  {db db' : Database} {a : Agent} {o o' : Order} {t? : Option BalanceTransaction}
  {t' : BalanceTransaction} {es : List Event}

theorem Move.keysAgree (h : Move phase a o t? o' t' es)
    (hphase : ∀ key, phase = .hold key → key ≠ "")
    (ho : o.issueIdempotencyKey = t?.map (·.idempotencyKey))
    (ht : ∀ t, t? = some t → t.idempotencyKey ≠ "") :
    o'.issueIdempotencyKey = some t'.idempotencyKey ∧ t'.idempotencyKey ≠ "" := by
  cases h with
  | debit => exact ⟨rfl, hphase _ rfl⟩
  | @debitAgain key _ _ t _ hk =>
    have hkey : key = t.idempotencyKey := o.key_of_otherKey hk (ht t rfl) ho
    exact ⟨congrArg some hkey, ht t rfl⟩
  | @join key _ _ _ _ hk =>
    have hkey : key = t'.idempotencyKey := o.key_of_otherKey hk (ht t' rfl) ho
    exact ⟨congrArg some hkey, ht t' rfl⟩
  | @capture _ _ _ t => exact ⟨ho, ht t rfl⟩
  | @release _ _ t => exact ⟨ho, ht t rfl⟩

theorem Moved.keysAgree (h : Moved phase db db' a o o' t? t' es) (h₁ : OnePayment db)
    (hphase : ∀ key, phase = .hold key → key ≠ "") (hk : KeysAgree db) : KeysAgree db' := by
  have hold : ∀ t, t? = some t → t.idempotencyKey ≠ "" := by
    rintro t rfl
    exact hk.nonempty t (mem_of_transactionOf h.payment).1
  obtain ⟨hkey, hne⟩ := h.move.keysAgree hphase (h.payment ▸ hk.keyOf o h.order_mem) hold
  constructor
  · intro p hp
    rcases h.mem_orders.mp hp with rfl | ⟨hp, hid⟩
    · rw [h.move.sameBooking.id, h.transactionOf_self h₁]
      exact hkey
    · rw [h.transactionOf_of_ne hid]
      exact hk.keyOf p hp
  · intro t ht
    rcases (h.mem_transactions h₁).mp ht with rfl | ⟨ht, _⟩
    · exact hne
    · exact hk.nonempty t ht

theorem Effect.keysAgree (h : Effect sha256 w p w') (hc : Coupled w.db) (hp : p.Keyed)
    (hk : KeysAgree w.db) : KeysAgree w'.db := by
  cases h with
  | quiet => exact ⟨hk.keyOf, hk.nonempty⟩
  | @moved r db' phase a o o' t? t' es hph _ _ hm =>
    refine hm.keysAgree hc.onePayment ?_ hk
    rintro key rfl
    rw [← hph.2]
    exact hp r rfl
  | created _ _ hcr =>
    constructor
    · intro q hq
      rw [World.commit_db, hcr.transactionOf]
      rcases hcr.mem_orders.mp hq with hq | rfl
      · exact hk.keyOf q hq
      · rw [hcr.transactionOf_self hc]
        rfl
    · rw [World.commit_db, hcr.transactions]
      exact hk.nonempty

theorem Effect.pricesAgree (h : Effect sha256 w p w') (hp : PricesAgree w.db) :
    PricesAgree w'.db := by
  cases h with
  | quiet => exact hp
  | moved _ _ _ hm =>
    intro q hq
    rw [World.commit_db, hm.offers]
    rcases hm.mem_orders.mp hq with rfl | ⟨hq, _⟩
    · have hs := hm.move.sameBooking
      rw [hs.offerId, hs.amount, hs.currency]
      exact hp _ hm.order_mem
    · exact hp q hq
  | @created r db' orderId offer booking _ ho hcr =>
    intro q hq
    rw [World.commit_db, hcr.offers]
    rcases hcr.mem_orders.mp hq with hq | rfl
    · exact hp q hq
    · exact ⟨offer, ho, rfl, rfl, rfl⟩

end Step

/-! ## Coupling of orders, offers and payments -/

/-- No order, payment or idempotency record is stored yet. -/
structure Blank (db : Database) : Prop where
  orders : db.orders.rows = []
  transactions : db.transactions.rows = []
  records : db.records.rows = []

/-- How an order stands to its offer and its payment. -/
structure OrderCoupled (db : Database) (o : Order) : Prop where
  onePayment : ∀ t ∈ db.transactions, ∀ u ∈ db.transactions,
    t.orderId = o.id → u.orderId = o.id → t = u
  status : Pairing o.status ((db.transactionOf o.id).map (·.status))
  ticketNumber : o.ticketNumber.isSome ↔ o.status = .issued
  issuedAt : o.issuedAt.isSome ↔ o.status = .issued
  key : o.issueIdempotencyKey = (db.transactionOf o.id).map (·.idempotencyKey)
  offer : ∃ offer ∈ db.offers, offer.id = o.offerId ∧ o.amount = offer.totalAmount ∧
    o.currency = offer.currency
  payment : ∀ t, db.transactionOf o.id = some t →
    t.amount = o.amount ∧ t.currency = o.currency ∧ t.agentId = o.agentId

section Coupling

variable {sha256 : String → String} {w : World} {c : Booking}
  {as : List (Action Request Choice)}

theorem Blank.unpaid {db : Database} (h : Blank db) : Unpaid db := by
  refine ⟨h.transactions, fun o ho => ?_⟩
  simp [Table.mem_def, h.orders] at ho

theorem IssueOrder.Pending.capture {db : Database} {r : IssueOrder} (h : r.Pending db)
    (h₁ : OnePayment db) (ticket : ProviderTicket) (durationMs : ℤ) :
    issueOrderCapture db r.agentId r.orderId r.idempotencyKey ticket durationMs ≠
      .error (.notFound "Issue state not found") := by
  obtain ⟨⟨o, ho, hid, hown, _⟩, ⟨a, ha, haid⟩, ⟨t, ht, hto⟩⟩ := h
  have ho' : agentOrder db r.agentId r.orderId = some o :=
    agentOrder_eq_some.mpr ⟨ho, hid, hown⟩
  have ha' : db.agent? r.agentId = some a := Database.agent?_eq_some.mpr ⟨ha, haid⟩
  have ht' : db.transactionOf r.orderId = some t := h₁.transactionOf_eq_some.mpr ⟨ht, hto⟩
  intro hcap
  rw [issueOrderCapture, ho', ha', ht'] at hcap
  rcases captureRows_error hcap with he | he <;> cases he

/-- In every reachable state orders, offers and payments are coupled, and no capture misses
its rows. -/
theorem order_coupled (hb : Blank w.db)
    (h : (booking sha256).machine.RunWhere (fun c a => issueKeyed c a = true)
      (Program.start w) as c) :
    (∀ o ∈ c.store.db.orders, OrderCoupled c.store.db o) ∧
    ∀ r ticket, .inr r ∈ c.procs → r.phase = .ticketed ticket → ∀ durationMs,
      issueOrderCapture c.store.db r.agentId r.orderId r.idempotencyKey ticket durationMs ≠
        .error (.notFound "Issue state not found") := by
  have hs := sound_start hb.unpaid.coupled
  have hk : KeysAgree c.store.db := by
    refine invariant_of_requests (I := fun w => KeysAgree w.db) (K := Request.Keyed)
      (fun c p hg => Request.keyed_of_issueKeyed hg) (fun p p' => Request.Keyed.continues)
      (fun w p w' hc _ hp he hk => he.keysAgree hc hp hk) h hs ?_ ⟨?_, ?_⟩
    · simp [Program.start]
    · intro o ho
      simp [Program.start, Table.mem_def, hb.orders] at ho
    · intro t ht
      simp [Program.start, Table.mem_def, hb.transactions] at ht
  have hp : PricesAgree c.store.db := by
    refine invariant_of_effect (I := fun w => PricesAgree w.db)
      (fun w p w' _ he hp => he.pricesAgree hp) h hs ?_
    intro o ho
    simp [Program.start, Table.mem_def, hb.orders] at ho
  obtain ⟨hc, hv⟩ := sound_of_run h hs
  constructor
  · intro o ho
    obtain ⟨hst, htk, hat, _, hpay⟩ := hc.standing o ho
    refine ⟨?_, hst, htk, hat, hk.keyOf o ho, hp o ho, fun t ht => ?_⟩
    · intro t ht u hu hto huo
      exact hc.onePayment t ht u hu (hto.trans huo.symm)
    · obtain ⟨ham, hcur, hag, _⟩ := hpay t ht
      exact ⟨ham, hcur, hag⟩
  · intro r ticket hr hph durationMs
    have hpend : r.Pending c.store.db := hv _ hr (by simp [IssueOrder.Active, hph])
    exact hpend.capture hc.onePayment ticket durationMs

/-- An order is booked, issued and coupled to its offer and its payment. -/
theorem order_coupled_booked : ∃ c : Booking,
    (booking id).machine.RunWhere (fun c a => issueKeyed c a = true)
      (Program.start Example.offered)
      (Example.bookSteps ++ .spawn (Example.issueRequest "issue") :: Example.issueSteps 1) c ∧
    c.store.db.orders.rows.map (·.status) = [.issued] ∧
    ∀ o ∈ c.store.db.orders, OrderCoupled c.store.db o := by
  have hrun : ((booking id).machine.execWhere (fun c a => issueKeyed c a = true)
      (Program.start Example.offered) (Example.bookSteps ++
        .spawn (Example.issueRequest "issue") :: Example.issueSteps 1)).map
      (fun c => c.store.db.orders.rows.map (·.status)) = some [.issued] := by decide
  obtain ⟨c, hc, hst⟩ := Option.map_eq_some_iff.mp hrun
  have h := Machine.runWhere_of_execWhere hc
  exact ⟨c, h, hst, (order_coupled ⟨rfl, rfl, rfl⟩ h).1⟩

end Coupling

/-! ## Provider calls -/

/-- Every provider call for an order carries its booking and its key. -/
def CallsAgree (w : World) : Prop :=
  ∀ id b k, .issueCalled id b k ∈ w.history → k ≠ "" ∧ ∃ o ∈ w.db.orders, o.id = id ∧
    o.providerBookingId = b ∧ o.issueIdempotencyKey = some k

section Calls

variable {sha256 : String → String} {w w' : World} {p : Request} {c : Booking}
  {as : List (Action Request Choice)}

theorem Effect.callsAgree_old (h : Effect sha256 w p w') (hc : Coupled w.db)
    (hw : CallsAgree w) (id b k : String) (hm : .issueCalled id b k ∈ w.history) :
    k ≠ "" ∧ ∃ o ∈ w'.db.orders, o.id = id ∧ o.providerBookingId = b ∧
      o.issueIdempotencyKey = some k := by
  obtain ⟨hk, o, ho, hid, hb, hkey⟩ := hw id b k hm
  obtain ⟨o', ho', hs⟩ := (h.extends hc).orders o ho
  exact ⟨hk, o', ho', hs.id.trans hid, hs.providerBookingId.trans hb, hs.key k hk hkey⟩

theorem Effect.callsAgree (h : Effect sha256 w p w') (hc : Coupled w.db) (hv : p.Valid w.db)
    (hp : p.Keyed) (hw : CallsAgree w) : CallsAgree w' := by
  have hold := h.callsAgree_old hc hw
  intro id b k hm
  cases h with
  | @quiet p audit es hes =>
    rcases List.mem_append.mp hm with hm | hm
    · exact hold id b k hm
    · have hcall := hes _ hm
      rcases p with r | r
      · exact hcall.elim
      · obtain ⟨hph, rfl, rfl⟩ := hcall
        obtain ⟨o, ho, hid, _, hkey, hb⟩ := (hv (by simp [IssueOrder.Active, hph])).order
        exact ⟨hp r rfl, o, ho, hid, hb b (Or.inl hph), hkey (hp r rfl)⟩
  | moved _ _ _ hmv =>
    rcases List.mem_append.mp hm with hm | hm
    · exact hold id b k hm
    · exact absurd (hmv.move.orderId?_of_mem _ hm) (by simp [Event.orderId?])
  | created =>
    rcases List.mem_append.mp hm with hm | hm
    · exact hold id b k hm
    · cases List.mem_singleton.mp hm

/-- All calls for one order carry its booking and one key, and a key belongs to one order. -/
theorem issue_calls_agree (hu : Unpaid w.db) (hh : w.history = [])
    (h : (booking sha256).machine.RunWhere (fun c a => issueKeyed c a = true)
      (Program.start w) as c) {id b k : String} (hm : .issueCalled id b k ∈ c.store.history) :
    (∃ o ∈ c.store.db.orders, o.id = id ∧ o.providerBookingId = b) ∧
    ∀ id' b' k', .issueCalled id' b' k' ∈ c.store.history → (id' = id ↔ k' = k) := by
  have hw : CallsAgree c.store := by
    refine invariant_of_requests (K := Request.Keyed)
      (fun c p hg => Request.keyed_of_issueKeyed hg) (fun p p' => Request.Keyed.continues)
      (fun w p w' hc hv hp he hw => he.callsAgree hc hv hp hw) h (sound_start hu.coupled) ?_ ?_
    · simp [Program.start]
    · intro id b k hm
      simp [Program.start, hh] at hm
  obtain ⟨_, o, ho, hid, hb, hkey⟩ := hw id b k hm
  refine ⟨⟨o, ho, hid, hb⟩, fun id' b' k' hm' => ?_⟩
  obtain ⟨_, o', ho', hid', _, hkey'⟩ := hw id' b' k' hm'
  constructor
  · rintro rfl
    have he : o' = o := Database.order_ext ho' ho (hid'.trans hid.symm)
    rw [he, hkey] at hkey'
    exact (Option.some.inj hkey').symm
  · rintro rfl
    have he : o' = o := Database.order_ext_of_key ho' ho hkey' hkey
    rw [← hid', he, hid]

/-- The call of a request that issued its order. -/
theorem issue_calls_agree_issued : ∃ c : Booking,
    (booking id).machine.RunWhere (fun c a => issueKeyed c a = true)
      (Program.start Example.booked)
      (.spawn (Example.issueRequest "key") :: Example.issueSteps 0) c ∧
    .issueCalled "order" "BKG-1" "key" ∈ c.store.history ∧
    ∀ id' b' k', .issueCalled id' b' k' ∈ c.store.history → (id' = "order" ↔ k' = "key") := by
  have hrun : ((booking id).machine.execWhere (fun c a => issueKeyed c a = true)
      (Program.start Example.booked)
      (.spawn (Example.issueRequest "key") :: Example.issueSteps 0)).map
        (fun c => decide (.issueCalled "order" "BKG-1" "key" ∈ c.store.history)) = some true := by
    decide
  obtain ⟨c, hc, hm⟩ := Option.map_eq_some_iff.mp hrun
  have h := Machine.runWhere_of_execWhere hc
  have hm' := of_decide_eq_true hm
  exact ⟨c, h, hm', (issue_calls_agree Example.unpaid_booked rfl h hm').2⟩

end Calls

end Ioka
