import Ioka.Booking.Steps

/-! # Orders and their payments

Every reachable database pairs an order with at most one transaction, and the
two statuses move together. The invariant is stated for one order and its
payment, shown to survive each move, and lifted to databases and to runs.
-/

namespace Ioka

open Relational Transition

/-- The statuses that an order and its transaction may have together. -/
def Pairing : OrderStatus → Option PaymentStatus → Prop
  | .booked, none => True
  | .booked, some .released => True
  | .issuing, some .held => True
  | .issued, some .captured => True
  | _, _ => False

instance : ∀ s t, Decidable (Pairing s t)
  | .booked, none | .booked, some .released | .issuing, some .held | .issued, some .captured =>
    isTrue trivial
  | .booked, some .held | .booked, some .captured | .issuing, none | .issuing, some .captured
  | .issuing, some .released | .issued, none | .issued, some .held | .issued, some .released
  | .cancelled, _ => isFalse id

theorem booked_of_pairing {s : OrderStatus} {p? : Option PaymentStatus} (h : Pairing s p?)
    (hs : s ≠ .issued) (hp : p? ≠ some .held) :
    s = .booked ∧ ∀ p, p? = some p → p = .released := by
  cases s with
  | booked =>
    refine ⟨rfl, fun p he => ?_⟩
    subst he
    cases p with
    | held | captured => exact absurd h id
    | released => rfl
  | issuing =>
    rcases p? with _ | _ | _ | _
    · exact absurd h id
    · exact absurd rfl hp
    · exact absurd h id
    · exact absurd h id
  | issued => exact absurd rfl hs
  | cancelled => exact absurd h id

/-- An order agrees with its payment. -/
structure Standing (o : Order) (t? : Option BalanceTransaction) : Prop where
  status : Pairing o.status (t?.map (·.status))
  ticket : o.ticketNumber.isSome ↔ o.status = .issued
  issuedAt : o.issuedAt.isSome ↔ o.status = .issued
  key : o.issueIdempotencyKey.isSome = t?.isSome
  payment : ∀ t, t? = some t → t.amount = o.amount ∧ t.currency = o.currency ∧
    t.agentId = o.agentId ∧ t.orderId = o.id

section Move

variable {phase : Phase} {a : Agent} {o o' : Order} {t? : Option BalanceTransaction}
  {t t' : BalanceTransaction} {es : List Event}

/-- What an order keeps for ever. -/
structure SameBooking (o o' : Order) : Prop where
  id : o'.id = o.id
  agentId : o'.agentId = o.agentId
  offerId : o'.offerId = o.offerId
  passenger : o'.passenger = o.passenger
  amount : o'.amount = o.amount
  currency : o'.currency = o.currency
  providerBookingId : o'.providerBookingId = o.providerBookingId
  bookingReference : o'.bookingReference = o.bookingReference
  /-- An empty key is replaced by the next hold. -/
  key : ∀ k, k ≠ "" → o.issueIdempotencyKey = some k → o'.issueIdempotencyKey = some k

/-- What a transaction keeps for ever. -/
structure SamePayment (t t' : BalanceTransaction) : Prop where
  id : t'.id = t.id
  agentId : t'.agentId = t.agentId
  orderId : t'.orderId = t.orderId
  idempotencyKey : t'.idempotencyKey = t.idempotencyKey
  amount : t'.amount = t.amount
  currency : t'.currency = t.currency

theorem SameBooking.refl (o : Order) : SameBooking o o :=
  ⟨rfl, rfl, rfl, rfl, rfl, rfl, rfl, rfl, fun _ _ h => h⟩

theorem SamePayment.refl (t : BalanceTransaction) : SamePayment t t :=
  ⟨rfl, rfl, rfl, rfl, rfl, rfl⟩

theorem SameBooking.trans {o₁ o₂ o₃ : Order} (h : SameBooking o₁ o₂) (h' : SameBooking o₂ o₃) :
    SameBooking o₁ o₃ where
  id := h'.id.trans h.id
  agentId := h'.agentId.trans h.agentId
  offerId := h'.offerId.trans h.offerId
  passenger := h'.passenger.trans h.passenger
  amount := h'.amount.trans h.amount
  currency := h'.currency.trans h.currency
  providerBookingId := h'.providerBookingId.trans h.providerBookingId
  bookingReference := h'.bookingReference.trans h.bookingReference
  key k hk hkey := h'.key k hk (h.key k hk hkey)

theorem SamePayment.trans {t₁ t₂ t₃ : BalanceTransaction} (h : SamePayment t₁ t₂)
    (h' : SamePayment t₂ t₃) : SamePayment t₁ t₃ where
  id := h'.id.trans h.id
  agentId := h'.agentId.trans h.agentId
  orderId := h'.orderId.trans h.orderId
  idempotencyKey := h'.idempotencyKey.trans h.idempotencyKey
  amount := h'.amount.trans h.amount
  currency := h'.currency.trans h.currency

theorem Order.key_of_otherKey {key k : String} (h : o.otherKey key = false) (hk : k ≠ "")
    (hok : o.issueIdempotencyKey = some k) : key = k := by
  simp only [otherKey, hok, decide_eq_false_iff_not, not_and, not_not] at h
  exact (h hk).symm

theorem Order.sameBooking_holding {key : String} (h : o.otherKey key = false) :
    SameBooking o (o.holding key) where
  __ := SameBooking.refl o
  key k hk hok := by
    rw [o.key_of_otherKey h hk hok]
    rfl

theorem Move.sameBooking (h : Move phase a o t? o' t' es) : SameBooking o o' := by
  cases h with
  | debit _ hk => exact o.sameBooking_holding hk
  | debitAgain _ hk => exact o.sameBooking_holding hk
  | join _ hk => exact o.sameBooking_holding hk
  | _ => exact { SameBooking.refl o with }

theorem Move.samePayment (h : Move phase a o (some t) o' t' es) : SamePayment t t' := by
  cases h <;> exact ⟨rfl, rfl, rfl, rfl, rfl, rfl⟩

/-- A move keeps an order in agreement with its payment. -/
theorem Move.standing (h : Move phase a o t? o' t' es) (hs : Standing o t?) :
    Standing o' (some t') := by
  obtain ⟨hst, htk, hat, hk, hp⟩ := hs
  cases h with
  | debit hne =>
    refine ⟨trivial, ?_, ?_, rfl, ?_⟩
    · simpa [Order.holding, hne] using htk
    · simpa [Order.holding, hne] using hat
    · rintro t ⟨rfl⟩
      exact ⟨rfl, rfl, rfl, rfl⟩
  | @debitAgain _ _ _ t hne =>
    refine ⟨trivial, ?_, ?_, rfl, ?_⟩
    · simpa [Order.holding, hne] using htk
    · simpa [Order.holding, hne] using hat
    · rintro u ⟨rfl⟩
      exact hp t rfl
  | join hne _ hr =>
    refine ⟨?_, ?_, ?_, rfl, hp⟩
    · revert hst hne hr
      cases o.status <;> cases ht : t'.status <;> simp [Pairing, Order.holding, ht]
    · simpa [Order.holding, hne] using htk
    · simpa [Order.holding, hne] using hat
  | @capture _ _ _ t hne =>
    refine ⟨trivial, ?_, ?_, hk, ?_⟩
    · simp [Order.ticketed]
    · simp [Order.ticketed]
    · rintro u ⟨rfl⟩
      exact hp t rfl
  | @release _ _ t hh =>
    have hi : o.status = .issuing := by
      revert hst
      cases o.status <;> simp [Pairing, hh]
    refine ⟨trivial, ?_, ?_, hk, ?_⟩
    · simpa [Order.rebooked, hi] using htk
    · simpa [Order.rebooked, hi] using hat
    · rintro u ⟨rfl⟩
      exact hp t rfl

end Move

/-! ## Databases -/

/-- An order as `create_order` leaves it. -/
structure Order.New (o : Order) : Prop where
  status : o.status = .booked
  key : o.issueIdempotencyKey = none
  ticket : o.ticketNumber = none
  issuedAt : o.issuedAt = none

theorem newOrder_new (orderId agentId : String) (payload : OrderCreate) (offer : Offer)
    (booking : ProviderBooking) : (newOrder orderId agentId payload offer booking).New :=
  ⟨rfl, rfl, rfl, rfl⟩

/-- No order has been paid for, and none has been tried. -/
structure Unpaid (db : Database) : Prop where
  transactions : db.transactions.rows = []
  orders : ∀ o ∈ db.orders, o.New

/-- No two transactions belong to one order. -/
def OnePayment (db : Database) : Prop :=
  ∀ t ∈ db.transactions, ∀ u ∈ db.transactions, t.orderId = u.orderId → t = u

/-- Every order agrees with its payment, and every payment has an order. -/
structure Coupled (db : Database) : Prop where
  onePayment : OnePayment db
  orderOf : ∀ t ∈ db.transactions, ∃ o ∈ db.orders, o.id = t.orderId
  standing : ∀ o ∈ db.orders, Standing o (db.transactionOf o.id)

theorem Example.unpaid_booked : Unpaid Example.booked.db := by
  refine ⟨rfl, fun o ho => ?_⟩
  rw [List.mem_singleton.mp ho]
  exact newOrder_new ..

section Database

variable {db db' : Database} {phase : Phase} {a b : Agent} {o o' p : Order}
  {t? : Option BalanceTransaction} {t t' u : BalanceTransaction} {es : List Event} {id : String}

theorem OnePayment.transactionOf_eq_some (h : OnePayment db) :
    db.transactionOf id = some t ↔ t ∈ db.transactions ∧ t.orderId = id := by
  rw [Database.transactionOf, Table.select_eq_some]
  · simp
  · intro t ht u hu h₁ h₂
    simp only [decide_eq_true_eq] at h₁ h₂
    exact h t ht u hu (h₁.trans h₂.symm)

theorem transactionOf_eq_none :
    db.transactionOf id = none ↔ ∀ t ∈ db.transactions, t.orderId ≠ id := by
  simp [Database.transactionOf, Table.select_eq_none]

theorem Coupled.exists_captured (hc : Coupled db) (ho : o ∈ db.orders) (hi : o.status = .issued) :
    ∃ t, db.transactionOf o.id = some t ∧ t.status = .captured := by
  have hst := (hc.standing o ho).status
  rw [hi] at hst
  cases ht : db.transactionOf o.id with
  | none =>
    rw [ht] at hst
    exact hst.elim
  | some t =>
    rw [ht] at hst
    refine ⟨t, rfl, ?_⟩
    revert hst
    cases hs : t.status <;> simp [Pairing, hs]

theorem Coupled.payment_own (hc : Coupled db) (ho : o ∈ db.orders)
    (ht : db.transactionOf o.id = some t) :
    t ∈ db.transactions ∧ t.orderId = o.id ∧ t.agentId = o.agentId := by
  obtain ⟨hmem, hto⟩ := mem_of_transactionOf ht
  exact ⟨hmem, hto, ((hc.standing o ho).payment t ht).2.2.1⟩

theorem Order.New.standing (h : o.New) : Standing o none := by
  obtain ⟨hs, hk, htk, hat⟩ := h
  exact ⟨by rw [hs]; trivial, by simp [htk, hs], by simp [hat, hs], by simp [hk], by simp⟩

theorem Unpaid.transactionOf (h : Unpaid db) : db.transactionOf id = none :=
  transactionOf_eq_none.mpr fun t ht => by simp [Table.mem_def, h.transactions] at ht

theorem Unpaid.coupled (h : Unpaid db) : Coupled db := by
  have hn : ∀ t, t ∉ db.transactions := by simp [Table.mem_def, h.transactions]
  refine ⟨fun t ht => absurd ht (hn t), fun t ht => absurd ht (hn t), fun o ho => ?_⟩
  rw [h.transactionOf]
  exact (h.orders o ho).standing

namespace Written

variable {delta : Money}

theorem mem_agents (h : Written db db' a o o' t? t' delta) : b ∈ db'.agents ↔
    b = { a with balance := a.balance + delta } ∨ (b ∈ db.agents ∧ b.id ≠ a.id) := by
  rw [Table.mem_def, h.agents, mem_amend]
  simp only [decide_eq_true_eq, decide_eq_false_iff_not]
  refine or_congr_left ⟨?_, ?_⟩
  · rintro ⟨c, hc, hid, rfl⟩
    rw [Database.agent_ext hc h.agent_mem hid]
  · rintro rfl
    exact ⟨a, h.agent_mem, rfl, rfl⟩

theorem mem_orders (h : Written db db' a o o' t? t' delta) :
    p ∈ db'.orders ↔ p = o' ∨ (p ∈ db.orders ∧ p.id ≠ o.id) := by
  rw [Table.mem_def, h.orders, mem_amend]
  simp only [decide_eq_true_eq, decide_eq_false_iff_not]
  refine or_congr_left ⟨?_, ?_⟩
  · rintro ⟨q, _, _, rfl⟩
    rfl
  · rintro rfl
    exact ⟨o, h.order_mem, rfl, rfl⟩

theorem mem_transactions (h : Written db db' a o o' t? t' delta) (h₁ : OnePayment db) :
    u ∈ db'.transactions ↔ u = t' ∨ (u ∈ db.transactions ∧ u.orderId ≠ o.id) := by
  rcases h.transactions with ⟨rfl, hr⟩ | ⟨t, rfl, hr⟩
  · have hn := transactionOf_eq_none.mp h.payment
    rw [Table.mem_def, hr, List.mem_append, List.mem_singleton, or_comm]
    refine or_congr_right ⟨fun hu => ⟨hu, hn u hu⟩, fun hu => hu.1⟩
  · obtain ⟨ht, hto⟩ := mem_of_transactionOf h.payment
    rw [Table.mem_def, hr, mem_amend]
    simp only [decide_eq_true_eq, decide_eq_false_iff_not]
    refine or_congr ⟨?_, ?_⟩ (and_congr_right fun hu => not_congr ⟨?_, ?_⟩)
    · rintro ⟨_, _, _, rfl⟩
      rfl
    · rintro rfl
      exact ⟨t, ht, rfl, rfl⟩
    · intro hid
      rw [Database.transaction_ext hu ht hid, hto]
    · intro hid
      rw [h₁ u hu t ht (hid.trans hto.symm)]

theorem onePayment (h : Written db db' a o o' t? t' delta) (h₁ : OnePayment db) :
    OnePayment db' := by
  intro u hu v hv huv
  rcases (h.mem_transactions h₁).mp hu with rfl | ⟨hu, hue⟩ <;>
    rcases (h.mem_transactions h₁).mp hv with rfl | ⟨hv, hve⟩
  · rfl
  · exact absurd (huv.symm.trans h.orderId) hve
  · exact absurd (huv.trans h.orderId) hue
  · exact h₁ u hu v hv huv

theorem transactionOf_self (h : Written db db' a o o' t? t' delta) (h₁ : OnePayment db) :
    db'.transactionOf o.id = some t' :=
  (h.onePayment h₁).transactionOf_eq_some.mpr ⟨(h.mem_transactions h₁).mpr (Or.inl rfl), h.orderId⟩

theorem transactionOf_of_ne (h : Written db db' a o o' t? t' delta) (hne : id ≠ o.id) :
    db'.transactionOf id = db.transactionOf id := by
  have ht' : decide (t'.orderId = id) = false := by
    simpa [h.orderId] using hne.symm
  unfold Database.transactionOf Table.select
  rcases h.transactions with ⟨_, hr⟩ | ⟨t, rfl, hr⟩
  · rw [hr, List.find?_append, List.find?_singleton, ht']
    simp
  · obtain ⟨ht, hto⟩ := mem_of_transactionOf h.payment
    rw [hr]
    apply find?_amend
    intro v hv hvt
    obtain rfl := Database.transaction_ext hv ht (by simpa using hvt)
    exact ⟨by simpa [hto] using hne.symm, ht'⟩

end Written

namespace Moved

theorem coupled (h : Moved phase db db' a o o' t? t' es) (hc : Coupled db) : Coupled db' := by
  have hid : o'.id = o.id := h.move.sameBooking.id
  refine ⟨h.onePayment hc.onePayment, fun u hu => ?_, fun p hp => ?_⟩
  · rcases (h.mem_transactions hc.onePayment).mp hu with rfl | ⟨hu, hne⟩
    · exact ⟨o', h.mem_orders.mpr (Or.inl rfl), hid.trans h.orderId.symm⟩
    · obtain ⟨p, hp, hpu⟩ := hc.orderOf u hu
      exact ⟨p, h.mem_orders.mpr (Or.inr ⟨hp, fun he => hne (hpu.symm.trans he)⟩), hpu⟩
  · rcases h.mem_orders.mp hp with rfl | ⟨hp, hne⟩
    · rw [hid, h.transactionOf_self hc.onePayment]
      exact h.move.standing (h.payment ▸ hc.standing o h.order_mem)
    · rw [h.transactionOf_of_ne hne]
      exact hc.standing p hp

end Moved

section Created

variable {r : IdempotencyRecord}

theorem Created.mem_orders (h : Created db db' o r) : p ∈ db'.orders ↔ p ∈ db.orders ∨ p = o := by
  rw [Table.mem_def, h.orders, List.mem_append, List.mem_singleton, Table.mem_def]

theorem Created.fresh (h : Created db db' o r) (hp : p ∈ db.orders) : p.id ≠ o.id := by
  intro hid
  have hpo : p = o :=
    Database.order_ext (h.mem_orders.mpr (Or.inl hp)) (h.mem_orders.mpr (Or.inr rfl)) hid
  have hnd : db'.orders.rows.Nodup := Database.orders_nodup
  rw [h.orders, List.nodup_append] at hnd
  exact hnd.2.2 p hp o (by simp) hpo

theorem Created.transactionOf (h : Created db db' o r) :
    db'.transactionOf id = db.transactionOf id := by
  rw [Database.transactionOf, h.transactions, Database.transactionOf]

theorem Created.transactionOf_self (h : Created db db' o r) (hc : Coupled db) :
    db.transactionOf o.id = none := by
  apply transactionOf_eq_none.mpr
  intro t ht hid
  obtain ⟨p, hp, hpt⟩ := hc.orderOf t ht
  exact h.fresh hp (hpt.trans hid)

theorem Created.coupled (h : Created db db' o r) (hn : o.New) (hc : Coupled db) :
    Coupled db' := by
  refine ⟨?_, fun u hu => ?_, fun p hp => ?_⟩
  · intro t ht u hu
    rw [h.transactions] at ht hu
    exact hc.onePayment t ht u hu
  · rw [h.transactions] at hu
    obtain ⟨p, hp, hpu⟩ := hc.orderOf u hu
    exact ⟨p, h.mem_orders.mpr (Or.inl hp), hpu⟩
  · rw [h.transactionOf]
    rcases h.mem_orders.mp hp with hp | rfl
    · exact hc.standing p hp
    · rw [h.transactionOf_self hc]
      exact hn.standing

end Created

end Database

end Ioka
