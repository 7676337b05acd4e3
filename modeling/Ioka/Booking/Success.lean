import Ioka.Booking.Coupling

/-! # Blocks that succeed

The rows that a block of `issue_order` reads, and the conditions under which
what it writes breaks no constraint.
-/

namespace Ioka

open Relational

/-- An order with its agent and its payment, as a database has them. -/
structure At (db : Database) (a : Agent) (o : Order) (t? : Option BalanceTransaction) : Prop where
  agent : a ∈ db.agents
  order : o ∈ db.orders
  payment : db.transactionOf o.id = t?

/-- The hold phase comes to its writes, after its three reads. -/
def holdWrites (order : Order) (agent : Agent) (transaction : Option BalanceTransaction)
    (key : String) : Bool :=
  order.status ≠ .issued ∧ order.otherKey key = false ∧
    ((transaction.any fun t => t.status ≠ .released) ∨ order.amount ≤ agent.balance)

/-- Of the given rows no other order has the key, and no transaction where a hold inserts one. -/
def keyFree (orders : List Order) (transactions : List BalanceTransaction) (order : Order)
    (transaction : Option BalanceTransaction) (key : String) : Bool :=
  (orders.all fun p => p.issueIdempotencyKey ≠ some key ∨ p.id = order.id) ∧
    (transaction.isSome ∨ transactions.all fun t => t.idempotencyKey ≠ key)

section At

variable {db db' : Database} {phase : Phase} {a b : Agent} {o o' q : Order}
  {t? u? : Option BalanceTransaction} {t t' : BalanceTransaction} {es : List Event}
  {key transactionId : String}

theorem At.agent_eq (h : At db a o t?) (hb : b ∈ db.agents) (hid : b.id = a.id) : b = a :=
  Database.agent_ext hb h.agent hid

theorem At.order_eq (h : At db a o t?) (hq : q ∈ db.orders) (hid : q.id = o.id) : q = o :=
  Database.order_ext hq h.order hid

theorem Moved.at (h : Moved phase db db' b q o' u? t' es) (h₁ : OnePayment db)
    (hat : At db a o t?) (hid : q.id = o.id) (hb : b.id = a.id) :
    Move phase a o t? o' t' es ∧
      At db' { a with balance := a.balance + (es.map Event.delta).sum } o' (some t') := by
  obtain rfl := hat.order_eq h.order_mem hid
  obtain rfl := hat.agent_eq h.agent_mem hb
  obtain rfl : u? = t? := h.payment.symm.trans hat.payment
  refine ⟨h.move, h.mem_agents.mpr (Or.inl rfl), h.mem_orders.mpr (Or.inl rfl), ?_⟩
  rw [h.id]
  exact h.transactionOf_self h₁

theorem At.issueOrderHold_eq (hat : At db a o t?) (hown : o.agentId = a.id) :
    issueOrderHold db a.id o.id key transactionId = holdRows db o a t? key transactionId := by
  have ho : agentOrder db a.id o.id = some o := agentOrder_eq_some.mpr ⟨hat.order, rfl, hown⟩
  have ha : db.agent? a.id = some a := Database.agent?_eq_some.mpr ⟨hat.agent, rfl⟩
  simp only [issueOrderHold, ho, ha, hat.payment]

theorem At.issueOrderCapture_eq {ticket : ProviderTicket} {durationMs : ℤ}
    (hat : At db a o (some t)) (hown : o.agentId = a.id) :
    issueOrderCapture db a.id o.id key ticket durationMs =
      captureRows db o a t key ticket durationMs := by
  have ho : agentOrder db a.id o.id = some o := agentOrder_eq_some.mpr ⟨hat.order, rfl, hown⟩
  have ha : db.agent? a.id = some a := Database.agent?_eq_some.mpr ⟨hat.agent, rfl⟩
  simp only [issueOrderCapture, ho, ha, hat.payment]

theorem At.releaseHold_eq {error : String} (hat : At db a o (some t)) :
    releaseHold db a.id o.id error = releaseRows db o a t error := by
  have ho : db.order? o.id = some o := Database.order?_eq_some.mpr ⟨hat.order, rfl⟩
  have ha : db.agent? a.id = some a := Database.agent?_eq_some.mpr ⟨hat.agent, rfl⟩
  simp only [releaseHold, ho, ha, hat.payment]

theorem At.hold_moved {r : HoldResult} (hat : At db a o t?) (hs : o.status ≠ .issued)
    (h : issueOrderHold db a.id o.id key transactionId = .ok (r, db')) :
    ∃ t' debit, r = .held o.providerBookingId debit ∧
      Moved (.hold key) db db' a o (o.holding key) t? t'
        (debit.toList.map (.debited a.id o.id)) := by
  obtain ⟨q, b, hq, hqid, hbid, _, ⟨hqs, _⟩ | ⟨t', debit, hr, hm⟩⟩ := issueOrderHold_ok h
  · rw [hat.order_eq hq hqid] at hqs
    exact absurd hqs hs
  · obtain rfl := hat.order_eq hq hqid
    obtain rfl := hat.agent_eq hm.agent_mem hbid
    exact ⟨t', debit, hr, hat.payment ▸ hm⟩

theorem At.capture_moved {ticket : ProviderTicket} {durationMs : ℤ} {r : Issued}
    (hat : At db a o (some t)) (hs : o.status ≠ .issued)
    (h : issueOrderCapture db a.id o.id key ticket durationMs = .ok (r, db')) :
    ∃ kept, ticket.kept = some kept ∧ r = (o.ticketed kept, a, .captured) ∧
      Moved (.capture kept) db db' a o (o.ticketed kept) (some t) (t.withStatus .captured) [] := by
  obtain ⟨q, b, u, hq, hqid, hbid, _, hu, ⟨hqs, _⟩ | ⟨kept, hk, hr, hm⟩⟩ := issueOrderCapture_ok h
  · rw [hat.order_eq hq hqid] at hqs
    exact absurd hqs hs
  · obtain rfl := hat.order_eq hq hqid
    obtain rfl := hat.agent_eq hm.agent_mem hbid
    obtain rfl := Option.some.inj (hu.symm.trans hat.payment)
    exact ⟨kept, hk, hr, hm⟩

theorem At.release_moved {error : String} {amount : Money} (hat : At db a o (some t))
    (hown : o.agentId = a.id)
    (h : releaseHold db a.id o.id error = .ok (db', some amount)) :
    Moved .release db db' a o o.rebooked (some t) (t.withStatus .released)
      [.refunded a.id o.id t.amount] := by
  rw [hat.releaseHold_eq] at h
  rcases releaseRows_ok hat.order hat.agent hown hat.payment h with ⟨hr, _⟩ | ⟨_, hm⟩
  · cases hr
  · exact hm

theorem holdWrites_iff : holdWrites o a t? key = true ↔ o.status ≠ .issued ∧
    o.otherKey key = false ∧
    ((t?.any fun t => t.status ≠ .released) = true ∨ o.amount ≤ a.balance) := by
  simp [holdWrites]

theorem keyFree_iff {orders : List Order} {transactions : List BalanceTransaction} :
    keyFree orders transactions o t? key = true ↔
      (∀ p ∈ orders, p.issueIdempotencyKey = some key → p.id = o.id) ∧
        (t? = none → ∀ u ∈ transactions, u.idempotencyKey ≠ key) := by
  cases t? <;> simp [keyFree, or_iff_not_imp_left]

theorem exists_holdMoney
    (hb : (t?.any fun t => t.status ≠ .released) = true ∨ o.amount ≤ a.balance)
    (hid : ∀ u ∈ db.transactions, u.id ≠ transactionId)
    (hk : t? = none → ∀ u ∈ db.transactions, u.idempotencyKey ≠ key) :
    ∃ agents transactions debit, holdMoney db o a t? key transactionId =
      .ok ({ db with agents := agents, transactions := transactions }, debit) := by
  obtain ⟨tab, htab⟩ := Database.exists_updateAgent db
    (f := fun b => { b with balance := a.balance - o.amount }) a.id fun _ => rfl
  cases t? with
  | none =>
    have hnb : ¬ a.balance < o.amount := not_lt.mpr (by simpa using hb)
    obtain ⟨tab', htab'⟩ := Database.exists_insertTransaction
      { db with agents := tab }
      (t := ⟨transactionId, a.id, o.id, key, o.amount, o.currency, .held⟩) hid (hk rfl)
    refine ⟨tab, tab', some o.amount, ?_⟩
    simp only [holdMoney, if_neg hnb]
    exact bind_eq_ok.mpr ⟨_, htab, bind_eq_ok.mpr ⟨_, htab', rfl⟩⟩
  | some t =>
    by_cases hs : t.status = .released
    · have hnb : ¬ a.balance < o.amount := not_lt.mpr (by simpa [hs] using hb)
      obtain ⟨tab', htab'⟩ := Database.exists_updateTransaction
        { db with agents := tab } (f := fun t => { t with status := .held }) t.id
        fun _ => ⟨rfl, rfl⟩
      refine ⟨tab, tab', some o.amount, ?_⟩
      simp only [holdMoney, if_neg hnb, if_pos hs]
      exact bind_eq_ok.mpr ⟨_, htab, bind_eq_ok.mpr ⟨_, htab', rfl⟩⟩
    · refine ⟨db.agents, db.transactions, none, ?_⟩
      simp only [holdMoney, if_neg hs]

theorem At.exists_hold (hat : At db a o t?) (hown : o.agentId = a.id)
    (hw : holdWrites o a t? key = true) (hid : ∀ u ∈ db.transactions, u.id ≠ transactionId)
    (hfree : keyFree db.orders.rows db.transactions.rows o t? key = true) :
    ∃ debit db', issueOrderHold db a.id o.id key transactionId =
      .ok (.held o.providerBookingId debit, db') := by
  obtain ⟨hs, hkey, hb⟩ := holdWrites_iff.mp hw
  obtain ⟨hok, hk⟩ := keyFree_iff.mp hfree
  obtain ⟨agents, transactions, debit, hmoney⟩ := exists_holdMoney hb hid hk
  obtain ⟨tab, htab⟩ := Database.exists_updateOrder
    { db with agents := agents, transactions := transactions } (o := o)
    (f := fun o => { o with status := .issuing, issueIdempotencyKey := some key })
    hat.order (by
      intro p hp hne
      obtain ⟨hid, href, _, htk⟩ := Order.distinct_iff.mp
        (Database.orders_distinct hat.order hp hne)
      exact Order.distinct_iff.mpr ⟨hid, href, Or.inr fun he => hne (hok p hp he.symm), htk⟩)
  rw [hat.issueOrderHold_eq hown, holdRows, if_neg hs, if_neg (by simp [hkey])]
  exact ⟨debit, _, bind_eq_ok.mpr ⟨_, hmoney, bind_eq_ok.mpr ⟨_, htab, rfl⟩⟩⟩

theorem Moved.keyFree (h : Moved (.hold key) db db' a o o' t? t' es) :
    keyFree db.orders.rows db.transactions.rows o t? key = true := by
  have hkey : o'.issueIdempotencyKey = some key ∧ (t? = none → t'.idempotencyKey = key) := by
    cases h.move <;> simp [Order.holding, newHold]
  refine keyFree_iff.mpr ⟨fun p hp hpk => ?_, fun hn u hu huk => ?_⟩
  · by_contra hne
    have hp' := h.mem_orders.mpr (Or.inr ⟨hp, hne⟩)
    have ho' := h.mem_orders.mpr (Or.inl rfl)
    obtain rfl := Database.order_ext_of_key hp' ho' hpk hkey.1
    exact hne h.id
  · have hnew : u.orderId ≠ o.id := transactionOf_eq_none.mp (h.payment.trans hn) u hu
    rcases h.transactions with ⟨_, hr⟩ | ⟨_, hsome, _⟩
    · have hu' : u ∈ db'.transactions := by
        rw [Table.mem_def, hr]
        exact List.mem_append_left _ hu
      have ht' : t' ∈ db'.transactions := by simp [Table.mem_def, hr]
      obtain rfl := Database.transaction_ext_of_key hu' ht' (huk.trans (hkey.2 hn).symm)
      exact hnew h.orderId
    · rw [hn] at hsome
      cases hsome

theorem holdMoney_error {e : Failure}
    (hb : (t?.any fun t => t.status ≠ .released) = true ∨ o.amount ≤ a.balance)
    (h : holdMoney db o a t? key transactionId = .error e) : e = .integrityError := by
  cases t? with
  | none =>
    have hnb : ¬ a.balance < o.amount := not_lt.mpr (by simpa using hb)
    simp only [holdMoney, if_neg hnb] at h
    rcases bind_eq_error.mp h with h | ⟨_, _, h⟩
    · exact Database.writing_eq_error h
    · rcases bind_eq_error.mp h with h | ⟨_, _, h⟩
      · exact Database.writing_eq_error h
      · cases h
  | some t =>
    by_cases hs : t.status = .released
    · have hnb : ¬ a.balance < o.amount := not_lt.mpr (by simpa [hs] using hb)
      simp only [holdMoney, if_pos hs, if_neg hnb] at h
      rcases bind_eq_error.mp h with h | ⟨_, _, h⟩
      · exact Database.writing_eq_error h
      · rcases bind_eq_error.mp h with h | ⟨_, _, h⟩
        · exact Database.writing_eq_error h
        · cases h
    · simp only [holdMoney, if_neg hs] at h
      cases h

theorem At.hold_refused (hat : At db a o t?) (hown : o.agentId = a.id)
    (hw : holdWrites o a t? key = true)
    (hfree : keyFree db.orders.rows db.transactions.rows o t? key = false) :
    issueOrderHold db a.id o.id key transactionId = .error .integrityError := by
  obtain ⟨hs, hkey, hb⟩ := holdWrites_iff.mp hw
  cases hres : issueOrderHold db a.id o.id key transactionId with
  | ok r =>
    obtain ⟨_, _, _, hm⟩ := hat.hold_moved hs hres
    rw [hm.keyFree] at hfree
    cases hfree
  | error e =>
    rw [hat.issueOrderHold_eq hown, holdRows, if_neg hs, if_neg (by simp [hkey])] at hres
    rcases bind_eq_error.mp hres with h | ⟨_, _, h⟩
    · rw [holdMoney_error hb h]
    · rcases bind_eq_error.mp h with h | ⟨_, _, h⟩
      · rw [Database.writing_eq_error h]
      · cases h

theorem holdWrites_eq_false (hown : o.agentId = a.id) (hw : holdWrites o a t? key = false) :
    (∃ e, ∀ db transactionId, At db a o t? →
      issueOrderHold db a.id o.id key transactionId = .error e) ∨
    ∀ db transactionId, At db a o t? →
      issueOrderHold db a.id o.id key transactionId = .ok (.issued o a, db) := by
  by_cases hs : o.status = .issued
  · right
    intro db transactionId hat
    rw [hat.issueOrderHold_eq hown, holdRows, if_pos hs]
  · left
    cases hkey : o.otherKey key with
    | true =>
      refine ⟨.conflict "Order issue is already being processed with another idempotency key",
        fun db transactionId hat => ?_⟩
      rw [hat.issueOrderHold_eq hown, holdRows, if_neg hs, if_pos hkey]
    | false =>
      have hb : ¬ ((t?.any fun t => t.status ≠ .released) = true ∨ o.amount ≤ a.balance) := by
        intro hb
        rw [holdWrites_iff.mpr ⟨hs, hkey, hb⟩] at hw
        cases hw
      obtain ⟨hrel, hlt⟩ := not_or.mp hb
      have hlt := not_le.mp hlt
      cases t? with
      | none =>
        refine ⟨.insufficientBalance "Agent balance is insufficient"
          [("balance", a.balance.str), ("required", o.amount.str)],
          fun db transactionId hat => ?_⟩
        rw [hat.issueOrderHold_eq hown, holdRows, if_neg hs, hkey, if_neg Bool.false_ne_true]
        simp only [holdMoney, if_pos hlt]
        rfl
      | some t =>
        have hts : t.status = .released := by simpa using hrel
        refine ⟨.insufficientBalance "Agent balance is insufficient" [],
          fun db transactionId hat => ?_⟩
        rw [hat.issueOrderHold_eq hown, holdRows, if_neg hs, hkey, if_neg Bool.false_ne_true]
        simp only [holdMoney, if_pos hts, if_pos hlt]
        rfl

theorem At.exists_transaction {r : HoldResult} (hat : At db a o none) (hown : o.agentId = a.id)
    (hs : o.status ≠ .issued)
    (h : issueOrderHold db a.id o.id key transactionId = .ok (r, db')) :
    ∃ t ∈ db'.transactions, t.orderId = o.id ∧ t.id = transactionId := by
  rw [hat.issueOrderHold_eq hown, holdRows, if_neg hs] at h
  split at h
  · cases h
  · obtain ⟨⟨db₁, debit⟩, h₁, h⟩ := bind_eq_ok.mp h
    obtain ⟨db₂, h₂, h⟩ := bind_eq_ok.mp h
    obtain ⟨tab, _, rfl⟩ := updateOrder_rows h₂
    cases h
    simp only [holdMoney] at h₁
    split at h₁
    · cases h₁
    · obtain ⟨db₃, _, h₁⟩ := bind_eq_ok.mp h₁
      obtain ⟨db₄, h₄, h₁⟩ := bind_eq_ok.mp h₁
      obtain ⟨tab', hrows, rfl⟩ := insertTransaction_rows h₄
      cases h₁
      refine ⟨⟨transactionId, a.id, o.id, key, o.amount, o.currency, .held⟩, ?_, rfl, rfl⟩
      change _ ∈ tab'.rows
      rw [hrows]
      simp

theorem At.hold_id {r : HoldResult} (hat : At db a o none) (hs : o.status ≠ .issued)
    (h : issueOrderHold db a.id o.id key transactionId = .ok (r, db'))
    (hm : Moved (.hold key) db db' a o o' none t' es) (h₁ : OnePayment db) :
    t'.id = transactionId := by
  obtain ⟨t, ht, hto, htid⟩ := hat.exists_transaction hm.owner hs h
  have hself := (hm.mem_transactions h₁).mpr (Or.inl rfl)
  rw [← hm.onePayment h₁ t ht t' hself (hto.trans hm.orderId.symm), htid]

theorem At.exists_capture (key : String) {ticket kept : ProviderTicket} (durationMs : ℤ)
    (hat : At db a o (some t)) (hown : o.agentId = a.id) (hs : o.status ≠ .issued)
    (hk : ticket.kept = some kept)
    (htk : ∀ p ∈ db.orders, p.ticketNumber = some kept.ticketNumber → p.id = o.id) :
    ∃ result db', issueOrderCapture db a.id o.id key ticket durationMs = .ok (result, db') := by
  obtain ⟨tab, htab⟩ := Database.exists_updateOrder db (o := o)
    (f := fun o => { o with
      status := .issued
      ticketNumber := some kept.ticketNumber
      issuedAt := some kept.issuedAt }) hat.order (by
    intro p hp hne
    obtain ⟨hid, href, hkey, _⟩ := Order.distinct_iff.mp
      (Database.orders_distinct hat.order hp hne)
    exact Order.distinct_iff.mpr ⟨hid, href, hkey, Or.inr fun he => hne (htk p hp he.symm)⟩)
  obtain ⟨tab', htab'⟩ := Database.exists_updateTransaction { db with orders := tab }
    (f := fun t => { t with status := .captured }) t.id fun _ => ⟨rfl, rfl⟩
  rw [hat.issueOrderCapture_eq hown, captureRows, if_pos hs, hk]
  exact ⟨_, _, bind_eq_ok.mpr ⟨_, htab, bind_eq_ok.mpr ⟨_, htab', rfl⟩⟩⟩

theorem At.capture_untaken (key : String) {ticket : ProviderTicket} (durationMs : ℤ)
    (hat : At db a o (some t)) (hown : o.agentId = a.id) (hs : o.status ≠ .issued)
    (hk : ticket.kept = none) :
    issueOrderCapture db a.id o.id key ticket durationMs = .error .dbapiError := by
  rw [hat.issueOrderCapture_eq hown, captureRows, if_pos hs, hk]

theorem At.release_untaken {error : String} (hat : At db a o (some t)) (hs : t.status = .held)
    (he : ¬ Storable error) : releaseHold db a.id o.id error = .error .dbapiError := by
  rw [hat.releaseHold_eq, releaseRows, if_pos hs, if_neg he]

theorem At.exists_release {error : String} (hat : At db a o (some t)) (hs : t.status = .held)
    (he : Storable error) :
    ∃ db', releaseHold db a.id o.id error = .ok (db', some t.amount) := by
  obtain ⟨tab, htab⟩ := Database.exists_updateAgent db
    (f := fun b => { b with balance := a.balance + t.amount }) a.id fun _ => rfl
  obtain ⟨tab', htab'⟩ := Database.exists_updateTransaction { db with agents := tab }
    (f := fun t => { t with status := .released }) t.id fun _ => ⟨rfl, rfl⟩
  obtain ⟨tab'', htab''⟩ := Database.exists_updateOrder
    { db with agents := tab, transactions := tab' } (o := o)
    (f := fun o => { o with status := .booked }) hat.order (by
      intro p hp hne
      obtain ⟨hid, href, hkey, htk⟩ := Order.distinct_iff.mp
        (Database.orders_distinct hat.order hp hne)
      exact Order.distinct_iff.mpr ⟨hid, href, hkey, htk⟩)
  rw [hat.releaseHold_eq, releaseRows, if_pos hs, if_pos he]
  exact ⟨_, bind_eq_ok.mpr ⟨_, htab, bind_eq_ok.mpr ⟨_, htab', bind_eq_ok.mpr ⟨_, htab'', rfl⟩⟩⟩⟩

end At

/-! ## When a block writes what it was given -/

section Conditions

variable (db : Database) (agentId orderId key : String) (durationMs : ℤ)

end Conditions

end Ioka
