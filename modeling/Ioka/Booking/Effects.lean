import Ioka.Booking.Service

/-! # What a step of a booking request can do

Every commit of `issue_order` is one of five moves of an order together with its
payment: a first hold, a hold after a release, a hold joined by another request,
a capture and a release. A step of a request makes at most one of these moves,
and all invariants are derived from this description.
-/

namespace Ioka

open Relational

/-- The change of a balance that an event reports. -/
def Event.delta : Event → Money
  | .debited _ _ amount => -amount
  | .refunded _ _ amount => amount
  | _ => 0

def Order.holding (o : Order) (key : String) : Order :=
  { o with status := .issuing, issueIdempotencyKey := some key }

def Order.ticketed (o : Order) (ticket : ProviderTicket) : Order :=
  { o with status := .issued, ticketNumber := some ticket.ticketNumber,
           issuedAt := some ticket.issuedAt }

def Order.rebooked (o : Order) : Order := { o with status := .booked }

def BalanceTransaction.withStatus (t : BalanceTransaction) (s : PaymentStatus) :
    BalanceTransaction := { t with status := s }

/-- The transaction that a first hold inserts. -/
def newHold (o : Order) (key transactionId : String) : BalanceTransaction where
  id := transactionId
  agentId := o.agentId
  orderId := o.id
  idempotencyKey := key
  amount := o.amount
  currency := o.currency
  status := .held

/-- The phase of `issue_order` that a commit belongs to. -/
inductive Phase
  | hold (key : String)
  | capture (ticket : ProviderTicket)
  | release

/-- What a commit does to an order and its payment, and the money it moves. -/
inductive Move : Phase → Agent → Order → Option BalanceTransaction → Order →
    BalanceTransaction → List Event → Prop
  | debit {key transactionId : String} {a : Agent} {o : Order} : o.status ≠ .issued →
      o.otherKey key = false → o.amount ≤ a.balance →
      Move (.hold key) a o none (o.holding key) (newHold o key transactionId)
        [.debited a.id o.id o.amount]
  | debitAgain {key : String} {a : Agent} {o : Order} {t : BalanceTransaction} :
      o.status ≠ .issued → o.otherKey key = false → o.amount ≤ a.balance →
      t.status = .released →
      Move (.hold key) a o (some t) (o.holding key) (t.withStatus .held)
        [.debited a.id o.id o.amount]
  | join {key : String} {a : Agent} {o : Order} {t : BalanceTransaction} :
      o.status ≠ .issued → o.otherKey key = false → t.status ≠ .released →
      Move (.hold key) a o (some t) (o.holding key) t []
  | capture {ticket : ProviderTicket} {a : Agent} {o : Order} {t : BalanceTransaction} :
      o.status ≠ .issued →
      Move (.capture ticket) a o (some t) (o.ticketed ticket) (t.withStatus .captured) []
  | release {a : Agent} {o : Order} {t : BalanceTransaction} : t.status = .held →
      Move .release a o (some t) o.rebooked (t.withStatus .released)
        [.refunded a.id o.id t.amount]

/-- The rows of a database before and after a commit that writes one order, its agent's balance
and its payment. -/
structure Written (db db' : Database) (a : Agent) (o o' : Order)
    (t : Option BalanceTransaction) (t' : BalanceTransaction) (delta : Money) : Prop where
  agent_mem : a ∈ db.agents
  order_mem : o ∈ db.orders
  payment : db.transactionOf o.id = t
  id : o'.id = o.id
  agentId : o'.agentId = o.agentId
  orderId : t'.orderId = o.id
  agents : db'.agents.rows = amend (fun b => b.id = a.id)
    (fun b => { b with balance := b.balance + delta }) db.agents.rows
  orders : db'.orders.rows = amend (fun p => p.id = o.id) (fun _ => o') db.orders.rows
  transactions : (t = none ∧ db'.transactions.rows = db.transactions.rows ++ [t']) ∨
    ∃ u, t = some u ∧
      db'.transactions.rows = amend (fun v => v.id = u.id) (fun _ => t') db.transactions.rows
  searches : db'.searches = db.searches
  offers : db'.offers = db.offers
  records : db'.records = db.records

/-- A commit that is a move of an order of the agent. -/
structure Moved (phase : Phase) (db db' : Database) (a : Agent) (o o' : Order)
    (t : Option BalanceTransaction) (t' : BalanceTransaction) (es : List Event) : Prop extends
    Written db db' a o o' t t' (es.map Event.delta).sum where
  move : Move phase a o t o' t' es
  owner : o.agentId = a.id

section Blocks

variable {db db' : Database} {a : Agent} {o : Order} {t : BalanceTransaction}
  {agentId orderId key transactionId : String}

theorem agentOrder_eq_some : agentOrder db agentId orderId = some o ↔
    o ∈ db.orders ∧ o.id = orderId ∧ o.agentId = agentId := by
  rw [agentOrder, Table.select_eq_some]
  · simp
  · intro o ho p hp h₁ h₂
    simp only [Bool.decide_and, Bool.and_eq_true, decide_eq_true_eq] at h₁ h₂
    exact Database.order_ext ho hp (h₁.1.trans h₂.1.symm)

theorem mem_of_transactionOf (h : db.transactionOf orderId = some t) :
    t ∈ db.transactions ∧ t.orderId = orderId := by
  obtain ⟨hm, hp⟩ := Table.mem_of_select h
  exact ⟨hm, by simpa using hp⟩

theorem updateAgent_rows {f : Agent → Agent} (h : db.updateAgent agentId f = .ok db') :
    ∃ tab : Table Agent.uniques, tab.rows = amend (fun b => b.id = agentId) f db.agents.rows ∧
      db' = { db with agents := tab } := by
  obtain ⟨tab, ht, rfl⟩ := Database.writing_eq_ok.mp h
  exact ⟨tab, Table.update?_eq_some.mp ht, rfl⟩

theorem updateOrder_rows {f : Order → Order} (h : db.updateOrder orderId f = .ok db') :
    ∃ tab : Table Order.uniques, tab.rows = amend (fun p => p.id = orderId) f db.orders.rows ∧
      db' = { db with orders := tab } := by
  obtain ⟨tab, ht, rfl⟩ := Database.writing_eq_ok.mp h
  exact ⟨tab, Table.update?_eq_some.mp ht, rfl⟩

theorem updateTransaction_rows {f : BalanceTransaction → BalanceTransaction}
    (h : db.updateTransaction transactionId f = .ok db') :
    ∃ tab : Table BalanceTransaction.uniques,
      tab.rows = amend (fun u => u.id = transactionId) f db.transactions.rows ∧
      db' = { db with transactions := tab } := by
  obtain ⟨tab, ht, rfl⟩ := Database.writing_eq_ok.mp h
  exact ⟨tab, Table.update?_eq_some.mp ht, rfl⟩

theorem insertTransaction_rows (h : db.insertTransaction t = .ok db') :
    ∃ tab : Table BalanceTransaction.uniques, tab.rows = db.transactions.rows ++ [t] ∧
      db' = { db with transactions := tab } := by
  obtain ⟨tab, ht, rfl⟩ := Database.writing_eq_ok.mp h
  exact ⟨tab, Table.insert?_eq_some.mp ht, rfl⟩

theorem amend_order_eq {f : Order → Order} (ho : o ∈ db.orders) :
    amend (fun p => p.id = o.id) f db.orders.rows =
      amend (fun p => p.id = o.id) (fun _ => f o) db.orders.rows :=
  amend_congr fun p hp h => by rw [Database.order_ext hp ho (by simpa using h)]

theorem amend_transaction_eq {f : BalanceTransaction → BalanceTransaction}
    (ht : t ∈ db.transactions) :
    amend (fun u => u.id = t.id) f db.transactions.rows =
      amend (fun u => u.id = t.id) (fun _ => f t) db.transactions.rows :=
  amend_congr fun u hu h => by rw [Database.transaction_ext hu ht (by simpa using h)]

theorem amend_agent_eq {f g : Agent → Agent} (ha : a ∈ db.agents) (h : f a = g a) :
    amend (fun b => b.id = a.id) f db.agents.rows =
      amend (fun b => b.id = a.id) g db.agents.rows :=
  amend_congr fun b hb hid => by rw [Database.agent_ext hb ha (by simpa using hid), h]

theorem amend_balance_zero (l : List Agent) :
    amend (fun b => b.id = agentId) (fun b => { b with balance := b.balance + 0 }) l = l := by
  simp [amend]

theorem holdMoney_ok {t? : Option BalanceTransaction} {debit : Option Money} (ha : a ∈ db.agents)
    (hown : o.agentId = a.id) (ht : db.transactionOf o.id = t?) (hs : o.status ≠ .issued)
    (hk : o.otherKey key = false)
    (h : holdMoney db o a t? key transactionId = .ok (db', debit)) :
    ∃ t', Move (.hold key) a o t? (o.holding key) t' (debit.toList.map (.debited a.id o.id)) ∧
      t'.orderId = o.id ∧ db'.agents.rows = amend (fun b => b.id = a.id) (fun b => { b with
        balance := b.balance + ((debit.toList.map (.debited a.id o.id)).map Event.delta).sum })
        db.agents.rows ∧
      ((t? = none ∧ db'.transactions.rows = db.transactions.rows ++ [t']) ∨
        ∃ u, t? = some u ∧ db'.transactions.rows =
          amend (fun v => v.id = u.id) (fun _ => t') db.transactions.rows) ∧
      db'.orders = db.orders ∧ db'.searches = db.searches ∧ db'.offers = db.offers ∧
      db'.records = db.records := by
  unfold holdMoney at h
  cases t? with
  | none =>
    simp only at h
    split at h
    · cases h
    · rename_i hb
      obtain ⟨db₁, h₁, h⟩ := bind_eq_ok.mp h
      obtain ⟨db₂, h₂, h⟩ := bind_eq_ok.mp h
      obtain ⟨_, hr₁, rfl⟩ := updateAgent_rows h₁
      obtain ⟨_, hr₂, rfl⟩ := insertTransaction_rows h₂
      cases h
      refine ⟨newHold o key transactionId, .debit hs hk (not_lt.mp hb), rfl, hr₁.trans ?_,
        Or.inl ⟨rfl, ?_⟩, rfl, rfl, rfl, rfl⟩
      · exact amend_agent_eq ha (by simp [Event.delta, sub_eq_add_neg])
      · simpa [newHold, hown] using hr₂
  | some t =>
    obtain ⟨hmt, hot⟩ := mem_of_transactionOf ht
    simp only at h
    split at h
    · rename_i hrel
      split at h
      · cases h
      · rename_i hb
        obtain ⟨db₁, h₁, h⟩ := bind_eq_ok.mp h
        obtain ⟨db₂, h₂, h⟩ := bind_eq_ok.mp h
        obtain ⟨_, hr₁, rfl⟩ := updateAgent_rows h₁
        obtain ⟨_, hr₂, rfl⟩ := updateTransaction_rows h₂
        cases h
        refine ⟨t.withStatus .held, .debitAgain hs hk (not_lt.mp hb) hrel, hot, hr₁.trans ?_,
          Or.inr ⟨t, rfl, hr₂.trans (amend_transaction_eq hmt)⟩, rfl, rfl, rfl, rfl⟩
        exact amend_agent_eq ha (by simp [Event.delta, sub_eq_add_neg])
    · rename_i hrel
      cases h
      refine ⟨t, .join hs hk hrel, hot, (amend_balance_zero _).symm, Or.inr ⟨t, rfl, ?_⟩, rfl,
        rfl, rfl, rfl⟩
      have he := amend_transaction_eq (f := fun u => u) hmt
      rw [← he]
      simp [amend]

theorem holdRows_ok {r : HoldResult} (ho : o ∈ db.orders) (ha : a ∈ db.agents)
    (hown : o.agentId = a.id)
    (h : holdRows db o a (db.transactionOf o.id) key transactionId = .ok (r, db')) :
    (o.status = .issued ∧ r = .issued o a ∧ db' = db) ∨
    ∃ t' debit, r = .held o.providerBookingId debit ∧
      Moved (.hold key) db db' a o (o.holding key) (db.transactionOf o.id) t'
        (debit.toList.map (.debited a.id o.id)) := by
  unfold holdRows at h
  split at h
  · rename_i hs
    cases h
    exact Or.inl ⟨hs, rfl, rfl⟩
  · rename_i hs
    split at h
    · cases h
    · rename_i hk
      right
      obtain ⟨⟨db₁, debit⟩, h₁, h⟩ := bind_eq_ok.mp h
      obtain ⟨db₂, h₂, h⟩ := bind_eq_ok.mp h
      obtain ⟨t', hm, hto, hag, htr, hord, hsea, hoff, hrec⟩ :=
        holdMoney_ok ha hown rfl hs (by simpa using hk) h₁
      obtain ⟨tab, hr, rfl⟩ := updateOrder_rows h₂
      cases h
      rw [hord] at hr
      exact ⟨t', debit, rfl, ⟨ha, ho, rfl, rfl, rfl, hto, hag, hr.trans (amend_order_eq ho), htr,
        hsea, hoff, hrec⟩, hm, hown⟩

theorem captureRows_ok {ticket : ProviderTicket} {durationMs : ℤ} {r : Issued}
    (ho : o ∈ db.orders) (ha : a ∈ db.agents) (hown : o.agentId = a.id)
    (ht : db.transactionOf o.id = some t)
    (h : captureRows db o a t key ticket durationMs = .ok (r, db')) :
    (o.status = .issued ∧ r = (o, a, t.status) ∧ db' = db) ∨
    ∃ kept, ticket.kept = some kept ∧ r = (o.ticketed kept, a, .captured) ∧
      Moved (.capture kept) db db' a o (o.ticketed kept) (some t) (t.withStatus .captured) [] := by
  unfold captureRows at h
  split at h
  · rename_i hs
    right
    split at h
    · cases h
    · rename_i kept hkept
      obtain ⟨db₁, h₁, h⟩ := bind_eq_ok.mp h
      obtain ⟨db₂, h₂, h⟩ := bind_eq_ok.mp h
      obtain ⟨_, hr₁, rfl⟩ := updateOrder_rows h₁
      obtain ⟨_, hr₂, rfl⟩ := updateTransaction_rows h₂
      cases h
      obtain ⟨hmt, hto⟩ := mem_of_transactionOf ht
      exact ⟨kept, hkept, rfl, ⟨ha, ho, ht, rfl, rfl, hto, (amend_balance_zero _).symm,
        hr₁.trans (amend_order_eq ho), Or.inr ⟨t, rfl, hr₂.trans (amend_transaction_eq hmt)⟩, rfl,
        rfl, rfl⟩, .capture hs, hown⟩
  · rename_i hs
    cases h
    exact Or.inl ⟨not_not.mp hs, rfl, rfl⟩

theorem captureRows_error {ticket : ProviderTicket} {durationMs : ℤ} {e : Failure}
    (h : captureRows db o a t key ticket durationMs = .error e) :
    e = .integrityError ∨ e = .dbapiError := by
  unfold captureRows at h
  split at h
  · split at h
    · cases h
      exact Or.inr rfl
    · left
      rcases bind_eq_error.mp h with h₁ | ⟨db₁, _, h⟩
      · exact Database.writing_eq_error h₁
      · rcases bind_eq_error.mp h with h₂ | ⟨db₂, _, h⟩
        · exact Database.writing_eq_error h₂
        · cases h
  · cases h

theorem releaseRows_written {error : String} {refund : Option Money} (ho : o ∈ db.orders)
    (ha : a ∈ db.agents) (ht : db.transactionOf o.id = some t)
    (h : releaseRows db o a t error = .ok (db', refund)) :
    (refund = none ∧ db' = db ∧ t.status ≠ .held) ∨
    (refund = some t.amount ∧ t.status = .held ∧
      Written db db' a o o.rebooked (some t) (t.withStatus .released) t.amount) := by
  unfold releaseRows at h
  split at h
  · rename_i hs
    right
    split at h
    · obtain ⟨db₁, h₁, h⟩ := bind_eq_ok.mp h
      obtain ⟨db₂, h₂, h⟩ := bind_eq_ok.mp h
      obtain ⟨db₃, h₃, h⟩ := bind_eq_ok.mp h
      obtain ⟨_, hr₁, rfl⟩ := updateAgent_rows h₁
      obtain ⟨_, hr₂, rfl⟩ := updateTransaction_rows h₂
      obtain ⟨_, hr₃, rfl⟩ := updateOrder_rows h₃
      cases h
      obtain ⟨hmt, hto⟩ := mem_of_transactionOf ht
      refine ⟨rfl, hs, ha, ho, ht, rfl, rfl, hto, hr₁.trans ?_, hr₃.trans (amend_order_eq ho),
        Or.inr ⟨t, rfl, hr₂.trans (amend_transaction_eq hmt)⟩, rfl, rfl, rfl⟩
      exact amend_agent_eq ha rfl
    · cases h
  · rename_i hs
    cases h
    exact Or.inl ⟨rfl, rfl, hs⟩

theorem releaseRows_ok {error : String} {refund : Option Money} (ho : o ∈ db.orders)
    (ha : a ∈ db.agents) (hown : o.agentId = a.id) (ht : db.transactionOf o.id = some t)
    (h : releaseRows db o a t error = .ok (db', refund)) :
    (refund = none ∧ db' = db ∧ t.status ≠ .held) ∨
    (refund = some t.amount ∧
      Moved .release db db' a o o.rebooked (some t) (t.withStatus .released)
        [.refunded a.id o.id t.amount]) := by
  rcases releaseRows_written ho ha ht h with hn | ⟨hr, hs, hw⟩
  · exact Or.inl hn
  · have hsum : ([Event.refunded a.id o.id t.amount].map Event.delta).sum = t.amount := by
      simp [Event.delta]
    exact Or.inr ⟨hr, hsum.symm ▸ hw, .release hs, hown⟩

theorem issueOrderHold_ok {r : HoldResult}
    (h : issueOrderHold db agentId orderId key transactionId = .ok (r, db')) :
    ∃ o a, o ∈ db.orders ∧ o.id = orderId ∧ a.id = agentId ∧ o.agentId = agentId ∧
      ((o.status = .issued ∧ r = .issued o a ∧ db' = db) ∨
        ∃ t' debit, r = .held o.providerBookingId debit ∧
          Moved (.hold key) db db' a o (o.holding key) (db.transactionOf o.id) t'
            (debit.toList.map (.debited agentId orderId))) := by
  unfold issueOrderHold at h
  split at h
  · cases h
  · rename_i o ho
    split at h
    · cases h
    · rename_i a ha
      obtain ⟨hmo, rfl, hown⟩ := agentOrder_eq_some.mp ho
      obtain ⟨hma, rfl⟩ := Database.agent?_eq_some.mp ha
      exact ⟨o, a, hmo, rfl, rfl, hown, holdRows_ok hmo hma hown h⟩

theorem issueOrderCapture_ok {ticket : ProviderTicket} {durationMs : ℤ} {r : Issued}
    (h : issueOrderCapture db agentId orderId key ticket durationMs = .ok (r, db')) :
    ∃ o a t, o ∈ db.orders ∧ o.id = orderId ∧ a.id = agentId ∧ o.agentId = agentId ∧
      db.transactionOf o.id = some t ∧
      ((o.status = .issued ∧ r = (o, a, t.status) ∧ db' = db) ∨
        ∃ kept, ticket.kept = some kept ∧ r = (o.ticketed kept, a, .captured) ∧
          Moved (.capture kept) db db' a o (o.ticketed kept) (some t) (t.withStatus .captured)
            []) := by
  unfold issueOrderCapture at h
  split at h
  · rename_i o a t ho ha ht
    obtain ⟨hmo, rfl, hown⟩ := agentOrder_eq_some.mp ho
    obtain ⟨hma, rfl⟩ := Database.agent?_eq_some.mp ha
    exact ⟨o, a, t, hmo, rfl, rfl, hown, ht, captureRows_ok hmo hma hown ht h⟩
  · cases h

theorem releaseHold_written {error : String} {refund : Option Money}
    (h : releaseHold db agentId orderId error = .ok (db', refund)) :
    db' = db ∨ ∃ o a t, o.id = orderId ∧
      Written db db' a o o.rebooked (some t) (t.withStatus .released) t.amount := by
  unfold releaseHold at h
  split at h
  · rename_i o a t ho ha ht
    obtain ⟨hmo, rfl⟩ := Database.order?_eq_some.mp ho
    obtain ⟨hma, rfl⟩ := Database.agent?_eq_some.mp ha
    rcases releaseRows_written hmo hma ht h with ⟨_, rfl, _⟩ | ⟨_, _, hw⟩
    · exact Or.inl rfl
    · exact Or.inr ⟨o, a, t, rfl, hw⟩
  · cases h
    exact Or.inl rfl

theorem releaseHold_ok {error : String} {refund : Option Money}
    (hown : ∀ o ∈ db.orders, o.id = orderId → o.agentId = agentId)
    (h : releaseHold db agentId orderId error = .ok (db', refund)) :
    (refund = none ∧ db' = db) ∨
    ∃ o a t, o.id = orderId ∧ a.id = agentId ∧ refund = some t.amount ∧
      Moved .release db db' a o o.rebooked (some t) (t.withStatus .released)
        [.refunded agentId orderId t.amount] := by
  unfold releaseHold at h
  split at h
  · rename_i o a t ho ha ht
    obtain ⟨hmo, rfl⟩ := Database.order?_eq_some.mp ho
    obtain ⟨hma, rfl⟩ := Database.agent?_eq_some.mp ha
    rcases releaseRows_ok hmo hma (hown o hmo rfl) ht h with ⟨rfl, rfl, _⟩ | ⟨hr, hm⟩
    · exact Or.inl ⟨rfl, rfl⟩
    · exact Or.inr ⟨o, a, t, rfl, rfl, hr, hm⟩
  · cases h
    exact Or.inl ⟨rfl, rfl⟩

end Blocks

end Ioka
