import Mathlib.Algebra.Order.BigOperators.Group.List
import Ioka.Booking.Reachable

/-! # The ledger of debits and refunds

The money moved on behalf of an order is a debit and a refund in turn, and the
status of its payment tells which of the two comes next. A balance is therefore
the initial one less the amounts of the orders whose last movement is a debit.
-/

namespace Ioka

open Relational Transition

/-! ## Movements -/

def Event.orderId? : Event → Option String
  | .debited _ orderId _ | .refunded _ orderId _ => some orderId
  | _ => none

/-- The balance changes made on behalf of an order, oldest first. -/
def movements (history : List Event) (orderId : String) : List Event :=
  history.filter fun e => e.orderId? = some orderId

def Event.agentId? : Event → Option String
  | .debited agentId _ _ | .refunded agentId _ _ => some agentId
  | _ => none

/-- The sum of all balance changes of an agent. -/
def netChange (history : List Event) (agentId : String) : Money :=
  ((history.filter fun e => e.agentId? = some agentId).map Event.delta).sum

/-- A debit, a refund, a debit and so on, each of the order's amount. -/
def alternating (o : Order) (n : ℕ) : List Event :=
  (List.range n).map fun i =>
    if i % 2 = 0 then .debited o.agentId o.id o.amount else .refunded o.agentId o.id o.amount

/-- The money of the order has been debited once more than refunded. -/
def taken (history : List Event) (orderId : String) : Bool :=
  (movements history orderId).length % 2 = 1

/-- What an order holds of the balance of an agent. -/
def owed (history : List Event) (agentId : String) (o : Order) : Money :=
  if o.agentId = agentId ∧ taken history o.id then o.amount else 0

section Movements

variable {h es : List Event} {orderId : String} {o o' : Order} {n : ℕ}

theorem movements_append :
    movements (h ++ es) orderId = movements h orderId ++ movements es orderId :=
  List.filter_append ..

theorem movements_of_forall (hes : ∀ e ∈ es, e.orderId? = some orderId) :
    movements es orderId = es := by
  rw [movements, List.filter_eq_self]
  simpa using hes

theorem movements_eq_nil (hes : ∀ e ∈ es, e.orderId? ≠ some orderId) :
    movements es orderId = [] := by
  rw [movements, List.filter_eq_nil_iff]
  simpa using hes

theorem Event.CalledBy.orderId? {e : Event} {p : Request} (he : e.CalledBy p) :
    e.orderId? = none := by
  cases e <;> first | rfl | exact he.elim

theorem netChange_append {agentId : String} :
    netChange (h ++ es) agentId = netChange h agentId + netChange es agentId := by
  rw [netChange, List.filter_append, List.map_append, List.sum_append]
  rfl

theorem netChange_eq_zero {agentId : String} (hes : ∀ e ∈ es, e.agentId? = none) :
    netChange es agentId = 0 := by
  have hn : es.filter (fun e => e.agentId? = some agentId) = [] := by
    rw [List.filter_eq_nil_iff]
    intro e he
    simp [hes e he]
  rw [netChange, hn]
  rfl

theorem Event.CalledBy.agentId? {e : Event} {p : Request} (he : e.CalledBy p) :
    e.agentId? = none := by
  cases e <;> first | rfl | exact he.elim

theorem alternating_succ : alternating o (n + 1) = alternating o n ++
    [if n % 2 = 0 then .debited o.agentId o.id o.amount
      else .refunded o.agentId o.id o.amount] := by
  rw [alternating, List.range_succ, List.map_append]
  rfl

theorem getLast?_alternating (hn : n % 2 = 1) :
    (alternating o n).getLast? = some (.debited o.agentId o.id o.amount) := by
  obtain ⟨m, rfl⟩ : ∃ m, n = m + 1 := ⟨n - 1, by omega⟩
  have hm : m % 2 = 0 := by omega
  rw [alternating_succ, if_pos hm, List.getLast?_concat]

theorem SameBooking.alternating_eq (hs : SameBooking o o') :
    alternating o' n = alternating o n := by
  rw [alternating, alternating, hs.id, hs.agentId, hs.amount]

theorem SameBooking.owed_eq {agentId : String} (hs : SameBooking o o') :
    owed h agentId o' = owed h agentId o := by
  rw [owed, owed, hs.id, hs.agentId, hs.amount]

theorem owed_congr {h' : List Event} {agentId : String}
    (hm : ∀ id, movements h' id = movements h id) : owed h' agentId = owed h agentId := by
  funext o
  rw [owed, owed, taken, taken, hm]

end Movements

theorem Move.orderId?_of_mem {phase : Phase} {a : Agent} {o o' : Order}
    {t? : Option BalanceTransaction} {t' : BalanceTransaction} {es : List Event}
    (h : Move phase a o t? o' t' es) : ∀ e ∈ es, e.orderId? = some o.id := by
  cases h <;> simp [Event.orderId?]

theorem Move.netChange {phase : Phase} {a : Agent} {o o' : Order} {t? : Option BalanceTransaction}
    {t' : BalanceTransaction} {es : List Event} (h : Move phase a o t? o' t' es) (id : String) :
    netChange es id = if a.id = id then (es.map Event.delta).sum else 0 := by
  cases h <;> simp [Ioka.netChange, Event.agentId?, List.filter_cons] <;> split <;> simp_all

/-! ## The invariant -/

/-- How often money was moved for a payment of the given status. -/
def Counted : Option PaymentStatus → ℕ → Prop
  | none, n => n = 0
  | some .held, n => n % 2 = 1
  | some .released, n => n % 2 = 0
  | some .captured, _ => True

/-- The movements of every order alternate, in step with its payment. -/
structure Ledger (w : World) : Prop where
  alternates : ∀ o ∈ w.db.orders,
    movements w.history o.id = alternating o (movements w.history o.id).length
  counted : ∀ o ∈ w.db.orders,
    Counted ((w.db.transactionOf o.id).map (·.status)) (movements w.history o.id).length
  stored : ∀ e ∈ w.history, ∀ id, e.orderId? = some id → ∃ o ∈ w.db.orders, o.id = id

section Step

variable {w w' : World} {phase : Phase} {db' : Database} {a : Agent} {o o' p : Order}
  {t? : Option BalanceTransaction} {t' : BalanceTransaction} {es : List Event}
  {sha256 : String → String} {q : Request}

theorem Move.alternates {n : ℕ} (h : Move phase a o t? o' t' es) (hs : Standing o t?)
    (hown : o.agentId = a.id) (hn : Counted (t?.map (·.status)) n) :
    alternating o n ++ es = alternating o (n + es.length) ∧
      Counted (some t'.status) (n + es.length) := by
  cases h with
  | debit =>
    obtain rfl : n = 0 := hn
    simp [alternating, hown, Counted, newHold]
  | debitAgain _ _ _ hr =>
    have he : n % 2 = 0 := by simpa [Counted, hr] using hn
    refine ⟨by simp [alternating_succ, he, hown], ?_⟩
    simp only [Counted, BalanceTransaction.withStatus, List.length_singleton]
    omega
  | join => exact ⟨by simp, hn⟩
  | capture => exact ⟨by simp, trivial⟩
  | @release _ _ t hh =>
    have he : n % 2 = 1 := by simpa [Counted, hh] using hn
    have ham : t.amount = o.amount := (hs.payment t rfl).1
    refine ⟨by simp [alternating_succ, he, hown, ham], ?_⟩
    simp only [Counted, BalanceTransaction.withStatus, List.length_singleton]
    omega

theorem Moved.movements_self (h : Moved phase w.db db' a o o' t? t' es) :
    movements (w.history ++ es) o.id = movements w.history o.id ++ es := by
  rw [movements_append, movements_of_forall h.move.orderId?_of_mem]

theorem Moved.movements_of_ne {id : String} (h : Moved phase w.db db' a o o' t? t' es)
    (hne : id ≠ o.id) : movements (w.history ++ es) id = movements w.history id := by
  have hes : movements es id = [] := by
    apply movements_eq_nil
    intro e he
    rw [h.move.orderId?_of_mem e he]
    exact fun hid => hne (Option.some.inj hid).symm
  rw [movements_append, hes, List.append_nil]

theorem Moved.ledger (h : Moved phase w.db db' a o o' t? t' es) (hc : Coupled w.db)
    (hl : Ledger w) : Ledger (w.commit db' es) := by
  have hid : o'.id = o.id := h.move.sameBooking.id
  have hstep := h.move.alternates (n := (movements w.history o.id).length)
    (h.payment ▸ hc.standing o h.order_mem) h.owner (h.payment ▸ hl.counted o h.order_mem)
  refine ⟨fun p hp => ?_, fun p hp => ?_, ?_⟩
  · rcases h.mem_orders.mp hp with rfl | ⟨hp, hne⟩
    · rw [World.commit_history, hid, h.movements_self, List.length_append,
        h.move.sameBooking.alternating_eq, ← hstep.1, ← hl.alternates o h.order_mem]
    · rw [World.commit_history, h.movements_of_ne hne]
      exact hl.alternates p hp
  · rcases h.mem_orders.mp hp with rfl | ⟨hp, hne⟩
    · rw [World.commit_history, World.commit_db, hid, h.movements_self, List.length_append,
        h.transactionOf_self hc.onePayment]
      exact hstep.2
    · rw [World.commit_history, World.commit_db, h.movements_of_ne hne,
        h.transactionOf_of_ne hne]
      exact hl.counted p hp
  · intro e he id heid
    rcases List.mem_append.mp he with he | he
    · obtain ⟨p, hp, rfl⟩ := hl.stored e he id heid
      by_cases hpo : p.id = o.id
      · exact ⟨o', h.mem_orders.mpr (Or.inl rfl), hid.trans hpo.symm⟩
      · exact ⟨p, h.mem_orders.mpr (Or.inr ⟨hp, hpo⟩), rfl⟩
    · rw [h.move.orderId?_of_mem e he] at heid
      exact ⟨o', h.mem_orders.mpr (Or.inl rfl), hid.trans (Option.some.inj heid)⟩

theorem Ledger.movements_eq_nil (hl : Ledger w) {id : String}
    (h : ∀ o ∈ w.db.orders, o.id ≠ id) : movements w.history id = [] := by
  apply Ioka.movements_eq_nil
  intro e he heid
  obtain ⟨o, ho, hid⟩ := hl.stored e he id heid
  exact h o ho hid

theorem movements_called {id : String} {q : Request} (hes : ∀ e ∈ es, e.CalledBy q) :
    movements (w.history ++ es) id = movements w.history id := by
  have hn : movements es id = [] := by
    apply Ioka.movements_eq_nil
    intro e he
    simp [(hes e he).orderId?]
  rw [movements_append, hn, List.append_nil]

theorem movements_created {agentId key orderId id : String} {payload : OrderCreate} :
    movements (w.history ++ [.orderCommitted agentId key payload orderId]) id =
      movements w.history id := by
  have hn : movements [Event.orderCommitted agentId key payload orderId] id = [] := by
    apply Ioka.movements_eq_nil
    simp [Event.orderId?]
  rw [movements_append, hn, List.append_nil]

theorem Created.ledger {r : IdempotencyRecord} {agentId key orderId : String}
    {payload : OrderCreate} (h : Created w.db db' o r) (hn : o.New) (hc : Coupled w.db)
    (hl : Ledger w) :
    Ledger (w.commit db' [.orderCommitted agentId key payload orderId]) := by
  have hnil : movements w.history o.id = [] :=
    hl.movements_eq_nil fun p hp => h.fresh hp
  refine ⟨fun p hp => ?_, fun p hp => ?_, ?_⟩
  · rw [World.commit_history, movements_created]
    rcases h.mem_orders.mp hp with hp | rfl
    · exact hl.alternates p hp
    · simp [hnil, alternating]
  · rw [World.commit_history, World.commit_db, movements_created, h.transactionOf]
    rcases h.mem_orders.mp hp with hp | rfl
    · exact hl.counted p hp
    · rw [h.transactionOf_self hc, hnil]
      exact rfl
  · intro e he id heid
    rcases List.mem_append.mp he with he | he
    · obtain ⟨p, hp, hid⟩ := hl.stored e he id heid
      exact ⟨p, h.mem_orders.mpr (Or.inl hp), hid⟩
    · rw [List.mem_singleton.mp he] at heid
      cases heid

theorem Effect.ledger (h : Effect sha256 w q w') (hc : Coupled w.db) (hl : Ledger w) :
    Ledger w' := by
  cases h with
  | quiet hes =>
    refine ⟨fun p hp => ?_, fun p hp => ?_, fun e he id heid => ?_⟩
    · rw [World.commit_history, movements_called hes]
      exact hl.alternates p hp
    · rw [World.commit_history, movements_called hes]
      exact hl.counted p hp
    · rcases List.mem_append.mp he with he | he
      · exact hl.stored e he id heid
      · rw [(hes e he).orderId?] at heid
        cases heid
  | moved _ _ _ hm => exact hm.ledger hc hl
  | created _ _ hcr => exact hcr.ledger (newOrder_new ..) hc hl

theorem Unpaid.ledger (h : Unpaid w.db) (hh : w.history = []) : Ledger w := by
  refine ⟨fun o _ => ?_, fun o _ => ?_, ?_⟩
  · simp [hh, movements, alternating]
  · rw [h.transactionOf, hh]
    exact rfl
  · simp [hh]

end Step

/-! ## Balances -/

section Balance

variable {w w' : World} {phase : Phase} {db db' : Database} {a b : Agent} {o o' p : Order}
  {t? : Option BalanceTransaction} {t' : BalanceTransaction} {es : List Event}
  {sha256 : String → String} {q : Request}

theorem Moved.sum_orders (h : Moved phase db db' a o o' t? t' es) (g : Order → Money) :
    (db'.orders.rows.map g).sum = (db.orders.rows.map g).sum + (g o' - g o) := by
  rw [h.orders, sum_map_amend Database.orders_nodup h.order_mem]
  intro p hp
  rw [decide_eq_true_eq]
  exact ⟨Database.order_ext hp h.order_mem, by rintro rfl; rfl⟩

theorem Moved.owed (h : Moved phase w.db db' a o o' t? t' es) (hc : Coupled w.db)
    (hl : Ledger w) (id : String) :
    (db'.orders.rows.map (Ioka.owed (w.history ++ es) id)).sum =
      (w.db.orders.rows.map (Ioka.owed w.history id)).sum -
        if a.id = id then (es.map Event.delta).sum else 0 := by
  have hb := h.move.sameBooking
  have hother : ∀ p ∈ w.db.orders.rows, p ≠ o →
      Ioka.owed (w.history ++ es) id p = Ioka.owed w.history id p := by
    intro p hp hne
    have hid : p.id ≠ o.id := fun hid => hne (Database.order_ext hp h.order_mem hid)
    rw [Ioka.owed, Ioka.owed, taken, taken, h.movements_of_ne hid]
  rw [h.sum_orders, hb.owed_eq, sub_self, add_zero,
    sum_map_change Database.orders_nodup h.order_mem hother, sub_eq_add_neg]
  congr 1
  have hn := hl.counted o h.order_mem
  have hst := hc.standing o h.order_mem
  rw [h.payment] at hn hst
  -- Whether the order holds its amount before and after is the parity of its movements.
  simp only [Ioka.owed, taken, h.movements_self, List.length_append, h.owner]
  by_cases hid : a.id = id
  · simp only [hid, true_and, if_true]
    cases h.move with
    | debit =>
      have h0 : (movements w.history o.id).length = 0 := hn
      simp [h0, Event.delta]
    | debitAgain _ _ _ hr =>
      have h0 : (movements w.history o.id).length % 2 = 0 := by simpa [Counted, hr] using hn
      have h1 : ((movements w.history o.id).length + 1) % 2 = 1 := by omega
      simp [h0, h1, Event.delta]
    | join => simp
    | capture => simp
    | @release _ _ t hh =>
      have h0 : (movements w.history o.id).length % 2 = 1 := by simpa [Counted, hh] using hn
      have h1 : ((movements w.history o.id).length + 1) % 2 = 0 := by omega
      have ham : t.amount = o.amount := (hst.payment t rfl).1
      simp [h0, h1, Event.delta, ham]
  · simp [hid]

/-- Every balance is the initial one with all reported changes, which is the initial one less
what the agent's orders hold. -/
def Settled (db₀ : Database) (w : World) : Prop :=
  ∀ a ∈ w.db.agents, ∃ a₀ ∈ db₀.agents, a₀.id = a.id ∧
    a.balance = a₀.balance + netChange w.history a.id ∧
    a.balance = a₀.balance - (w.db.orders.rows.map (owed w.history a.id)).sum

theorem Effect.settled {db₀ : Database} (h : Effect sha256 w q w') (hc : Coupled w.db)
    (hl : Ledger w) (hs : Settled db₀ w) : Settled db₀ w' := by
  cases h with
  | @quiet _ audit es hes =>
    intro a ha
    obtain ⟨a₀, ha₀, hid, hn, hb⟩ := hs a ha
    have hz : netChange es a.id = 0 := netChange_eq_zero fun e he => (hes e he).agentId?
    rw [World.commit_history, owed_congr fun _ => movements_called hes, netChange_append, hz,
      add_zero]
    exact ⟨a₀, ha₀, hid, hn, hb⟩
  | @moved _ db' phase a o o' t? t' es _ _ _ hm =>
    intro b hb
    rw [World.commit_history, World.commit_db, hm.owed hc hl, netChange_append,
      hm.move.netChange]
    rcases hm.mem_agents.mp hb with rfl | ⟨hb, hne⟩
    · obtain ⟨a₀, ha₀, hid, hn, hbal⟩ := hs a hm.agent_mem
      refine ⟨a₀, ha₀, hid, ?_, ?_⟩
      · show a.balance + _ = _
        rw [if_pos rfl, hn, add_assoc]
      · show a.balance + _ = _
        rw [if_pos rfl, hbal, sub_sub_eq_add_sub, sub_add_eq_add_sub]
    · obtain ⟨a₀, ha₀, hid, hn, hbal⟩ := hs b hb
      refine ⟨a₀, ha₀, hid, ?_, ?_⟩
      · rw [if_neg (Ne.symm hne), add_zero, hn]
      · rw [if_neg (Ne.symm hne), sub_zero, hbal]
  | @created r db' orderId offer booking _ _ hcr =>
    intro a ha
    rw [World.commit_db, hcr.agents] at ha
    obtain ⟨a₀, ha₀, hid, hn, hb⟩ := hs a ha
    have hnil := hl.movements_eq_nil fun p hp => hcr.fresh hp
    have hz : netChange [.orderCommitted r.agentId r.idempotencyKey r.payload orderId] a.id = 0 :=
      netChange_eq_zero (by simp [Event.agentId?])
    refine ⟨a₀, ha₀, hid, ?_, ?_⟩
    · rw [World.commit_history, netChange_append, hz, add_zero, hn]
    · rw [World.commit_history, owed_congr fun _ => movements_created, World.commit_db,
        hcr.orders, List.map_append, List.sum_append, hb]
      simp [owed, taken, hnil]

/-- The balance of an agent is not negative, provided that no order has a negative amount. -/
def Covered (agentId : String) (w : World) : Prop :=
  (∀ o ∈ w.db.orders, 0 ≤ o.amount) → ∀ a ∈ w.db.agents, a.id = agentId → 0 ≤ a.balance

theorem Effect.covered {agentId : String} (h : Effect sha256 w q w') (hc : Coupled w.db)
    (hv : Covered agentId w) : Covered agentId w' := by
  have hx := h.extends hc
  intro hamt
  have hold : ∀ o ∈ w.db.orders, 0 ≤ o.amount := by
    intro o ho
    obtain ⟨p, hp, hs⟩ := hx.orders o ho
    rw [← hs.amount]
    exact hamt p hp
  have hbal := hv hold
  cases h with
  | quiet => exact hbal
  | @moved _ db' phase a o o' t? t' es _ _ _ hm =>
    intro b hb hid
    rcases hm.mem_agents.mp hb with rfl | ⟨hb, _⟩
    · have ha : 0 ≤ a.balance := hbal a hm.agent_mem hid
      have ho : 0 ≤ o.amount := hold o hm.order_mem
      have hst := hc.standing o hm.order_mem
      rw [hm.payment] at hst
      cases hm.move with
      | debit _ _ hle => simp [Event.delta, hle]
      | debitAgain _ _ hle => simp [Event.delta, hle]
      | join => simpa using ha
      | capture => simpa using ha
      | @release _ _ t =>
        have ham : t.amount = o.amount := (hst.payment t rfl).1
        have hsum : 0 ≤ a.balance + t.amount := add_nonneg ha (ham ▸ ho)
        simpa [Event.delta] using hsum
    · exact hbal b hb hid
  | created _ _ hcr => rwa [World.commit_db, hcr.agents]

theorem Unpaid.settled (h : w.history = []) : Settled w.db w := by
  intro a ha
  have hz : owed w.history a.id = fun _ => 0 := by
    funext o
    simp [owed, taken, movements, h]
  exact ⟨a, ha, rfl, by simp [h, netChange], by simp [hz]⟩

end Balance

/-- The orders of an agent whose money has been debited once more than refunded. -/
def takenOrders (w : World) (agentId : String) : List Order :=
  w.db.orders.rows.filter fun o => o.agentId = agentId ∧ taken w.history o.id

theorem sum_takenOrders (w : World) (agentId : String) :
    ((takenOrders w agentId).map (·.amount)).sum =
      (w.db.orders.rows.map (owed w.history agentId)).sum := by
  unfold takenOrders
  induction w.db.orders.rows with
  | nil => rfl
  | cons o os ih =>
    rw [List.filter_cons, List.map_cons, List.sum_cons, ← ih, owed]
    split <;> rename_i h
    · rw [if_pos (by simpa using h), List.map_cons, List.sum_cons]
    · rw [if_neg (by simpa using h), zero_add]

section Runs

variable {sha256 : String → String} {w : World} {c : Booking}
  {as : List (Action Request Choice)} {G : Booking → Action Request Choice → Prop}

/-- The store of every run that starts unpaid is coupled, with its ledger and balances. -/
theorem ledger_of_run (hu : Unpaid w.db) (hh : w.history = [])
    (h : (booking sha256).machine.RunWhere G (Program.start w) as c) :
    Coupled c.store.db ∧ Ledger c.store ∧ Settled w.db c.store := by
  refine invariant_of_effect (I := fun v => Coupled v.db ∧ Ledger v ∧ Settled w.db v) ?_ h
    (sound_start hu.coupled) ⟨hu.coupled, hu.ledger hh, Unpaid.settled hh⟩
  rintro v p v' hc he ⟨_, hl, hs⟩
  exact ⟨he.coupled hc, he.ledger hc hl, he.settled hc hl hs⟩

/-- Debits and refunds alternate, and no agent overspends. -/
theorem no_overspending (hu : Unpaid w.db) (hh : w.history = [])
    (hbal : ∀ a ∈ w.db.agents, 0 ≤ a.balance)
    (h : (booking sha256).machine.Run (Program.start w) as c)
    (hamt : ∀ o ∈ c.store.db.orders, 0 ≤ o.amount) :
    (∀ o ∈ c.store.db.orders, movements c.store.history o.id =
      alternating o (movements c.store.history o.id).length) ∧
    ∀ a ∈ c.store.db.agents, ∃ a₀ ∈ w.db.agents, a₀.id = a.id ∧
      a.balance = a₀.balance + netChange c.store.history a.id ∧
      a.balance = a₀.balance - ((takenOrders c.store a.id).map (·.amount)).sum ∧
      0 ≤ a.balance ∧ a.balance ≤ a₀.balance := by
  obtain ⟨_, hl, hs⟩ := ledger_of_run hu hh h
  have hcov (id : String) : Covered id c.store :=
    invariant_of_effect (fun _ _ _ hc he hv => he.covered hc hv) h (sound_start hu.coupled)
      fun _ a ha _ => hbal a ha
  refine ⟨hl.alternates, fun a ha => ?_⟩
  obtain ⟨a₀, ha₀, hid, hn, hb⟩ := hs a ha
  have hsum : 0 ≤ ((takenOrders c.store a.id).map (·.amount)).sum := by
    apply List.sum_nonneg
    rintro m hm
    obtain ⟨o, ho, rfl⟩ := List.mem_map.mp hm
    exact hamt o (List.mem_filter.mp ho).1
  rw [← sum_takenOrders] at hb
  refine ⟨a₀, ha₀, hid, hn, hb, hcov a.id hamt a ha rfl, ?_⟩
  rw [hb]
  exact sub_le_self _ hsum

/-- The bounds hold after an order was issued and its price taken. -/
theorem no_overspending_issued : ∃ c : Booking,
    (booking id).machine.Run (Program.start Example.booked)
      (.spawn (Example.issueRequest "key") :: Example.issueSteps 0) c ∧
    ∀ a ∈ c.store.db.agents, 0 ≤ a.balance ∧ a.balance ≤ 30000 := by
  have hrun : (((booking id).machine.exec (Program.start Example.booked)
      (.spawn (Example.issueRequest "key") :: Example.issueSteps 0)).map
        fun c => c.store.db.orders.rows.map (·.amount)) = some [10000] := by decide
  obtain ⟨c, hc, hamt⟩ := Option.map_eq_some_iff.mp hrun
  have h := Machine.exec_eq_some_iff.mp hc
  have hnn : ∀ o ∈ c.store.db.orders, 0 ≤ o.amount := by
    intro o ho
    have hm : o.amount ∈ c.store.db.orders.rows.map (·.amount) := List.mem_map_of_mem ho
    rw [hamt, List.mem_singleton] at hm
    rw [hm]
    decide
  have hbal : ∀ a ∈ Example.booked.db.agents, 0 ≤ a.balance := by
    intro a ha
    rw [List.mem_singleton.mp ha]
    decide
  refine ⟨c, h, fun a ha => ?_⟩
  obtain ⟨_, hall⟩ := no_overspending Example.unpaid_booked rfl hbal h hnn
  obtain ⟨a₀, ha₀, _, _, _, hlo, hhi⟩ := hall a ha
  rw [List.mem_singleton.mp ha₀] at hhi
  exact ⟨hlo, hhi⟩

end Runs

end Ioka
