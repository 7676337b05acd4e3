import Ioka.Booking.Ledger

/-! # Conservation of money

A balance and the money held or captured from it sum to the initial balance, as
long as every capture that issues an order finds its payment held. The capture
block does not look at the status of the payment it captures, so a request whose
shared hold was released by another request issues an order that is not paid for.
-/

namespace Ioka

open Relational Transition

/-- The transactions of an agent whose money is out of the balance. -/
def securedTransactions (db : Database) (agentId : String) : List BalanceTransaction :=
  db.transactions.rows.filter fun t =>
    t.agentId = agentId ∧ (t.status = .held ∨ t.status = .captured)

/-- Each balance and the money secured from it sum to the balance at the start. -/
def Conserved (db₀ db : Database) : Prop :=
  ∀ a ∈ db.agents, ∃ a₀ ∈ db₀.agents, a₀.id = a.id ∧
    a.balance + ((securedTransactions db a.id).map (·.amount)).sum = a₀.balance

/-- The last money moved for each issued order was taken from the balance. -/
def IssuedPaid (w : World) : Prop :=
  ∀ o ∈ w.db.orders, o.status = .issued →
    (movements w.history o.id).getLast? = some (.debited o.agentId o.id o.amount)

/-- A capture block about to issue an order finds its payment held. -/
def capturesHeld (c : Booking) : Action Request Choice → Bool
  | .advance i (.inr (.capture _)) =>
    match c.procs[i]? with
    | some (.inr r) =>
      match agentOrder c.store.db r.agentId r.orderId, c.store.db.transactionOf r.orderId with
      | some o, some t => o.status = .issued ∨ t.status = .held
      | _, _ => true
    | _ => true
  | _ => true

/-! ## Secured money -/

/-- What a transaction secures from the balance of an agent. -/
def BalanceTransaction.secured (agentId : String) (t : BalanceTransaction) : Money :=
  if t.agentId = agentId ∧ (t.status = .held ∨ t.status = .captured) then t.amount else 0

theorem sum_securedTransactions (db : Database) (agentId : String) :
    ((securedTransactions db agentId).map (·.amount)).sum =
      (db.transactions.rows.map (·.secured agentId)).sum := by
  unfold securedTransactions
  induction db.transactions.rows with
  | nil => rfl
  | cons t ts ih =>
    rw [List.filter_cons, List.map_cons, List.sum_cons, ← ih, BalanceTransaction.secured]
    split <;> rename_i h
    · rw [if_pos (by simpa using h), List.map_cons, List.sum_cons]
    · rw [if_neg (by simpa using h), zero_add]

section Step

variable {w w' : World} {phase : Phase} {db db' : Database} {a : Agent} {o o' : Order}
  {t? : Option BalanceTransaction} {t t' : BalanceTransaction} {es : List Event}

theorem Moved.sum_transactions (h : Moved phase db db' a o o' t? t' es)
    (g : BalanceTransaction → Money) : (db'.transactions.rows.map g).sum =
      (db.transactions.rows.map g).sum + (g t' - (t?.map g).getD 0) := by
  rcases h.transactions with ⟨rfl, hr⟩ | ⟨t, rfl, hr⟩
  · rw [hr]
    simp
  · obtain ⟨ht, _⟩ := mem_of_transactionOf h.payment
    rw [hr, sum_map_amend Database.transactions_nodup ht]
    · rfl
    · intro u hu
      rw [decide_eq_true_eq]
      exact ⟨Database.transaction_ext hu ht, by rintro rfl; rfl⟩

/-- The captures of a move find their payment held. -/
def Funded (phase : Phase) (t? : Option BalanceTransaction) : Prop :=
  match phase with
  | .capture _ => ∀ t, t? = some t → t.status = .held
  | _ => True

theorem Move.secured (h : Move phase a o t? o' t' es) (hs : Standing o t?)
    (hown : o.agentId = a.id) (hf : Funded phase t?) (id : String) :
    t'.secured id - (t?.map (·.secured id)).getD 0 =
      -(if a.id = id then (es.map Event.delta).sum else 0) := by
  by_cases hid : a.id = id
  · rw [if_pos hid]
    cases h with
    | debit =>
      simp [BalanceTransaction.secured, newHold, Event.delta, hown, hid]
    | @debitAgain _ _ _ t _ _ _ hr =>
      obtain ⟨ham, _, hag, _⟩ := hs.payment t rfl
      simp [BalanceTransaction.secured, BalanceTransaction.withStatus, Event.delta, hr, ham, hag,
        hown, hid]
    | join => simp
    | @capture _ _ _ t =>
      obtain ⟨ham, _, hag, _⟩ := hs.payment t rfl
      have hh : t.status = .held := hf t rfl
      simp [BalanceTransaction.secured, BalanceTransaction.withStatus, hh]
    | @release _ _ t hh =>
      obtain ⟨ham, _, hag, _⟩ := hs.payment t rfl
      simp [BalanceTransaction.secured, BalanceTransaction.withStatus, Event.delta, hh, hag,
        hown, hid]
  · rw [if_neg hid]
    have hne : ∀ u : BalanceTransaction, u.agentId = o.agentId → u.secured id = 0 := by
      intro u hu
      rw [BalanceTransaction.secured, if_neg]
      rintro ⟨hua, _⟩
      exact hid (hown.symm.trans (hu.symm.trans hua))
    have ht' : t'.agentId = o.agentId := by
      obtain ⟨_, _, hag, _⟩ := (h.standing hs).payment t' rfl
      exact hag.trans h.sameBooking.agentId
    rw [hne t' ht', neg_zero, zero_sub, neg_eq_zero]
    cases t? with
    | none => rfl
    | some t => exact hne t (hs.payment t rfl).2.2.1

/-- The money of every captured payment is taken. -/
def CapturedTaken (w : World) : Prop :=
  ∀ t ∈ w.db.transactions, t.status = .captured → taken w.history t.orderId

theorem Moved.conserved {db₀ : Database} (h : Moved phase db db' a o o' t? t' es)
    (hc : Coupled db) (hf : Funded phase t?) (hs : Conserved db₀ db) : Conserved db₀ db' := by
  have hst := hc.standing o h.order_mem
  rw [h.payment] at hst
  intro b hb
  rw [sum_securedTransactions, h.sum_transactions, h.move.secured hst h.owner hf,
    ← sum_securedTransactions]
  rcases h.mem_agents.mp hb with rfl | ⟨hb, hne⟩
  · obtain ⟨a₀, ha₀, hid, hsum⟩ := hs a h.agent_mem
    refine ⟨a₀, ha₀, hid, ?_⟩
    rw [if_pos rfl, ← hsum]
    show a.balance + _ + _ = _
    abel
  · obtain ⟨a₀, ha₀, hid, hsum⟩ := hs b hb
    refine ⟨a₀, ha₀, hid, ?_⟩
    rw [if_neg (Ne.symm hne), neg_zero, add_zero, hsum]

theorem Moved.capturedTaken (h : Moved phase w.db db' a o o' t? t' es) (hc : Coupled w.db)
    (hl : Ledger w) (hf : Funded phase t?) (hs : CapturedTaken w) :
    CapturedTaken (w.commit db' es) := by
  intro u hu hcap
  rcases (h.mem_transactions hc.onePayment).mp hu with rfl | ⟨hu, hne⟩
  · have hn := hl.counted o h.order_mem
    have hpay := h.payment
    rw [h.payment] at hn
    rw [h.orderId, World.commit_history, taken, h.movements_self]
    cases h.move with
    | debit => cases hcap
    | debitAgain => cases hcap
    | join =>
      obtain ⟨hm, hto⟩ := mem_of_transactionOf hpay
      have htk := hs _ hm hcap
      rw [hto] at htk
      simpa [taken] using htk
    | @capture _ _ _ t =>
      have hh : t.status = .held := hf t rfl
      have hodd : (movements w.history o.id).length % 2 = 1 := by simpa [Counted, hh] using hn
      simpa using hodd
    | release => cases hcap
  · rw [World.commit_history, taken, h.movements_of_ne hne]
    exact hs u hu hcap

/-- Every move that a request may make is funded. -/
def FundedMoves (w : World) (p : Request) : Prop :=
  ∀ ⦃r : IssueOrder⦄ ⦃phase : Phase⦄ ⦃db' : Database⦄ ⦃a : Agent⦄ ⦃o o' : Order⦄
    ⦃t? : Option BalanceTransaction⦄ ⦃t' : BalanceTransaction⦄ ⦃es : List Event⦄,
    p = .inr r → phase.Of r → o.id = r.orderId → a.id = r.agentId →
    Moved phase w.db db' a o o' t? t' es → Funded phase t?

theorem Effect.conserved {sha256 : String → String} {p : Request} {db₀ : Database}
    (h : Effect sha256 w p w') (hc : Coupled w.db) (hf : FundedMoves w p)
    (hs : Conserved db₀ w.db) : Conserved db₀ w'.db := by
  cases h with
  | quiet => exact hs
  | moved hph ho ha hm => exact hm.conserved hc (hf rfl hph ho ha hm) hs
  | created _ _ hcr =>
    unfold Conserved securedTransactions
    rw [World.commit_db, hcr.agents, hcr.transactions]
    exact hs

theorem Effect.capturedTaken {sha256 : String → String} {p : Request}
    (h : Effect sha256 w p w') (hc : Coupled w.db) (hl : Ledger w) (hf : FundedMoves w p)
    (hs : CapturedTaken w) : CapturedTaken w' := by
  cases h with
  | quiet hes =>
    intro t ht hcap
    rw [taken, World.commit_history, movements_called hes]
    exact hs t ht hcap
  | moved hph ho ha hm => exact hm.capturedTaken hc hl (hf rfl hph ho ha hm) hs
  | created _ _ hcr =>
    intro t ht hcap
    rw [World.commit_db, hcr.transactions] at ht
    rw [taken, World.commit_history, movements_created]
    exact hs t ht hcap

end Step

/-! ## Runs -/

section Runs

variable {sha256 : String → String} {w : World} {c c' : Booking}
  {a : Action Request Choice} {as : List (Action Request Choice)}

theorem IssueOrder.capture_of_ticketed {w w' : World} {r r' : IssueOrder}
    {ticket : ProviderTicket} {x : IssueChoice} (hp : r.phase = .ticketed ticket)
    (h : r.advance w x = some (w', r')) : ∃ durationMs, x = .capture durationMs := by
  unfold advance at h
  rw [hp] at h
  cases x with
  | capture durationMs => exact ⟨durationMs, rfl⟩
  | _ => cases h

theorem fundedMoves_of_capturesHeld {i : ℕ} {x : Choice} {p : Request}
    (h : (booking sha256).machine.step c (.advance i x) = some c')
    (hg : capturesHeld c (.advance i x) = true) (hp : c.procs[i]? = some p) :
    FundedMoves c.store p := by
  rintro r phase db' a o o' t? t' es rfl hph ho ha hm
  cases phase with
  | hold => trivial
  | release => trivial
  | capture ticket =>
    obtain ⟨p, s', p', hp', hadv, _⟩ := Program.step_advance_iff.mp h
    obtain rfl : p = .inr r := Option.some.inj (hp'.symm.trans hp)
    rcases Program.sum_advance hadv with ⟨_, _, _, ⟨⟩, _⟩ | ⟨q, q', y, ⟨rfl⟩, rfl, _, hr⟩
    obtain ⟨given, hticketed, _⟩ := hph
    obtain ⟨d, rfl⟩ := IssueOrder.capture_of_ticketed hticketed hr
    have hne : o.status ≠ .issued := by
      cases hm.move with
      | capture hne => exact hne
    have hpay := hm.payment
    rw [ho] at hpay
    rintro t rfl
    simp only [capturesHeld, hp, agentOrder_eq_some.mpr ⟨hm.order_mem, ho, hm.owner.trans ha⟩,
      hpay, hne, false_or, decide_eq_true_eq] at hg
    exact hg

/-- While every capture finds its payment held, money is conserved and issued orders are paid. -/
theorem conserved_of_capturesHeld (hu : Unpaid w.db) (hh : w.history = [])
    (h : (booking sha256).machine.RunWhere (fun c a => capturesHeld c a = true)
      (Program.start w) as c) : Conserved w.db c.store.db ∧ IssuedPaid c.store := by
  obtain ⟨hc, hl, _⟩ := ledger_of_run hu hh h
  have hinv : Sound c ∧ Ledger c.store ∧ Conserved w.db c.store.db ∧ CapturedTaken c.store := by
    refine h.invariant (I := fun c => Sound c ∧ Ledger c.store ∧ Conserved w.db c.store.db ∧
      CapturedTaken c.store) ?_ ⟨sound_start hu.coupled, hu.ledger hh, ?_, ?_⟩
    · rintro c a c' hg hs ⟨hsound, hl, hcon, hcap⟩
      refine ⟨sound_of_step hs hsound, ?_⟩
      rcases effect_of_step hs hsound with ⟨p, _, rfl⟩ | ⟨i, x, p, _, rfl, hp, _, he, _⟩
      · exact ⟨hl, hcon, hcap⟩
      · have hf := fundedMoves_of_capturesHeld hs hg hp
        exact ⟨he.ledger hsound.1 hl, he.conserved hsound.1 hf hcon,
          he.capturedTaken hsound.1 hl hf hcap⟩
    · intro a ha
      exact ⟨a, ha, rfl, by simp [securedTransactions, Program.start, hu.transactions]⟩
    · intro t ht
      simp [Table.mem_def, Program.start, hu.transactions] at ht
  obtain ⟨_, _, hcon, hcap⟩ := hinv
  refine ⟨hcon, fun o ho hiss => ?_⟩
  -- An issued order has a captured payment, whose money is taken.
  obtain ⟨t, ht, hst⟩ := hc.exists_captured ho hiss
  obtain ⟨hm, hto⟩ := mem_of_transactionOf ht
  have htk := hcap t hm hst
  rw [hto, taken, decide_eq_true_eq] at htk
  rw [hl.alternates o ho]
  exact getLast?_alternating htk

/-- A single request meets the guard, and its price stays accounted for. -/
theorem conserved_of_capturesHeld_single : ∃ c : Booking,
    (booking id).machine.RunWhere (fun c a => capturesHeld c a = true)
      (Program.start Example.booked)
      (.spawn (Example.issueRequest "key") :: Example.issueSteps 0) c ∧
    Conserved Example.booked.db c.store.db ∧ IssuedPaid c.store := by
  have hrun : ((booking id).machine.execWhere (fun c a => capturesHeld c a = true)
      (Program.start Example.booked)
      (.spawn (Example.issueRequest "key") :: Example.issueSteps 0)).isSome = true := by decide
  obtain ⟨c, hc⟩ := Option.isSome_iff_exists.mp hrun
  have h := Machine.runWhere_of_execWhere hc
  exact ⟨c, h, conserved_of_capturesHeld Example.unpaid_booked rfl h⟩

/-- Two requests share a hold; one is refused and gives the money back, then the other one
captures its ticket. -/
def sharedHold : List (Action Request Choice) :=
  [.spawn (Example.issueRequest "key"), .spawn (Example.issueRequest "key"),
    .advance 0 (.inr (.hold "transaction")), .advance 1 (.inr (.hold "unused")),
    .advance 0 (.inr .call), .advance 1 (.inr .call),
    .advance 1 (.inr (.raise ⟨"", "TimeoutError", true⟩)), .advance 1 (.inr .release),
    .advance 0 (.inr (.answer Example.ticket)), .advance 0 (.inr (.capture 5))]

/-- The order is issued for nothing: its money went back and is counted as captured. -/
theorem not_conserved_sharedHold : ∃ c : Booking,
    (booking id).machine.Run (Program.start Example.booked) sharedHold c ∧
    ¬ Conserved Example.booked.db c.store.db ∧ ¬ IssuedPaid c.store := by
  have hrun : (((booking id).machine.exec (Program.start Example.booked) sharedHold).map fun c =>
      (c.store.db.agents.rows, (securedTransactions c.store.db "agent").map (·.amount),
        c.store.db.orders.rows.map fun o => (o.status, (movements c.store.history o.id).length))) =
      some ([Example.agent], [10000], [(.issued, 2)]) := by decide
  obtain ⟨c, hc, hrows⟩ := Option.map_eq_some_iff.mp hrun
  obtain ⟨hagents, hsecured, horders⟩ : _ ∧ _ ∧ _ := by simpa only [Prod.mk.injEq] using hrows
  have h := Machine.exec_eq_some_iff.mp hc
  refine ⟨c, h, fun hcon => ?_, fun hpaid => ?_⟩
  · have ha : Example.agent ∈ c.store.db.agents := by simp [Table.mem_def, hagents]
    obtain ⟨a₀, ha₀, _, hsum⟩ := hcon Example.agent ha
    have hs : ((securedTransactions c.store.db Example.agent.id).map (·.amount)).sum = 10000 := by
      rw [show Example.agent.id = "agent" from rfl, hsecured]
      rfl
    rw [List.mem_singleton.mp ha₀, hs] at hsum
    exact absurd hsum (by decide)
  · obtain ⟨o, ho, hst⟩ : ∃ o ∈ c.store.db.orders.rows,
        (o.status, (movements c.store.history o.id).length) = (.issued, 2) :=
      List.mem_map.mp (horders ▸ List.mem_singleton.mpr rfl)
    obtain ⟨hiss, hlen⟩ := Prod.mk.inj hst
    have hlast := hpaid o ho hiss
    rw [(ledger_of_run Example.unpaid_booked rfl h).2.1.alternates o ho, hlen] at hlast
    simp [alternating, List.range_succ] at hlast

end Runs

end Ioka
