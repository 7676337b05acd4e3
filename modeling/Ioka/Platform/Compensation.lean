import Ioka.Booking.Confluence
import Ioka.Booking.Success
import Ioka.Platform.Isolation

/-! # What a failed issue leaves behind

`issue_order` commits its hold before it calls the provider. An error of the provider
is compensated by `_release_hold`; an error of the capture or of the release itself is
not, and neither is a cancellation. A call that no other request overlaps is followed to
its end, where its outcome tells whether the money it held was taken or given back.
-/

namespace Ioka

open Relational Transition

/-- The call issued its order and took the money, or it raised and left none of it held. -/
def PaidOrReturned (db db' : Database) (agentId orderId : String) : Except Failure Issued → Prop
  | .ok (order, agent, status) => order ∈ db'.orders ∧ order.id = orderId ∧
      order.status = .issued ∧ agent.id = agentId ∧ status = .captured ∧
      ∃ t ∈ db'.transactions, t.orderId = orderId ∧ t.status = .captured
  | .error _ => db'.agent? agentId = db.agent? agentId ∧
      ∀ t ∈ db'.transactions, t.orderId = orderId → t.status ≠ .held

/-- What the provider does to the call can be recorded: the column takes the ticket and no other
stored order has its number, or the database can store the text of the exception. -/
def recordable (db : Database) (orderId : String) : IssueChoice → Bool
  | .answer ticket => ticket.kept.any fun kept => db.orders.rows.all fun p =>
      p.ticketNumber ≠ some kept.ticketNumber ∨ p.id = orderId
  | .raise e => Storable e.text
  -- A `CancelledError` reaches no handler.
  | .cancel => false
  | _ => true

/-- The hold of a call has taken the amount of the order from the balance. -/
structure Debited (db₀ db : Database) (a : Agent) (o : Order) (key : String)
    (t : BalanceTransaction) : Prop where
  unissued : o.status ≠ .issued
  moved : Moved (.hold key) db₀ db a o (o.holding key) (db₀.transactionOf o.id) t
    [.debited a.id o.id o.amount]
  held : t.status = .held
  amount : t.amount = o.amount

/-- How far a call for the order has come since it was made on the database `db₀`. -/
def Course (db₀ : Database) (agentId orderId key : String) (xs : List IssueChoice)
    (s : World × IssueOrder) : Prop :=
  (s.2.agentId = agentId ∧ s.2.orderId = orderId ∧ s.2.idempotencyKey = key) ∧
  match s.2.phase with
  | .requested => s.1.db = db₀ ∧ xs.all (recordable db₀ orderId) = true
  | .held _ | .issuing _ => xs.all (recordable db₀ orderId) = true ∧
    ∃ a o t, a.id = agentId ∧ o.id = orderId ∧ Debited db₀ s.1.db a o key t
  | .refused e => xs.all (recordable db₀ orderId) = recordable db₀ orderId (.raise e) ∧
    ∃ a o t, a.id = agentId ∧ o.id = orderId ∧ Debited db₀ s.1.db a o key t
  | .ticketed ticket => xs.all (recordable db₀ orderId) = recordable db₀ orderId (.answer ticket) ∧
    ∃ a o t, a.id = agentId ∧ o.id = orderId ∧ Debited db₀ s.1.db a o key t
  | .done result =>
    PaidOrReturned db₀ s.1.db agentId orderId result ↔ xs.all (recordable db₀ orderId) = true

section Blocks

variable {db₀ db db' : Database} {a : Agent} {o p : Order} {t t' : BalanceTransaction}
  {key agentId orderId : String} {es : List Event}

theorem all_concat {α : Type} {p : α → Bool} (xs : List α) (x : α) :
    (xs ++ [x]).all p = (xs.all p && p x) := by
  simp [List.all_append]

theorem recordable_answer {ticket : ProviderTicket} :
    recordable db orderId (.answer ticket) = true ↔ ∃ kept, ticket.kept = some kept ∧
      ∀ p ∈ db.orders, p.ticketNumber = some kept.ticketNumber → p.id = orderId := by
  simp [recordable, Option.any_eq_true, Table.mem_def, or_iff_not_imp_left]

theorem paidOrReturned_error (e : Failure)
    (hfree : ∀ t ∈ db.transactions, t.orderId = orderId → t.status ≠ .held) :
    PaidOrReturned db db agentId orderId (.error e) := ⟨rfl, hfree⟩

theorem debited_of_hold {debit : Option Money} (hc : Coupled db₀)
    (hfree : ∀ t ∈ db₀.transactions, t.orderId = o.id → t.status ≠ .held)
    (h : Moved (.hold key) db₀ db a o (o.holding key) (db₀.transactionOf o.id) t
      (debit.toList.map (.debited a.id o.id))) : Debited db₀ db a o key t := by
  have hst := hc.standing o h.order_mem
  generalize hes : debit.toList.map (Event.debited a.id o.id) = es at h
  generalize ht : db₀.transactionOf o.id = t? at h hst
  cases hm : h.move with
  | debit hne _ _ => exact ⟨hne, ht ▸ h, rfl, rfl⟩
  | debitAgain hne _ _ _ => exact ⟨hne, ht ▸ h, rfl, (hst.payment _ rfl).1⟩
  | join hne _ hrel =>
    obtain ⟨hmem, hto⟩ := mem_of_transactionOf ht
    have hnot : (some t).map (·.status) ≠ some .held := by simpa using hfree t hmem hto
    exact absurd ((booked_of_pairing hst.status hne hnot).2 _ rfl) hrel

theorem Debited.at (h : Debited db₀ db a o key t) (hc : Coupled db₀) :
    At db { a with balance := a.balance - o.amount } (o.holding key) (some t) := by
  have hat := (h.moved.at hc.onePayment ⟨h.moved.agent_mem, h.moved.order_mem, rfl⟩ rfl rfl).2
  simpa [Event.delta, sub_eq_add_neg] using hat

/-- A release after the hold leaves the balance as it was before. -/
theorem Debited.released (h : Debited db₀ db a o key t) (hc : Coupled db₀)
    (hm : Moved .release db db' { a with balance := a.balance - o.amount } (o.holding key)
      (o.holding key).rebooked (some t) (t.withStatus .released) [.refunded a.id o.id t.amount])
    (e : Failure) : PaidOrReturned db₀ db' a.id o.id (.error e) := by
  have hc' := h.moved.coupled hc
  obtain ⟨_, hat⟩ := hm.at hc'.onePayment (h.at hc) rfl rfl
  have hsame : ({ a with balance := a.balance - o.amount +
      ([Event.refunded a.id o.id t.amount].map Event.delta).sum } : Agent) = a := by
    simp [Event.delta, h.amount]
  refine ⟨?_, fun u hu huo => ?_⟩
  · rw [Database.agent?_eq_some.mpr ⟨h.moved.agent_mem, rfl⟩, Database.agent?_eq_some]
    exact ⟨hsame ▸ hat.agent, rfl⟩
  · rcases (hm.mem_transactions hc'.onePayment).mp hu with rfl | ⟨_, hne⟩
    · simp [BalanceTransaction.withStatus]
    · exact absurd huo hne

theorem Debited.unsettled (h : Debited db₀ db a o key t) (hc : Coupled db₀) (e : Failure) :
    ¬ PaidOrReturned db₀ db a.id o.id (.error e) := by
  rintro ⟨_, hnone⟩
  obtain ⟨hmem, hto⟩ := mem_of_transactionOf (h.at hc).payment
  exact hnone t hmem hto h.held

theorem Debited.captured {ticket kept : ProviderTicket} (h : Debited db₀ db a o key t)
    (hk : ticket.kept = some kept)
    (hm : Moved (.capture kept) db db' { a with balance := a.balance - o.amount }
      (o.holding key) ((o.holding key).ticketed kept) (some t) (t.withStatus .captured) []) :
    recordable db₀ o.id (.answer ticket) = true := by
  refine recordable_answer.mpr ⟨kept, hk, fun p hp hpt => ?_⟩
  by_contra hne
  have hp' : p ∈ db'.orders :=
    hm.mem_orders.mpr (Or.inr ⟨h.moved.mem_orders.mpr (Or.inr ⟨hp, hne⟩), hne⟩)
  have ho' := hm.mem_orders.mpr (Or.inl rfl)
  obtain rfl := Database.order_ext_of_ticket hp' ho' hpt rfl
  exact hne rfl

theorem Debited.uncaptured {ticket : ProviderTicket} {durationMs : ℤ} {e : Failure}
    (h : Debited db₀ db a o key t) (hc : Coupled db₀)
    (herr : issueOrderCapture db a.id o.id key ticket durationMs = .error e) :
    recordable db₀ o.id (.answer ticket) = false := by
  rw [← Bool.not_eq_true, recordable_answer]
  rintro ⟨kept, hk, hfree⟩
  have hfree' : ∀ p ∈ db.orders, p.ticketNumber = some kept.ticketNumber → p.id = o.id := by
    intro p hp hpt
    rcases h.moved.mem_orders.mp hp with rfl | ⟨hp, _⟩
    · rfl
    · exact hfree p hp hpt
  obtain ⟨r, db', hok⟩ :=
    (h.at hc).exists_capture key durationMs h.moved.owner (by simp [Order.holding]) hk hfree'
  have he : issueOrderCapture db a.id o.id key ticket durationMs = .ok (r, db') := hok
  rw [he] at herr
  cases herr

end Blocks

section Call

variable {db₀ : Database} {agentId orderId key : String} {xs : List IssueChoice}
  {x : IssueChoice} {s s' : World × IssueOrder}

theorem Course.requested (w : World) (agentId orderId key : String) :
    Course w.db agentId orderId key [] (w, ⟨agentId, orderId, key, .requested⟩) :=
  ⟨⟨rfl, rfl, rfl⟩, rfl, rfl⟩

/-- Each step of the call, with no other between its own, goes on with its course. -/
theorem Course.step (hc : Coupled db₀)
    (hfree : ∀ t ∈ db₀.transactions, t.orderId = orderId → t.status ≠ .held)
    (h : s.2.advance s.1 x = some s') (hC : Course db₀ agentId orderId key xs s) :
    Course db₀ agentId orderId key (xs ++ [x]) s' := by
  obtain ⟨w, r⟩ := s
  obtain ⟨⟨rfl, rfl, rfl⟩, hC⟩ := hC
  simp only at h hC hfree
  unfold IssueOrder.advance at h
  split at h
  case h_1 transactionId hp =>
    rw [hp] at hC
    obtain ⟨rfl, hxs⟩ := hC
    have hall :
        (xs ++ [IssueChoice.hold transactionId]).all (recordable w.db r.orderId) = true := by
      rw [all_concat, hxs]
      rfl
    split at h
    · cases h
      exact ⟨⟨rfl, rfl, rfl⟩, iff_of_true (paidOrReturned_error _ hfree) hall⟩
    · rename_i o a db' hh
      cases h
      refine ⟨⟨rfl, rfl, rfl⟩, iff_of_true ?_ hall⟩
      obtain ⟨q, b, hq, hid, hbid, hown, ⟨hs, he, -⟩ | ⟨_, _, he, _⟩⟩ := issueOrderHold_ok hh
      · cases he
        obtain ⟨t, ht, hts⟩ := hc.exists_captured hq hs
        obtain ⟨hmem, hto⟩ := mem_of_transactionOf ht
        exact ⟨hq, hid, hs, hbid, rfl, t, hmem, hto.trans hid, hts⟩
      · cases he
    · rename_i b debit db' hh
      cases h
      obtain ⟨o, a, ho, hid, haid, hown, ⟨_, he, _⟩ | ⟨t', debit', he, hm⟩⟩ := issueOrderHold_ok hh
      · cases he
      · cases he
        refine ⟨⟨rfl, rfl, rfl⟩, hall, a, o, t', haid, hid, ?_⟩
        rw [← haid, ← hid] at hm
        exact debited_of_hold hc (hid ▸ hfree) hm
  case h_2 b hp =>
    rw [hp] at hC
    cases h
    refine ⟨⟨rfl, rfl, rfl⟩, ?_, hC.2⟩
    rw [all_concat, hC.1]
    rfl
  case h_3 b ticket hp | h_4 b e hp =>
    rw [hp] at hC
    cases h
    refine ⟨⟨rfl, rfl, rfl⟩, ?_, hC.2⟩
    rw [all_concat, hC.1, Bool.true_and]
  case h_5 hp =>
    rw [hp] at hC
    obtain ⟨_, a, o, t, haid, hid, hd⟩ := hC
    cases h
    refine ⟨⟨rfl, rfl, rfl⟩, iff_of_false ?_ ?_⟩
    · rw [← haid, ← hid]
      exact hd.unsettled hc _
    · simp [recordable]
  case h_6 e hp =>
    rw [hp] at hC
    obtain ⟨hxs, a, o, t, haid, hid, hd⟩ := hC
    have hat := hd.at hc
    have hall : (xs ++ [IssueChoice.release]).all (recordable db₀ r.orderId) =
        decide (Storable e.text) := by
      rw [all_concat, hxs]
      exact Bool.and_true _
    by_cases he : Storable e.text
    · obtain ⟨db', hok⟩ := hat.exists_release hd.held he
      have hok' : releaseHold w.db r.agentId r.orderId e.text = .ok (db', some t.amount) := by
        rw [← haid, ← hid]
        exact hok
      rw [hok'] at h
      cases h
      refine ⟨⟨rfl, rfl, rfl⟩, iff_of_true ?_ (hall.trans (decide_eq_true he))⟩
      have hm := hat.release_moved hd.moved.owner hok
      rw [← haid, ← hid]
      exact hd.released hc hm _
    · have hfail : releaseHold w.db r.agentId r.orderId e.text = .error .dbapiError := by
        rw [← haid, ← hid]
        exact hat.release_untaken hd.held he
      rw [hfail] at h
      cases h
      refine ⟨⟨rfl, rfl, rfl⟩, iff_of_false ?_ (by rw [hall]; simp [he])⟩
      rw [← haid, ← hid]
      exact hd.unsettled hc _
  case h_7 ticket durationMs hp =>
    rw [hp] at hC
    obtain ⟨hxs, a, o, t, haid, hid, hd⟩ := hC
    have hat := hd.at hc
    have hall : (xs ++ [IssueChoice.capture durationMs]).all (recordable db₀ r.orderId) =
        recordable db₀ r.orderId (.answer ticket) := by
      rw [all_concat, hxs]
      exact Bool.and_true _
    rw [← haid, ← hid] at h
    split at h
    · rename_i e herr
      cases h
      refine ⟨⟨rfl, rfl, rfl⟩, ?_⟩
      rw [← haid, hall, ← hid]
      exact iff_of_false (hd.unsettled hc e) (by simp [hd.uncaptured hc herr])
    · rename_i result db' hok
      cases h
      obtain ⟨kept, hk, rfl, hm⟩ := hat.capture_moved (by simp [Order.holding]) hok
      refine ⟨⟨rfl, rfl, rfl⟩, ?_⟩
      rw [← haid, hall, ← hid]
      refine iff_of_true ?_ (hd.captured hk hm)
      have hc' := hd.moved.coupled hc
      exact ⟨hm.mem_orders.mpr (Or.inl rfl), rfl, rfl, rfl, rfl, _,
        (hm.mem_transactions hc'.onePayment).mpr (Or.inl rfl), hm.orderId, rfl⟩
  case h_8 => cases h

/-- The course of a call is kept by a run of its own steps. -/
theorem Course.of_run {w w' : World} {r : IssueOrder} (hc : Coupled w.db)
    (hfree : ∀ t ∈ w.db.transactions, t.orderId = orderId → t.status ≠ .held)
    (h : IssueOrder.program.alone.Run (w, ⟨agentId, orderId, key, .requested⟩) xs (w', r)) :
    Course w.db agentId orderId key xs (w', r) := by
  refine h.trace (I := Course w.db agentId orderId key) ?_ (.requested ..)
  intro xs s x s' _ hs hC
  exact hC.step hc hfree hs

end Call

/-- Steps of one call of `issue_order`, with no step of another job between them. -/
def ownSteps (i : ℕ) (xs : List IssueChoice) : List (Action Job JobChoice) :=
  (((xs.map .inr).map .inr).map .inr).map (.advance i)

section Runs

variable {d : Deployment} {w : World} {c c' : Serving} {as : List (Action Job JobChoice)}
  {agentId orderId key : String} {xs : List IssueChoice} {r : IssueOrder}

end Runs

namespace Example

def issueCall (orderId : String) : Job := .inr (.inr (.inr ⟨"agent", orderId, "key", .requested⟩))

def outcome : Job → Option (Except Failure Issued)
  | .inr (.inr (.inr r)) => match r.phase with
    | .done result => some result
    | _ => none
  | _ => none

end Example

end Ioka
