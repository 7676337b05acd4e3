import Ioka.Audit.Rows
import Ioka.Booking.Coupling

/-! # What the booking service logs

Each block that writes an order logs the change of its status in the same
transaction, with the status that it read as the one before. The row of a
provider call is written by the same blocks, and by the block for a refused
booking.
-/

namespace Ioka

open Relational

section Blocks

variable {db db' : Database} {a : Agent} {o o' p : Order} {t : BalanceTransaction}
  {t? : Option BalanceTransaction} {agentId orderId key transactionId id : String}
  {record : IdempotencyRecord} {delta : Money}

theorem holdMoney_audit {debit : Option Money}
    (h : holdMoney db o a t? key transactionId = .ok (db', debit)) : db'.audit = db.audit := by
  unfold holdMoney at h
  split at h
  · split at h
    · cases h
    · obtain ⟨db₁, h₁, h⟩ := bind_eq_ok.mp h
      obtain ⟨db₂, h₂, h⟩ := bind_eq_ok.mp h
      obtain ⟨_, _, rfl⟩ := updateAgent_rows h₁
      obtain ⟨_, _, rfl⟩ := insertTransaction_rows h₂
      cases h
      rfl
  · split at h
    · split at h
      · cases h
      · obtain ⟨db₁, h₁, h⟩ := bind_eq_ok.mp h
        obtain ⟨db₂, h₂, h⟩ := bind_eq_ok.mp h
        obtain ⟨_, _, rfl⟩ := updateAgent_rows h₁
        obtain ⟨_, _, rfl⟩ := updateTransaction_rows h₂
        cases h
        rfl
    · cases h
      rfl

theorem issueOrderHold_audit {b : String} {debit : Option Money}
    (h : issueOrderHold db agentId orderId key transactionId = .ok (.held b debit, db')) :
    ∃ o ∈ db.orders, o.id = orderId ∧ db'.audit = (db.addStatusAudit "order" o.id "issue_started"
      (some o.status.value) OrderStatus.issuing.value).audit := by
  unfold issueOrderHold at h
  split at h
  · cases h
  · rename_i o ho
    split at h
    · cases h
    · obtain ⟨hmo, hid, _⟩ := agentOrder_eq_some.mp ho
      refine ⟨o, hmo, hid, ?_⟩
      unfold holdRows at h
      split at h
      · cases h
      · split at h
        · cases h
        · obtain ⟨⟨db₁, _⟩, h₁, h⟩ := bind_eq_ok.mp h
          obtain ⟨db₂, h₂, h⟩ := bind_eq_ok.mp h
          obtain ⟨_, _, rfl⟩ := updateOrder_rows h₂
          cases h
          simp only [Database.addStatusAudit, holdMoney_audit h₁]

theorem captureRows_logged {ticket : ProviderTicket} {durationMs : ℤ} {r : Issued}
    (h : captureRows db o a t key ticket durationMs = .ok (r, db')) (hs : o.status ≠ .issued) :
    CallLogged db db' "issue" 200
      ⟨("order", o.id), some o.status.value, OrderStatus.issued.value⟩ := by
  unfold captureRows at h
  rw [if_pos hs] at h
  split at h
  · cases h
  · obtain ⟨db₁, h₁, h⟩ := bind_eq_ok.mp h
    obtain ⟨db₂, h₂, h⟩ := bind_eq_ok.mp h
    obtain ⟨_, _, rfl⟩ := updateOrder_rows h₁
    obtain ⟨_, _, rfl⟩ := updateTransaction_rows h₂
    cases h
    exact .of_audit rfl

theorem issueOrderCapture_logged {ticket : ProviderTicket} {durationMs : ℤ} {r : Issued}
    (h : issueOrderCapture db agentId orderId key ticket durationMs = .ok (r, db'))
    (ho : o ∈ db.orders) (hid : o.id = orderId) (hs : o.status ≠ .issued) :
    CallLogged db db' "issue" 200
      ⟨("order", o.id), some o.status.value, OrderStatus.issued.value⟩ := by
  unfold issueOrderCapture at h
  split at h
  · rename_i q b t hq _ _
    obtain ⟨hmq, hqid, _⟩ := agentOrder_eq_some.mp hq
    obtain rfl := Database.order_ext hmq ho (hqid.trans hid.symm)
    exact captureRows_logged h hs
  · cases h

theorem releaseRows_logged {error : String} {refund : Option Money}
    (h : releaseRows db o a t error = .ok (db', refund)) (hs : t.status = .held) :
    CallLogged db db' "issue" 502
      ⟨("order", o.id), some o.status.value, OrderStatus.booked.value⟩ := by
  unfold releaseRows at h
  rw [if_pos hs] at h
  split at h
  · obtain ⟨db₁, h₁, h⟩ := bind_eq_ok.mp h
    obtain ⟨db₂, h₂, h⟩ := bind_eq_ok.mp h
    obtain ⟨db₃, h₃, h⟩ := bind_eq_ok.mp h
    obtain ⟨_, _, rfl⟩ := updateAgent_rows h₁
    obtain ⟨_, _, rfl⟩ := updateTransaction_rows h₂
    obtain ⟨_, _, rfl⟩ := updateOrder_rows h₃
    cases h
    exact .of_audit rfl
  · cases h

theorem releaseHold_logged {error : String} {refund : Option Money}
    (h : releaseHold db agentId orderId error = .ok (db', refund)) :
    (refund = none ∧ db' = db) ∨ ∃ o a t, o.id = orderId ∧ refund = some t.amount ∧
      Written db db' a o o.rebooked (some t) (t.withStatus .released) t.amount ∧
      CallLogged db db' "issue" 502
        ⟨("order", o.id), some o.status.value, OrderStatus.booked.value⟩ := by
  unfold releaseHold at h
  split at h
  · rename_i o a t ho ha ht
    obtain ⟨hmo, rfl⟩ := Database.order?_eq_some.mp ho
    obtain ⟨hma, rfl⟩ := Database.agent?_eq_some.mp ha
    rcases releaseRows_written hmo hma ht h with ⟨rfl, rfl, _⟩ | ⟨hr, hs, hw⟩
    · exact Or.inl ⟨rfl, rfl⟩
    · exact Or.inr ⟨o, a, t, rfl, hr, hw, releaseRows_logged h hs⟩
  · cases h
    exact Or.inl ⟨rfl, rfl⟩

theorem createOrderPersist_logged {payloadHash : String} {payload : OrderCreate} {offer : Offer}
    {booking : ProviderBooking} {durationMs : ℤ}
    (h : createOrderPersist db agentId payload key payloadHash offer booking orderId durationMs =
      .committed o db') :
    CallLogged db db' "book" 200 ⟨("order", o.id), none, o.status.value⟩ := by
  unfold createOrderPersist at h
  split at h
  · cases h
  · simp only at h
    split at h
    · cases h
    · rename_i db₁ h₁
      split at h
      · cases h
      · rename_i db₂ h₂
        obtain ⟨t₁, _, rfl⟩ := Database.writing_eq_ok.mp h₁
        obtain ⟨t₂, _, rfl⟩ := Database.writing_eq_ok.mp h₂
        cases h
        exact .of_audit rfl

/-! What the written rows make of the current statuses -/

theorem Written.order_self (h : Written db db' a o o' t? t delta) :
    db'.order? o.id = some o' :=
  Database.order?_eq_some.mpr ⟨h.mem_orders.mpr (Or.inl rfl), h.id⟩

theorem Written.order_of_ne (h : Written db db' a o o' t? t delta) (hne : id ≠ o.id) :
    db'.order? id = db.order? id := by
  ext p
  rw [Database.order?_eq_some, Database.order?_eq_some, h.mem_orders]
  constructor
  · rintro ⟨rfl | ⟨hp, _⟩, hid⟩
    · exact absurd (hid.symm.trans h.id) hne
    · exact ⟨hp, hid⟩
  · rintro ⟨hp, rfl⟩
    exact ⟨Or.inr ⟨hp, hne⟩, rfl⟩

theorem Written.search?_eq (h : Written db db' a o o' t? t delta) :
    db'.search? id = db.search? id := by
  rw [Database.search?, h.searches, Database.search?]

/-- A commit that writes an order and logs its change keeps the log in step. -/
theorem Written.logged (h : Written db db' a o o' t? t delta)
    (hc : db'.changes = db.changes ++ [⟨("order", o.id), some o.status.value, o'.status.value⟩]) :
    Logged db db' := by
  refine .change hc ?_ ?_ ?_
  · exact (Database.statusOf_order (Database.order?_eq_some.mpr ⟨h.order_mem, rfl⟩)).symm
  · exact Database.statusOf_order h.order_self
  · rintro ⟨kind, id⟩ hne
    refine Database.statusOf_congr ?_ fun _ => h.search?_eq
    rintro rfl
    exact h.order_of_ne fun hid => hne (by rw [← hid])

theorem Created.order_of_ne (h : Created db db' o record) (hne : id ≠ o.id) :
    db'.order? id = db.order? id := by
  ext p
  rw [Database.order?_eq_some, Database.order?_eq_some, h.mem_orders]
  constructor
  · rintro ⟨hp | rfl, hid⟩
    · exact ⟨hp, hid⟩
    · exact absurd hid.symm hne
  · rintro ⟨hp, hid⟩
    exact ⟨Or.inl hp, hid⟩

theorem Created.logged (h : Created db db' o record)
    (hc : db'.changes = db.changes ++ [⟨("order", o.id), none, o.status.value⟩]) :
    Logged db db' := by
  have hnew : db.order? o.id = none := by
    rw [Option.eq_none_iff_forall_ne_some]
    intro p hp
    obtain ⟨hmem, hid⟩ := Database.order?_eq_some.mp hp
    exact h.fresh hmem hid
  refine .change hc ?_ ?_ ?_
  · simp [Database.statusOf, hnew]
  · exact Database.statusOf_order
      (Database.order?_eq_some.mpr ⟨h.mem_orders.mpr (Or.inr rfl), rfl⟩)
  · rintro ⟨kind, id⟩ hne
    refine Database.statusOf_congr ?_ fun _ => by
      rw [Database.search?, h.searches, Database.search?]
    rintro rfl
    exact h.order_of_ne fun hid => hne (by rw [← hid])

end Blocks

section Steps

variable {sha256 : String → String} {w w' : World}

theorem IssueOrder.logged {r r' : IssueOrder} {x : IssueChoice}
    (h : r.advance w x = some (w', r')) : Logged w.db w'.db := by
  unfold IssueOrder.advance at h
  split at h
  case h_1 transactionId hp =>
    split at h
    · cases h
      exact .refl _
    · cases h
      exact .refl _
    · rename_i b debit db' hh
      cases h
      obtain ⟨q, hq, hqid, haud⟩ := issueOrderHold_audit hh
      obtain ⟨o, _, ho, hid, _, _, ⟨_, _, rfl⟩ | ⟨_, _, _, hm⟩⟩ := issueOrderHold_ok hh
      · exact .refl _
      · obtain rfl := Database.order_ext hq ho (hqid.trans hid.symm)
        apply hm.logged
        rw [Database.changes_congr haud, Database.changes_addStatusAudit]
        rfl
  case h_2 | h_3 | h_4 | h_5 =>
    cases h
    exact .refl _
  case h_6 e hp =>
    split at h
    · cases h
      exact .refl _
    · rename_i db' refund hh
      cases h
      rcases releaseHold_logged hh with ⟨_, rfl⟩ | ⟨_, _, _, _, _, hw, hl⟩
      · exact .refl _
      · exact hw.logged hl.changes
  case h_7 ticket durationMs hp =>
    split at h
    · cases h
      exact .refl _
    · rename_i res db' hh
      cases h
      obtain ⟨o, _, _, ho, hid, _, _, _, ⟨_, _, rfl⟩ | ⟨_, _, _, hm⟩⟩ :=
        issueOrderCapture_ok hh
      · exact .refl _
      · cases hm.move with
        | capture hs => exact hm.logged (issueOrderCapture_logged hh ho hid hs).changes
  case h_8 => cases h

theorem CreateOrder.logged {r r' : CreateOrder} {x : CreateChoice}
    (h : r.advance sha256 w x = some (w', r')) : Logged w.db w'.db := by
  unfold CreateOrder.advance at h
  split at h
  case h_1 | h_9 =>
    unfold CreateOrder.replay at h
    split at h <;> cases h <;> exact .refl _
  case h_2 =>
    split at h <;> cases h <;> exact .refl _
  case h_3 | h_4 | h_5 | h_6 =>
    cases h
    exact .refl _
  case h_7 e durationMs hp =>
    split at h
    · cases h
      exact .refl _
    · rename_i db' hh
      cases h
      obtain ⟨_, rfl⟩ := createOrderRefused_eq_ok.mp hh
      exact .silent Database.changes_addProviderAudit fun _ => rfl
  case h_8 offer booking orderId durationMs hp =>
    split at h
    · cases h
      exact .refl _
    · cases h
      exact .refl _
    · rename_i o db' hh
      cases h
      obtain ⟨_, _, rfl, hc⟩ := createOrderPersist_committed hh
      exact hc.logged (createOrderPersist_logged hh).changes
  case h_10 => cases h

theorem booking_logged {p p' : Request} {x : Choice}
    (h : (booking sha256).advance w p x = some (w', p')) : Logged w.db w'.db := by
  rcases Transition.Program.sum_advance h with
    ⟨r, r', y, rfl, rfl, rfl, ha⟩ | ⟨r, r', y, rfl, rfl, rfl, ha⟩
  · exact CreateOrder.logged ha
  · exact IssueOrder.logged ha

end Steps

end Ioka
