import Ioka.Booking.Effects

/-! # Steps of the requests

The inversion of one step of `create_order` and of `issue_order`: which phase it
leaves, what it commits, and with which result it ends.
-/

namespace Ioka

open Relational Transition

/-- The request is past its hold and has not ended. -/
def IssueOrder.Active (r : IssueOrder) : Prop :=
  match r.phase with
  | .requested | .done _ => False
  | _ => True

/-- The order of the request exists and belongs to its agent. -/
def IssueOrder.Owns (db : Database) (r : IssueOrder) : Prop :=
  ∃ o ∈ db.orders, o.id = r.orderId ∧ o.agentId = r.agentId

theorem IssueOrder.Owns.owner {db : Database} {r : IssueOrder} (h : r.Owns db) {o : Order}
    (ho : o ∈ db.orders) (hid : o.id = r.orderId) : o.agentId = r.agentId := by
  obtain ⟨p, hp, hpid, hown⟩ := h
  rw [Database.order_ext ho hp (hid.trans hpid.symm), hown]

/-- The rows of a database before and after an order is stored with its record. -/
structure Created (db db' : Database) (o : Order) (r : IdempotencyRecord) : Prop where
  orders : db'.orders.rows = db.orders.rows ++ [o]
  records : db'.records.rows = db.records.rows ++ [r]
  agents : db'.agents = db.agents
  transactions : db'.transactions = db.transactions
  searches : db'.searches = db.searches
  offers : db'.offers = db.offers

/-- What one step of an `issue_order` request does. -/
inductive IssueStep (w : World) (r : IssueOrder) : World → IssueOrder → Prop
  | failed {e : Failure} : (∀ result, r.phase ≠ .done result) →
      IssueStep w r w (r.finish (.error e))
  | found {o : Order} {a : Agent} : r.phase = .requested → o ∈ w.db.orders → o.id = r.orderId →
      o.agentId = r.agentId → o.status = .issued →
      IssueStep w r w (r.finish (.ok (o, a, .captured)))
  | held {db' : Database} {a : Agent} {o : Order} {t' : BalanceTransaction}
      {debit : Option Money} : r.phase = .requested → o.id = r.orderId → a.id = r.agentId →
      Moved (.hold r.idempotencyKey) w.db db' a o (o.holding r.idempotencyKey)
        (w.db.transactionOf o.id) t' (debit.toList.map (.debited r.agentId r.orderId)) →
      IssueStep w r (w.commit db' (debit.toList.map (.debited r.agentId r.orderId)))
        { r with phase := .held o.providerBookingId }
  | called {b : String} : r.phase = .held b →
      IssueStep w r (w.called (.issueCalled r.orderId b r.idempotencyKey))
        { r with phase := .issuing b }
  | answered {b : String} {ticket : ProviderTicket} : r.phase = .issuing b →
      IssueStep w r w { r with phase := .ticketed ticket }
  | raised {b : String} {e : Raised} : r.phase = .issuing b →
      IssueStep w r w { r with phase := .refused e }
  | unreleased {e : Raised} {f : Failure} : r.phase = .refused e →
      IssueStep w r w (r.finish (.error f))
  | released {e : Raised} {f : Failure} {db' : Database} {a : Agent} {o : Order}
      {t : BalanceTransaction} : r.phase = .refused e → o.id = r.orderId → a.id = r.agentId →
      Moved .release w.db db' a o o.rebooked (some t) (t.withStatus .released)
        [.refunded r.agentId r.orderId t.amount] →
      IssueStep w r (w.commit db' [.refunded r.agentId r.orderId t.amount])
        (r.finish (.error f))
  | recaptured {ticket : ProviderTicket} {o : Order} {a : Agent} {t : BalanceTransaction} :
      r.phase = .ticketed ticket → o ∈ w.db.orders → o.id = r.orderId →
      o.agentId = r.agentId → o.status = .issued → w.db.transactionOf o.id = some t →
      IssueStep w r w (r.finish (.ok (o, a, t.status)))
  | captured {ticket kept : ProviderTicket} {db' : Database} {a : Agent} {o : Order}
      {t : BalanceTransaction} : r.phase = .ticketed ticket → ticket.kept = some kept →
      o.id = r.orderId → a.id = r.agentId →
      Moved (.capture kept) w.db db' a o (o.ticketed kept) (some t) (t.withStatus .captured) [] →
      IssueStep w r (w.commit db' []) (r.finish (.ok (o.ticketed kept, a, .captured)))

section Issue

variable {w w' : World} {r r' : IssueOrder}

/-- Every step of an `issue_order` request is one of the listed ones. -/
theorem IssueOrder.advance_step {x : IssueChoice} (hown : r.Active → r.Owns w.db)
    (h : r.advance w x = some (w', r')) : IssueStep w r w' r' := by
  unfold IssueOrder.advance at h
  split at h
  case h_1 transactionId hp =>
    split at h
    · cases h
      exact .failed (by simp [hp])
    · rename_i o a db' hh
      cases h
      obtain ⟨o', a', ho, hid, haid, hown, ⟨hs, hr, -⟩ | ⟨_, _, hr, _⟩⟩ := issueOrderHold_ok hh
      · cases hr
        exact .found hp ho hid hown hs
      · cases hr
    · rename_i b debit db' hh
      cases h
      obtain ⟨o, a, ho, hid, haid, -, ⟨_, hr, _⟩ | ⟨t', debit', hr, hm⟩⟩ := issueOrderHold_ok hh
      · cases hr
      · cases hr
        exact .held hp hid haid hm
  case h_2 b hp => cases h; exact .called hp
  case h_3 ticket hp => cases h; exact .answered hp
  case h_4 e hp => cases h; exact .raised hp
  case h_5 hp => cases h; exact .failed (by simp [hp])
  case h_6 e hp =>
    split at h
    · cases h
      exact .unreleased hp
    · rename_i db' refund hh
      cases h
      rcases releaseHold_ok (fun o ho hid => (hown (by simp [Active, hp])).owner ho hid) hh with
        ⟨rfl, rfl⟩ | ⟨o, a, t, hid, haid, rfl, hm⟩
      · rw [Option.toList_none, List.map_nil, World.commit_self]
        exact .unreleased hp
      · exact .released hp hid haid hm
  case h_7 ticket durationMs hp =>
    split at h
    · cases h
      exact .failed (by simp [hp])
    · rename_i res db' hh
      cases h
      obtain ⟨o, a, t, ho, hid, haid, hown, ht, ⟨hs, rfl, rfl⟩ | ⟨kept, hk, rfl, hm⟩⟩ :=
        issueOrderCapture_ok hh
      · rw [World.commit_self]
        exact .recaptured hp ho hid hown hs ht
      · exact .captured hp hk hid haid hm
  case h_8 => cases h

theorem IssueStep.not_done (h : IssueStep w r w' r') (result : Except Failure Issued) :
    r.phase ≠ .done result := by
  cases h with
  | failed hd => exact hd result
  | found hp | held hp | called hp | answered hp | raised hp | unreleased hp | released hp
  | recaptured hp | captured hp =>
    rw [hp]
    simp

theorem IssueOrder.answer_of_ticketed {x : IssueChoice} {ticket : ProviderTicket}
    (h : r.advance w x = some (w', r')) (ht : r'.phase = .ticketed ticket) :
    x = .answer ticket ∧ ∃ providerBookingId, r.phase = .issuing providerBookingId := by
  unfold IssueOrder.advance at h
  split at h
  case h_1 => split at h <;> cases h <;> cases ht
  case h_2 => cases h; cases ht
  case h_3 b _ hp => cases h; cases ht; exact ⟨rfl, b, hp⟩
  case h_4 | h_5 => cases h; cases ht
  case h_6 => split at h <;> cases h <;> cases ht
  case h_7 => split at h <;> cases h <;> cases ht
  case h_8 => cases h

theorem IssueOrder.advance_agentId {x : IssueChoice} (h : r.advance w x = some (w', r')) :
    r'.agentId = r.agentId := by
  unfold IssueOrder.advance at h
  split at h
  case h_1 => split at h <;> cases h <;> rfl
  case h_6 => split at h <;> cases h <;> rfl
  case h_7 => split at h <;> cases h <;> rfl
  case h_8 => cases h
  all_goals cases h; rfl

end Issue

/-- What one step of a `create_order` request does. -/
inductive CreateStep (sha256 : String → String) (w : World) (r : CreateOrder) :
    World → CreateOrder → Prop
  | replayed {o : Order} {record : IdempotencyRecord} : (∀ result, r.phase ≠ .done result) →
      record ∈ w.db.records → record.agentId = r.agentId → record.scope = "create_order" →
      record.key = r.idempotencyKey → record.requestHash = r.payloadHash sha256 →
      o ∈ w.db.orders → o.id = record.resourceId →
      CreateStep sha256 w r w (r.finish (.ok o))
  | failed {e : Failure} : (∀ result, r.phase ≠ .done result) →
      CreateStep sha256 w r w (r.finish (.error e))
  | unseen : r.phase = .requested → CreateStep sha256 w r w { r with phase := .unseen }
  | offered {offer : Offer} {now : Time} : r.phase = .unseen →
      createOrderOffer w.db r.agentId r.payload now = .ok offer →
      CreateStep sha256 w r w { r with phase := .offered offer }
  | called {offer : Offer} : r.phase = .offered offer →
      CreateStep sha256 w r (w.called (.bookCalled offer.providerOfferId r.idempotencyKey))
        { r with phase := .booking offer }
  | answered {offer : Offer} {booking : ProviderBooking} : r.phase = .booking offer →
      CreateStep sha256 w r w { r with phase := .booked offer booking }
  | raised {offer : Offer} {e : Raised} : r.phase = .booking offer →
      CreateStep sha256 w r w { r with phase := .refused offer e }
  | audited {offer : Offer} {e : Raised} {f : Failure} {durationMs : ℤ} {db' : Database} :
      r.phase = .refused offer e →
      createOrderRefused w.db offer r.idempotencyKey e durationMs = .ok db' →
      CreateStep sha256 w r (w.commit db' []) (r.finish (.error f))
  | conflicted {offer : Offer} {booking : ProviderBooking} {e : Failure} :
      r.phase = .booked offer booking →
      CreateStep sha256 w r w { r with phase := .conflicted e }
  | committed {offer : Offer} {booking kept : ProviderBooking} {orderId : String}
      {db' : Database} : r.phase = .booked offer booking → booking.kept = some kept →
      Created w.db db' (newOrder orderId r.agentId r.payload offer kept)
        (newRecord r.agentId r.idempotencyKey (r.payloadHash sha256) orderId) →
      CreateStep sha256 w r
        (w.commit db' [.orderCommitted r.agentId r.idempotencyKey r.payload orderId])
        (r.finish (.ok (newOrder orderId r.agentId r.payload offer kept)))

section Create

variable {sha256 : String → String} {w w' : World} {r r' : CreateOrder} {db db' : Database}

theorem idempotentOrder_some {agentId scope key payloadHash : String} {o : Order}
    (h : idempotentOrder db agentId scope key payloadHash = .ok (some o)) :
    ∃ record ∈ db.records, record.agentId = agentId ∧ record.scope = scope ∧ record.key = key ∧
      record.requestHash = payloadHash ∧ o ∈ db.orders ∧ o.id = record.resourceId := by
  unfold idempotentOrder at h
  split at h
  · cases h
  · rename_i record hr
    obtain ⟨hm, hp⟩ := Table.mem_of_select hr
    simp only [Bool.decide_and, Bool.and_eq_true, decide_eq_true_eq] at hp
    split at h
    · cases h
    · rename_i hh
      obtain ⟨ho, hid⟩ := Database.order?_eq_some.mp (Except.ok.inj h)
      exact ⟨record, hm, hp.1, hp.2.1, hp.2.2, not_not.mp hh, ho, hid⟩

theorem idempotentOrder_none {agentId scope key payloadHash : String}
    (h : ∀ r ∈ db.records, r.agentId = agentId → r.scope = scope → r.key ≠ key) :
    idempotentOrder db agentId scope key payloadHash = .ok none := by
  have hs : db.records.select (fun r => r.agentId = agentId ∧ r.scope = scope ∧ r.key = key) =
      none := by
    rw [Table.select_eq_none]
    intro r hr
    simpa using h r hr
  unfold idempotentOrder
  rw [hs]

theorem select_newRecord {agentId key payloadHash orderId : String}
    (hr : newRecord agentId key payloadHash orderId ∈ db.records) :
    db.records.select (fun r => r.agentId = agentId ∧ r.scope = "create_order" ∧ r.key = key) =
      some (newRecord agentId key payloadHash orderId) := by
  rw [Table.select_eq_some]
  · exact ⟨hr, by simp [newRecord]⟩
  · intro r hr s hs h₁ h₂
    simp only [Bool.decide_and, Bool.and_eq_true, decide_eq_true_eq] at h₁ h₂
    exact Database.record_ext hr hs (h₁.1.trans h₂.1.symm) (h₁.2.1.trans h₂.2.1.symm)
      (h₁.2.2.trans h₂.2.2.symm)

theorem createOrderOffer_mem {agentId : String} {payload : OrderCreate} {now : Time}
    {offer : Offer} (h : createOrderOffer db agentId payload now = .ok offer) :
    offer ∈ db.offers := by
  unfold createOrderOffer at h
  split at h
  · cases h
  · rename_i o ho
    split at h
    · cases h
    · cases h
      exact (Table.mem_of_select ho).1

theorem createOrderPersist_committed {agentId key payloadHash orderId : String}
    {payload : OrderCreate} {offer : Offer} {booking : ProviderBooking} {durationMs : ℤ} {o : Order}
    (h : createOrderPersist db agentId payload key payloadHash offer booking orderId durationMs =
      .committed o db') :
    ∃ kept, booking.kept = some kept ∧ o = newOrder orderId agentId payload offer kept ∧
      Created db db' o (newRecord agentId key payloadHash orderId) := by
  unfold createOrderPersist at h
  split at h
  · cases h
  · rename_i kept hkept
    simp only at h
    split at h
    · cases h
    · rename_i db₁ h₁
      split at h
      · cases h
      · rename_i db₂ h₂
        obtain ⟨t₁, ht₁, rfl⟩ := Database.writing_eq_ok.mp h₁
        obtain ⟨t₂, ht₂, rfl⟩ := Database.writing_eq_ok.mp h₂
        cases h
        exact ⟨kept, hkept, rfl, Table.insert?_eq_some.mp ht₁, Table.insert?_eq_some.mp ht₂, rfl,
          rfl, rfl, rfl⟩

theorem createOrderRefused_eq_ok {offer : Offer} {key : String} {e : Raised} {durationMs : ℤ} :
    createOrderRefused db offer key e durationMs = .ok db' ↔ Storable e.message ∧
      db' = db.addProviderAudit "book" "offer" offer.id (bookRequestPayload offer key) none
        durationMs (if e.timeout then 504 else 502) (some e.message) := by
  unfold createOrderRefused
  split
  · rename_i hs
    rw [Except.ok.injEq, eq_comm]
    exact (and_iff_right hs).symm
  · rename_i hs
    exact iff_of_false (by simp) fun h => hs h.1

theorem CreateOrder.replay_step (missing : CreatePhase) (hp : ∀ result, r.phase ≠ .done result) :
    (r.replay sha256 w missing = (w, { r with phase := missing })) ∨
      ∃ r', r.replay sha256 w missing = (w, r') ∧ CreateStep sha256 w r w r' := by
  unfold CreateOrder.replay
  split
  · exact Or.inr ⟨_, rfl, .failed hp⟩
  · rename_i o ho
    obtain ⟨record, hm, ha, hs, hk, hh, hmo, hid⟩ := idempotentOrder_some ho
    exact Or.inr ⟨_, rfl, .replayed hp hm ha hs hk hh hmo hid⟩
  · exact Or.inl rfl

/-- Every step of a `create_order` request is one of the listed ones. -/
theorem CreateOrder.advance_step {x : CreateChoice}
    (h : r.advance sha256 w x = some (w', r')) : CreateStep sha256 w r w' r' := by
  unfold CreateOrder.advance at h
  split at h
  case h_1 hp =>
    have hd : ∀ result, r.phase ≠ .done result := by simp [hp]
    rcases replay_step .unseen hd with he | ⟨r₁, he, hs⟩
    · rw [he] at h
      cases h
      exact .unseen hp
    · rw [he] at h
      cases h
      exact hs
  case h_2 now hp =>
    split at h
    · cases h
      exact .failed (by simp [hp])
    · rename_i offer ho
      cases h
      exact .offered hp ho
  case h_3 offer hp => cases h; exact .called hp
  case h_4 booking hp => cases h; exact .answered hp
  case h_5 e hp => cases h; exact .raised hp
  case h_6 hp => cases h; exact .failed (by simp [hp])
  case h_7 e durationMs hp =>
    split at h
    · cases h
      exact .failed (by simp [hp])
    · rename_i db' hok
      cases h
      exact .audited hp hok
  case h_8 offer booking orderId durationMs hp =>
    split at h
    · cases h
      exact .failed (by simp [hp])
    · cases h
      exact .conflicted hp
    · rename_i o db' hc
      cases h
      obtain ⟨kept, hk, rfl, hc⟩ := createOrderPersist_committed hc
      exact .committed hp hk hc
  case h_9 e hp =>
    have hd : ∀ result, r.phase ≠ .done result := by simp [hp]
    rcases replay_step (.done (.error e)) hd with he | ⟨r₁, he, hs⟩
    · rw [he] at h
      cases h
      exact .failed (by simp [hp])
    · rw [he] at h
      cases h
      exact hs
  case h_10 => cases h

end Create

/-- Every step of a booking request is a step of `create_order` or of `issue_order`. -/
theorem booking_step {sha256 : String → String} {w w' : World} {p p' : Request} {x : Choice}
    (hown : ∀ r, p = .inr r → r.Active → r.Owns w.db)
    (h : (booking sha256).advance w p x = some (w', p')) :
    (∃ r r', p = .inl r ∧ p' = .inl r' ∧ CreateStep sha256 w r w' r') ∨
    (∃ r r', p = .inr r ∧ p' = .inr r' ∧ IssueStep w r w' r') := by
  rcases Program.sum_advance h with ⟨r, r', y, rfl, rfl, rfl, ha⟩ | ⟨r, r', y, rfl, rfl, rfl, ha⟩
  · exact Or.inl ⟨r, r', rfl, rfl, CreateOrder.advance_step ha⟩
  · exact Or.inr ⟨r, r', rfl, rfl, IssueOrder.advance_step (hown r rfl) ha⟩

/-- The tables that no booking request writes are as they were. -/
structure SearchesKept (db db' : Database) : Prop where
  searches : db'.searches = db.searches
  offers : db'.offers = db.offers

theorem IssueOrder.searchesKept {w w' : World} {r r' : IssueOrder} {x : IssueChoice}
    (h : r.advance w x = some (w', r')) : SearchesKept w.db w'.db := by
  unfold IssueOrder.advance at h
  split at h
  case h_1 transactionId hp =>
    split at h
    · cases h
      exact ⟨rfl, rfl⟩
    · cases h
      exact ⟨rfl, rfl⟩
    · rename_i b debit db' hh
      cases h
      obtain ⟨_, _, _, _, _, _, ⟨_, _, rfl⟩ | ⟨_, _, _, hm⟩⟩ := issueOrderHold_ok hh
      · exact ⟨rfl, rfl⟩
      · exact ⟨hm.searches, hm.offers⟩
  case h_2 | h_3 | h_4 | h_5 =>
    cases h
    exact ⟨rfl, rfl⟩
  case h_6 e hp =>
    split at h
    · cases h
      exact ⟨rfl, rfl⟩
    · rename_i db' refund hh
      cases h
      rcases releaseHold_written hh with rfl | ⟨_, _, _, _, hw⟩
      · exact ⟨rfl, rfl⟩
      · exact ⟨hw.searches, hw.offers⟩
  case h_7 ticket durationMs hp =>
    split at h
    · cases h
      exact ⟨rfl, rfl⟩
    · rename_i res db' hh
      cases h
      obtain ⟨_, _, _, _, _, _, _, _, ⟨_, _, rfl⟩ | ⟨_, _, _, hm⟩⟩ := issueOrderCapture_ok hh
      · exact ⟨rfl, rfl⟩
      · exact ⟨hm.searches, hm.offers⟩
  case h_8 => cases h

theorem booking_searchesKept {sha256 : String → String} {w w' : World} {p p' : Request}
    {x : Choice} (h : (booking sha256).advance w p x = some (w', p')) :
    SearchesKept w.db w'.db := by
  rcases Program.sum_advance h with ⟨r, r', y, rfl, rfl, rfl, ha⟩ | ⟨r, r', y, rfl, rfl, rfl, ha⟩
  · cases CreateOrder.advance_step ha with
    | committed _ _ hc => exact ⟨hc.searches, hc.offers⟩
    | audited _ hr =>
      obtain ⟨_, rfl⟩ := createOrderRefused_eq_ok.mp hr
      exact ⟨rfl, rfl⟩
    | _ => exact ⟨rfl, rfl⟩
  · exact IssueOrder.searchesKept ha

end Ioka
