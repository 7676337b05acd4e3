import Ioka.Booking.Conservation
import Ioka.Booking.IssueKeys
import Ioka.Booking.Retry
import Ioka.Platform.Compensation

/-! # Holds and the calls behind them

Money is on hold only while a call of `issue_order` that shares the hold is under way, or after
such a call was aborted. A hold that is left behind can still be captured or given back, and all
of them can be given back one by one.
-/

namespace Ioka

open Relational Transition

/-- The database has refused a write of the call, or the call was cancelled. -/
def IssueOrder.Aborted (r : IssueOrder) : Prop :=
  r.phase = .done (.error .integrityError) ∨ r.phase = .done (.error .dbapiError) ∨
    r.phase = .done (.error .cancelledError)

namespace Example

/-- A call that commits its hold and crashes. -/
def crashedHold : List (Action Job JobChoice) :=
  .spawn (issueCall "order") :: ownSteps 0 [.hold "transaction"]

theorem exec_crashedHold : ∃ c : Serving, ∃ t,
    (serving deployment).machine.Run (Program.start (Platform.start booked)) crashedHold c ∧
    t ∈ c.store.world.db.transactions ∧ t.status = .held ∧
    c.store.world.db.orders.rows.map (·.id) = [t.orderId] := by
  have hrun : ((serving deployment).machine.exec (Program.start (Platform.start booked))
      crashedHold).map (fun c =>
        (c.store.world.db.transactions.rows.map (fun t => (t.status, t.orderId)),
          c.store.world.db.orders.rows.map (·.id))) =
      some ([(.held, "order")], ["order"]) := by
    decide +kernel
  obtain ⟨c, hc, he⟩ := Option.map_eq_some_iff.mp hrun
  obtain ⟨hpayments, hids⟩ := Prod.mk.inj he
  obtain ⟨t, ht, hst⟩ : ∃ t ∈ c.store.world.db.transactions.rows,
      (t.status, t.orderId) = (.held, "order") :=
    List.mem_map.mp (hpayments ▸ List.mem_singleton.mpr rfl)
  obtain ⟨hheld, hid⟩ := Prod.mk.inj hst
  exact ⟨c, t, Machine.exec_eq_some_iff.mp hc, ht, hheld, by rw [hids, hid]⟩

end Example

/-- Each payment on hold has an agent, and a call that shares the hold: one that is under way, or
one that was aborted. -/
def Backed (db : Database) (jobs : List Job) : Prop :=
  ∀ t ∈ db.transactions, t.status = .held → (∃ a ∈ db.agents, a.id = t.agentId) ∧
    ∃ r : IssueOrder, .inr (.inr (.inr r)) ∈ jobs ∧ r.orderId = t.orderId ∧
      (r.Active ∨ r.Aborted)

section Step

variable {sha256 : String → String} {w w' : World} {r r' : IssueOrder} {x : IssueChoice}
  {t : BalanceTransaction} {p : Request}

theorem IssueOrder.advance_requested (hp : r.phase = .requested)
    (h : r.advance w x = some (w', r')) : r'.Active ∨ w'.db = w.db := by
  unfold advance at h
  split at h
  case h_1 =>
    split at h
    · cases h
      exact Or.inr rfl
    · rename_i o a db' hh
      cases h
      obtain ⟨_, _, _, _, _, _, ⟨_, _, rfl⟩ | ⟨_, _, hr, _⟩⟩ := issueOrderHold_ok hh
      · exact Or.inr rfl
      · cases hr
    · cases h
      exact Or.inl trivial
  case h_8 => cases h
  all_goals rename_i hq; rw [hp] at hq; cases hq

/-- A call past its hold goes on, is aborted, or leaves no money on hold. -/
theorem IssueOrder.Pending.settles (hp : r.Pending w.db) (hact : r.Active) (hc : Coupled w.db)
    (h : r.advance w x = some (w', r')) :
    r'.Active ∨ r'.Aborted ∨
      ∀ t ∈ w'.db.transactions, t.orderId = r.orderId → t.status ≠ .held := by
  obtain ⟨a, o, t, hat, hoid, haid, hown⟩ := hp.exists_at hc
  have hown_payment : ∀ u ∈ w.db.transactions, u.orderId = r.orderId → u = t := by
    intro u hu huo
    obtain ⟨ht, hto⟩ := mem_of_transactionOf hat.payment
    exact hc.onePayment u hu t ht (huo.trans (hto.trans hoid).symm)
  unfold advance at h
  split at h
  case h_1 hq => simp [Active, hq] at hact
  case h_2 | h_3 | h_4 =>
    cases h
    exact Or.inl trivial
  case h_5 =>
    cases h
    exact Or.inr (Or.inl (Or.inr (Or.inr rfl)))
  case h_6 e hq =>
    right
    by_cases hheld : t.status = .held
    · by_cases he : ¬ Storable e.text
      · have hrel := hat.release_untaken hheld he
        rw [hoid, haid] at hrel
        simp only [hrel] at h
        cases h
        exact Or.inl (Or.inr (Or.inl rfl))
      right
      obtain ⟨db', hok⟩ := hat.exists_release hheld (not_not.mp he)
      have hm := hat.release_moved hown hok
      rw [hoid, haid] at hok
      simp only [hok] at h
      cases h
      intro u hu huo
      rcases (hm.mem_transactions hc.onePayment).mp hu with rfl | ⟨_, hne⟩
      · simp [BalanceTransaction.withStatus]
      · exact absurd (huo.trans hoid.symm) hne
    · right
      have hok : releaseHold w.db a.id o.id e.text = .ok (w.db, none) := by
        rw [hat.releaseHold_eq, releaseRows, if_neg hheld]
      rw [hoid, haid] at hok
      simp only [hok] at h
      cases h
      intro u hu huo
      rw [hown_payment u hu huo]
      exact hheld
  case h_7 ticket durationMs hq =>
    cases hcap : issueOrderCapture w.db r.agentId r.orderId r.idempotencyKey ticket durationMs with
    | error e =>
      simp only [hcap] at h
      cases h
      rw [← haid, ← hoid, hat.issueOrderCapture_eq hown] at hcap
      right; left
      rcases captureRows_error hcap with rfl | rfl
      · exact Or.inl rfl
      · exact Or.inr (Or.inl rfl)
    | ok res =>
      obtain ⟨result, db'⟩ := res
      simp only [hcap] at h
      cases h
      right; right
      intro u hu huo
      obtain ⟨o', a', t', ho', hoid', _, _, ht', ⟨hs, _, rfl⟩ | ⟨kept, _, _, hm⟩⟩ :=
        issueOrderCapture_ok hcap
      · have hst := (hc.standing o' ho').status
        rw [hs, ht'] at hst
        obtain ⟨hmem', hto'⟩ := mem_of_transactionOf ht'
        rw [hc.onePayment u hu t' hmem' (huo.trans (hto'.trans hoid').symm)]
        intro hheld
        simp [Pairing, hheld] at hst
      · rcases (hm.mem_transactions hc.onePayment).mp hu with rfl | ⟨_, hne⟩
        · simp [BalanceTransaction.withStatus]
        · exact absurd (huo.trans hoid'.symm) hne
  case h_8 => cases h

theorem Effect.payment_cases (h : Effect sha256 w p w') (hc : Coupled w.db)
    (ht : t ∈ w'.db.transactions) : t ∈ w.db.transactions ∨
      ∃ r, p = .inr r ∧ t.orderId = r.orderId ∧ ∃ a ∈ w'.db.agents, a.id = t.agentId := by
  cases h with
  | quiet => exact Or.inl ht
  | @moved r db' phase a o o' t? t' es _ hid _ hm =>
    rcases (hm.mem_transactions hc.onePayment).mp ht with rfl | ⟨ht, _⟩
    · have hst := hm.move.standing (hm.payment ▸ hc.standing o hm.order_mem)
      obtain ⟨_, _, hag, hto⟩ := hst.payment _ rfl
      refine Or.inr ⟨r, rfl, hto.trans (hm.move.sameBooking.id.trans hid), _,
        hm.mem_agents.mpr (Or.inl rfl), ?_⟩
      exact (hag.trans (hm.move.sameBooking.agentId.trans hm.owner)).symm
    · exact Or.inl ht
  | created _ _ hcr =>
    rw [World.commit_db, hcr.transactions] at ht
    exact Or.inl ht

end Step

section Runs

variable {d : Deployment} {w : World} {c c' : Serving} {i : ℕ} {x : JobChoice} {j j' q : Job}
  {s s' : Platform} {as : List (Action Job JobChoice)} {G : Serving → Action Job JobChoice → Prop}

theorem Backed.other {db db' : Database} {jobs : List Job} (h : Backed db jobs)
    (hi : jobs[i]? = some j) (hagents : ∀ a ∈ db.agents, ∃ b ∈ db'.agents, b.id = a.id)
    (ht : ∀ t ∈ db'.transactions, t ∈ db.transactions)
    (hj : ∀ r : IssueOrder, j = .inr (.inr (.inr r)) →
      ¬ r.Active ∧ ¬ r.Aborted) : Backed db' (jobs.set i j') := by
  intro t hmem hheld
  obtain ⟨⟨a, ha, haid⟩, r, hr, hto, hcase⟩ := h t (ht t hmem) hheld
  obtain ⟨b, hb, hbid⟩ := hagents a ha
  refine ⟨⟨b, hb, hbid.trans haid⟩, r, Program.mem_set_of_ne hi hr ?_, hto, hcase⟩
  intro he
  obtain ⟨hact, hdone⟩ := hj r he.symm
  exact hcase.elim hact hdone

/-- A step of a call of `issue_order` keeps every hold backed. -/
theorem Backed.issue {jobs : List Job} {w w' : World} {r r' : IssueOrder} {x : IssueChoice}
    (h : Backed w.db jobs) (hi : jobs[i]? = some (.inr (.inr (.inr r)))) (hc : Coupled w.db)
    (hv : r.Active → r.Pending w.db) (ha : r.advance w x = some (w', r')) :
    Backed w'.db (jobs.set i (.inr (.inr (.inr r')))) := by
  have hbook : (booking id).advance w (.inr r) (.inr x) = some (w', .inr r') := by
    simp only [booking, Program.sum, IssueOrder.program, ha, Option.map_some]
  obtain ⟨he, _, hcont⟩ := booking_effect hbook hv hc
  have hid : r'.orderId = r.orderId := by
    cases hcont
    rfl
  have hgrows := he.extends hc
  intro t ht hheld
  have hold (hmem : t ∈ w.db.transactions) : (∃ b ∈ w'.db.agents, b.id = t.agentId) ∧
      ∃ q : IssueOrder, .inr (.inr (.inr q)) ∈ jobs ∧ q.orderId = t.orderId ∧
        (q.Active ∨ q.Aborted) := by
    obtain ⟨⟨a, ha, haid⟩, q, hq, hqt, hcase⟩ := h t hmem hheld
    obtain ⟨b, hb, hbid, _⟩ := hgrows.agents a ha
    exact ⟨⟨b, hb, hbid.trans haid⟩, q, hq, hqt, hcase⟩
  by_cases hto : t.orderId = r.orderId
  · have hagent : ∃ b ∈ w'.db.agents, b.id = t.agentId := by
      rcases he.payment_cases hc ht with hmem | ⟨_, _, _, hb⟩
      · exact (hold hmem).1
      · exact hb
    refine ⟨hagent, ?_⟩
    by_cases hact : r.Active
    · rcases (hv hact).settles hact hc ha with h' | h' | h'
      · exact ⟨r', Program.mem_set_self hi, hid.trans hto.symm, Or.inl h'⟩
      · exact ⟨r', Program.mem_set_self hi, hid.trans hto.symm, Or.inr h'⟩
      · exact absurd hheld (h' t ht hto)
    · have hp : r.phase = .requested := by
        cases hp : r.phase with
        | requested => rfl
        | done result => simp [IssueOrder.advance, hp] at ha
        | _ => simp [IssueOrder.Active, hp] at hact
      rcases IssueOrder.advance_requested hp ha with h' | hdb
      · exact ⟨r', Program.mem_set_self hi, hid.trans hto.symm, Or.inl h'⟩
      · rw [hdb] at ht
        obtain ⟨_, q, hq, hqt, hcase⟩ := hold ht
        refine ⟨q, Program.mem_set_of_ne hi hq ?_, hqt, hcase⟩
        intro he
        obtain rfl : q = r := by simpa using he
        rcases hcase with hcase | hcase
        · exact hact hcase
        · simp [IssueOrder.Aborted, hp] at hcase
  · rcases he.payment_cases hc ht with hmem | ⟨q, hq, hqt, _⟩
    · obtain ⟨hagent, q, hq, hqt, hcase⟩ := hold hmem
      refine ⟨hagent, q, Program.mem_set_of_ne hi hq ?_, hqt, hcase⟩
      intro he
      obtain rfl : q = r := by simpa using he
      exact hto hqt.symm
    · obtain rfl := Sum.inr.inj hq
      exact absurd hqt hto

theorem Backed.step (hi : c.procs[i]? = some j) (h : Backed c.store.world.db c.procs)
    (hc : Coupled c.store.world.db) (hv : Job.Valid c.store.world.db j)
    (hs : JobStep d c.store j x s' j') : Backed s'.world.db (c.procs.set i j') := by
  cases hs with
  | start ha =>
    rcases (StartSearch.advance_step ha).db with he | ⟨db', _, _, _, he, hst⟩
    · rw [he]
      exact h.other hi (fun a ha => ⟨a, ha, rfl⟩) (fun t ht => ht) (by simp)
    · rw [he]
      refine h.other hi ?_ ?_ (by simp)
      · intro a ha
        exact ⟨a, by rwa [World.commit_db, hst.agents], rfl⟩
      · intro t ht
        rwa [World.commit_db, hst.transactions] at ht
  | process ha =>
    rcases (ProcessSearch.advance_step ha).db with he | ⟨q, q', offers, _, _, hw⟩
    · rw [Platform.withWorld_world, he]
      exact h.other hi (fun a ha => ⟨a, ha, rfl⟩) (fun t ht => ht) (by simp)
    · refine h.other hi ?_ ?_ (by simp)
      · intro a ha
        exact ⟨a, by rwa [Platform.withWorld_world, hw.agents], rfl⟩
      · intro t ht
        rwa [Platform.withWorld_world, hw.transactions] at ht
  | book ha =>
    rcases Program.sum_advance ha with ⟨r, r', y, rfl, rfl, rfl, hr⟩ | ⟨r, r', y, rfl, rfl, rfl, hr⟩
    · obtain ⟨he, _, _⟩ := booking_effect ha hv hc
      refine h.other hi ?_ ?_ (by simp)
      · intro a ha
        obtain ⟨b, hb, hid, _⟩ := (he.extends hc).agents a ha
        exact ⟨b, hb, hid⟩
      · intro t ht
        rcases he.payment_cases hc ht with ht | ⟨_, hq, _⟩
        · exact ht
        · cases hq
    · exact h.issue hi hc hv hr

theorem backed_of_run (h : (serving d).machine.RunWhere G c as c') (hc : Steady c)
    (hb : Backed c.store.world.db c.procs) :
    Steady c' ∧ Backed c'.store.world.db c'.procs := by
  refine h.invariant (I := fun c => Steady c ∧ Backed c.store.world.db c.procs) ?_ ⟨hc, hb⟩
  rintro c a c' hg hs ⟨hc, hb⟩
  refine ⟨steady_of_run (G := fun _ _ => True) (.cons trivial hs (.nil c')) hc, ?_⟩
  cases a with
  | spawn j =>
    obtain ⟨_, rfl⟩ := Program.step_spawn_iff.mp hs
    intro t ht hheld
    obtain ⟨hagent, r, hr, hcase⟩ := hb t ht hheld
    exact ⟨hagent, r, List.mem_append_left _ hr, hcase⟩
  | advance i x =>
    obtain ⟨j, s', j', hj, ha, rfl⟩ := Program.step_advance_iff.mp hs
    exact hb.step hj hc.1 (hc.2 j (List.mem_of_getElem? hj)) (serving_step ha)

theorem Unpaid.backed (hu : Unpaid w.db) (jobs : List Job) : Backed w.db jobs := by
  intro t ht
  simp [Table.mem_def, hu.transactions] at ht

/-- Money is on hold only while a call that shares the hold is under way, or after the database
refused a write of such a call or it was cancelled. When all have ended otherwise, no money is on
hold and every order is booked or issued. -/
theorem holds_backed (hu : Unpaid w.db)
    (h : (serving d).machine.RunWhere G (Program.start (Platform.start w)) as c) :
    (∀ t ∈ c.store.world.db.transactions, t.status = .held → ∃ r : IssueOrder,
      .inr (.inr (.inr r)) ∈ c.procs ∧ r.orderId = t.orderId ∧ (r.Active ∨ r.Aborted)) ∧
    ((∀ r : IssueOrder, .inr (.inr (.inr r)) ∈ c.procs → ¬ r.Active ∧ ¬ r.Aborted) →
      (∀ t ∈ c.store.world.db.transactions, t.status ≠ .held) ∧
      ∀ o ∈ c.store.world.db.orders, o.status = .booked ∨ o.status = .issued) := by
  obtain ⟨hc, hb⟩ := backed_of_run h (steady_start (s := Platform.start w) hu.coupled)
    (hu.backed _)
  refine ⟨fun t ht hheld => (hb t ht hheld).2, fun hend => ?_⟩
  have hnone : ∀ t ∈ c.store.world.db.transactions, t.status ≠ .held := by
    intro t ht hheld
    obtain ⟨_, r, hr, _, hcase⟩ := hb t ht hheld
    exact hcase.elim (hend r hr).1 (hend r hr).2
  refine ⟨hnone, fun o ho => ?_⟩
  by_cases hi : o.status = .issued
  · exact Or.inr hi
  · refine Or.inl (booked_of_pairing (hc.1.standing o ho).status hi ?_).1
    intro hpay
    obtain ⟨t, ht, hheld⟩ := Option.map_eq_some_iff.mp hpay
    exact hnone t (mem_of_transactionOf ht).1 hheld

/-- The money that the crashed call holds is backed by it. -/
theorem holds_backed_crashedHold : ∃ (c : Serving) (r : IssueOrder),
    .inr (.inr (.inr r)) ∈ c.procs ∧ [r.orderId] = c.store.world.db.orders.rows.map (·.id) ∧
      (r.Active ∨ r.Aborted) := by
  obtain ⟨c, t, h, ht, hheld, hids⟩ := Example.exec_crashedHold
  obtain ⟨r, hr, hto, hcase⟩ := (holds_backed Example.unpaid_booked h).1 t ht hheld
  exact ⟨c, r, hr, by rw [hids, hto], hcase⟩

theorem run_issue {r r' : IssueOrder} {xs : List IssueChoice} {w' : World}
    (hp : r.phase = .requested)
    (h : IssueOrder.program.alone.Run (c.store.world, r) xs (w', r')) :
    ∃ c', (serving d).machine.Run c
      (.spawn (.inr (.inr (.inr r))) :: ownSteps c.procs.length xs) c' ∧
        c'.store.world = w' ∧ c'.procs.length = c.procs.length + 1 := by
  have hfresh : (serving d).fresh (.inr (.inr (.inr r))) = true :=
    (booking_fresh_issue d.sha256).mpr hp
  exact ⟨_, Program.run_of_fresh rfl hfresh (serving_alone_book (Program.alone_inr h)), rfl,
    List.length_append⟩

/-- The call that may go on with a hold. -/
def Order.reissue (o : Order) (key : String) : IssueOrder := ⟨o.agentId, o.id, key, .requested⟩

theorem At.rejoin {db : Database} {a : Agent} {o : Order} {t : BalanceTransaction} {key : String}
    (hat : At db a o (some t)) (hc : Coupled db) (hown : o.agentId = a.id)
    (hheld : t.status = .held) (hkey : o.issueIdempotencyKey = some key) :
    ∃ transactionId db', issueOrderHold db a.id o.id key transactionId =
        .ok (.held o.providerBookingId none, db') ∧
      Moved (.hold key) db db' a o o (some t) t [] := by
  have hissuing : o.status = .issuing := by
    have hst := (hc.standing o hat.order).status
    rw [hat.payment] at hst
    revert hst
    cases o.status <;> simp [Pairing, hheld]
  have hsame : o.holding key = o := by
    rw [Order.holding, ← hissuing, ← hkey]
  have hw : holdWrites o a (some t) key = true :=
    holdWrites_iff.mpr
      ⟨by simp [hissuing], by simp [Order.otherKey, hkey], Or.inl (by simp [hheld])⟩
  obtain ⟨transactionId, hnew⟩ := Retry.exists_fresh (db.transactions.rows.map (·.id))
  have hid : ∀ u ∈ db.transactions, u.id ≠ transactionId := by
    rintro u hu rfl
    exact hnew (List.mem_map_of_mem hu)
  have hfree : keyFree db.orders.rows db.transactions.rows o (some t) key = true := by
    refine keyFree_iff.mpr ⟨fun p hp hpk => ?_, by simp⟩
    rw [Database.order_ext_of_key hp hat.order hpk hkey]
  obtain ⟨debit, db', hok⟩ := hat.exists_hold hown hw hid hfree
  obtain ⟨t', debit', hr, hm⟩ := hat.hold_moved (by simp [hissuing]) hok
  obtain rfl : debit = debit' := (HoldResult.held.inj hr).2
  -- The money is held already, so the hold neither debits nor writes another payment.
  have hjoin : debit = none ∧ t' = t := by
    have hmove := hm.move
    generalize hes : debit.toList.map (Event.debited a.id o.id) = es at hmove
    cases hmove with
    | debitAgain _ _ _ hr =>
      rw [hheld] at hr
      cases hr
    | join => cases debit <;> simp_all
  obtain ⟨rfl, rfl⟩ := hjoin
  rw [hsame] at hm
  exact ⟨transactionId, db', hok, hm⟩

theorem Moved.rejoined {db db' : Database} {a : Agent} {o : Order} {t : BalanceTransaction}
    {phase : Phase} (hm : Moved phase db db' a o o (some t) t []) (hc : OnePayment db) :
    At db' a o (some t) ∧ (∀ b, b ∈ db'.agents ↔ b ∈ db.agents) ∧
      (∀ p, p ∈ db'.orders ↔ p ∈ db.orders) ∧
      ∀ g : BalanceTransaction → Money, (db'.transactions.rows.map g).sum =
        (db.transactions.rows.map g).sum := by
  obtain ⟨_, hat⟩ := hm.at hc ⟨hm.agent_mem, hm.order_mem, hm.payment⟩ rfl rfl
  refine ⟨by simpa using hat, fun b => ?_, fun p => ?_, fun g => by simp [hm.sum_transactions]⟩
  · rw [hm.mem_agents]
    constructor
    · rintro (rfl | ⟨hb, _⟩)
      · simpa using hm.agent_mem
      · exact hb
    · intro hb
      by_cases hid : b.id = a.id
      · exact Or.inl (by simp [Database.agent_ext hb hm.agent_mem hid])
      · exact Or.inr ⟨hb, hid⟩
  · rw [hm.mem_orders]
    constructor
    · rintro (rfl | ⟨hp, _⟩)
      · exact hm.order_mem
      · exact hp
    · intro hp
      by_cases hid : p.id = o.id
      · exact Or.inl (Database.order_ext hp hm.order_mem hid)
      · exact Or.inr ⟨hp, hid⟩

section Recovery

variable {a : Agent} {o : Order} {t : BalanceTransaction} {key : String}

theorem At.exists_ticketed (hat : At w.db a o (some t)) (hc : OnePayment w.db)
    (hown : o.agentId = a.id) (hissued : o.status ≠ .issued) (key providerBookingId : String)
    {ticket : ProviderTicket} (hfits : Fits 64 ticket.ticketNumber)
    (htk : ∀ p ∈ w.db.orders, p.ticketNumber = some ticket.ticketNumber → p.id = o.id) :
    ∃ w', IssueOrder.program.alone.Run (w, ⟨a.id, o.id, key, .held providerBookingId⟩)
        [.call, .answer ticket, .capture 0]
        (w', ⟨a.id, o.id, key, .done (.ok (o.ticketed ticket, a, .captured))⟩) ∧
      At w'.db a (o.ticketed ticket) (some (t.withStatus .captured)) := by
  have hkept := ProviderTicket.kept_of_fits hfits
  obtain ⟨result, db', hcap⟩ := hat.exists_capture key 0 hown hissued hkept htk
  obtain ⟨kept, hk, rfl, hm⟩ := hat.capture_moved hissued hcap
  obtain rfl := Option.some.inj (hkept.symm.trans hk)
  obtain ⟨_, hat'⟩ := hm.at hc hat rfl rfl
  let called := w.called (.issueCalled o.id providerBookingId key)
  have hcapture : IssueOrder.advance called ⟨a.id, o.id, key, .ticketed ticket⟩ (.capture 0) =
      some (called.commit db' [],
        ⟨a.id, o.id, key, .done (.ok (o.ticketed ticket, a, .captured))⟩) := by
    simp only [IssueOrder.advance, called, World.called_db, hcap]
    rfl
  refine ⟨_, .cons trivial rfl (.cons trivial rfl (.cons trivial hcapture (.nil _))), ?_⟩
  simpa using hat'

theorem At.exists_captured (hat : At w.db a o (some t)) (hc : Coupled w.db)
    (hown : o.agentId = a.id) (hheld : t.status = .held) (hkey : o.issueIdempotencyKey = some key)
    {ticket : ProviderTicket} (hfits : Fits 64 ticket.ticketNumber)
    (htk : ∀ p ∈ w.db.orders, p.ticketNumber ≠ some ticket.ticketNumber) :
    ∃ transactionId w' r', IssueOrder.program.alone.Run (w, o.reissue key)
        [.hold transactionId, .call, .answer ticket, .capture 0] (w', r') ∧
      At w'.db a (o.ticketed ticket) (some (t.withStatus .captured)) := by
  obtain ⟨transactionId, db', hhold, hm⟩ := hat.rejoin hc hown hheld hkey
  obtain ⟨hat', _, horders, _⟩ := hm.rejoined hc.onePayment
  have hissued : o.status ≠ .issued := by
    intro hs
    have hst := (hc.standing o hat.order).status
    rw [hat.payment] at hst
    simp [Pairing, hs, hheld] at hst
  have htk' : ∀ p ∈ db'.orders, p.ticketNumber = some ticket.ticketNumber → p.id = o.id := by
    intro p hp hpt
    exact absurd hpt (htk p ((horders p).mp hp))
  have hstart : IssueOrder.advance w (o.reissue key) (.hold transactionId) =
      some (w.commit db' [], ⟨a.id, o.id, key, .held o.providerBookingId⟩) := by
    simp only [IssueOrder.advance, Order.reissue, hown, hhold]
    rfl
  obtain ⟨w', hrun, hat''⟩ := At.exists_ticketed (w := w.commit db' []) hat'
    (hm.coupled hc).onePayment hown hissued key o.providerBookingId hfits htk'
  exact ⟨transactionId, w', _, .cons trivial hstart hrun, hat''⟩

/-- The payment of the order went back to the agent, and nothing else has changed. -/
structure GivenBack (db db' : Database) (a : Agent) (o : Order) (t : BalanceTransaction) :
    Prop where
  rows : At db' { a with balance := a.balance + t.amount } o.rebooked
    (some (t.withStatus .released))
  agents : ∀ b, b ∈ db'.agents ↔
    b = { a with balance := a.balance + t.amount } ∨ (b ∈ db.agents ∧ b.id ≠ a.id)
  orders : ∀ p, p ∈ db'.orders ↔ p = o.rebooked ∨ (p ∈ db.orders ∧ p.id ≠ o.id)
  sums : ∀ g : BalanceTransaction → Money, (db'.transactions.rows.map g).sum =
    (db.transactions.rows.map g).sum + (g (t.withStatus .released) - g t)

theorem At.exists_released (hat : At w.db a o (some t)) (hc : Coupled w.db)
    (hown : o.agentId = a.id) (hheld : t.status = .held) (hkey : o.issueIdempotencyKey = some key)
    {e : Raised} (he : Storable e.text) :
    ∃ transactionId w' r', IssueOrder.program.alone.Run (w, o.reissue key)
        [.hold transactionId, .call, .raise e, .release] (w', r') ∧
      GivenBack w.db w'.db a o t := by
  obtain ⟨transactionId, db₁, hhold, hjoin⟩ := hat.rejoin hc hown hheld hkey
  obtain ⟨hat₁, hagents, horders, hsums⟩ := hjoin.rejoined hc.onePayment
  have hc₁ := (hjoin.coupled hc).onePayment
  obtain ⟨db₂, hrel⟩ := hat₁.exists_release hheld he
  have hm := hat₁.release_moved hown hrel
  obtain ⟨_, hat₂⟩ := hm.at hc₁ hat₁ rfl rfl
  let called := (w.commit db₁ []).called (.issueCalled o.id o.providerBookingId key)
  rw [← hown] at hhold hrel
  have h₁ : IssueOrder.advance w (o.reissue key) (.hold transactionId) =
      some (w.commit db₁ [], { o.reissue key with phase := .held o.providerBookingId }) := by
    simp only [IssueOrder.advance, Order.reissue, hhold]
    rfl
  have h₄ : IssueOrder.advance called { o.reissue key with phase := .refused e } .release =
      some (called.commit db₂ [.refunded o.agentId o.id t.amount], (o.reissue key).finish
        (.error (.providerError "Airline provider failed to issue the ticket"))) := by
    simp only [IssueOrder.advance, Order.reissue, called, World.called_db, World.commit_db, hrel]
    rfl
  refine ⟨transactionId, _, _,
    .cons trivial h₁ (.cons trivial rfl (.cons trivial rfl (.cons trivial h₄ (.nil _)))), ?_⟩
  refine ⟨by simpa [Event.delta] using hat₂, fun b => ?_, fun p => ?_, fun g => ?_⟩
  · rw [World.commit_db, hm.mem_agents, hagents]
    simp [Event.delta]
  · rw [World.commit_db, hm.mem_orders, horders]
  · rw [World.commit_db, hm.sum_transactions, hsums]
    rfl

theorem exists_reissuable (hc : Coupled w.db) (hb : Backed w.db (c.procs)) (ho : o ∈ w.db.orders)
    (ht : w.db.transactionOf o.id = some t) (hheld : t.status = .held) :
    ∃ a key, At w.db a o (some t) ∧ o.agentId = a.id ∧ o.issueIdempotencyKey = some key ∧
      t.agentId = a.id := by
  have hst := hc.standing o ho
  rw [ht] at hst
  obtain ⟨⟨a, ha, haid⟩, _⟩ := hb t (mem_of_transactionOf ht).1 hheld
  obtain ⟨key, hkey⟩ := Option.isSome_iff_exists.mp (hst.key.trans rfl)
  exact ⟨a, key, ⟨ha, ho, ht⟩, by rw [haid, (hst.payment t rfl).2.2.1], hkey, haid.symm⟩

/-- From every reachable state, whatever calls have crashed, money on hold can be captured with a
new ticket, and can be given back, in one call with the key of the hold. -/
theorem hold_can_end (hu : Unpaid w.db)
    (h : (serving d).machine.RunWhere G (Program.start (Platform.start w)) as c)
    (ho : o ∈ c.store.world.db.orders) (ht : c.store.world.db.transactionOf o.id = some t)
    (hheld : t.status = .held) :
    ∃ a key, At c.store.world.db a o (some t) ∧
      (∀ ticket : ProviderTicket, Fits 64 ticket.ticketNumber →
        (∀ p ∈ c.store.world.db.orders, p.ticketNumber ≠ some ticket.ticketNumber) →
        ∃ transactionId c',
        (serving d).machine.Run c (.spawn (.inr (.inr (.inr (o.reissue key)))) ::
          ownSteps c.procs.length [.hold transactionId, .call, .answer ticket, .capture 0]) c' ∧
        At c'.store.world.db a (o.ticketed ticket) (some (t.withStatus .captured))) ∧
      ∀ e : Raised, Storable e.text → ∃ transactionId c',
        (serving d).machine.Run c (.spawn (.inr (.inr (.inr (o.reissue key)))) ::
          ownSteps c.procs.length [.hold transactionId, .call, .raise e, .release]) c' ∧
        At c'.store.world.db { a with balance := a.balance + t.amount } o.rebooked
          (some (t.withStatus .released)) := by
  obtain ⟨hc, hb⟩ := backed_of_run h (steady_start (s := Platform.start w) hu.coupled)
    (hu.backed _)
  obtain ⟨a, key, hat, hown, hkey, _⟩ := exists_reissuable hc.1 hb ho ht hheld
  refine ⟨a, key, hat, fun ticket hfits htk => ?_, fun e he => ?_⟩
  · obtain ⟨transactionId, w', r', hrun, hat'⟩ :=
      hat.exists_captured hc.1 hown hheld hkey hfits htk
    obtain ⟨c', hc', rfl, _⟩ := run_issue (d := d) rfl hrun
    exact ⟨transactionId, c', hc', hat'⟩
  · obtain ⟨transactionId, w', r', hrun, hback⟩ := hat.exists_released hc.1 hown hheld hkey he
    obtain ⟨c', hc', rfl, _⟩ := run_issue (d := d) rfl hrun
    exact ⟨transactionId, c', hc', hback.rows⟩

/-- The money that the crashed call holds can be given back. -/
theorem hold_can_end_crashedHold : ∃ (c : Serving) (o : Order) (key : String)
    (transactionId : String) (c' : Serving),
    (serving Example.deployment).machine.Run c (.spawn (.inr (.inr (.inr (o.reissue key)))) ::
      ownSteps c.procs.length [.hold transactionId, .call, .raise ⟨"", "TimeoutError", true⟩,
        .release]) c' ∧
    o.rebooked ∈ c'.store.world.db.orders := by
  obtain ⟨c, t, h, ht, hheld, hids⟩ := Example.exec_crashedHold
  obtain ⟨o, ho, hid⟩ : ∃ o ∈ c.store.world.db.orders.rows, o.id = t.orderId :=
    List.mem_map.mp (hids ▸ List.mem_singleton.mpr rfl)
  have hc := (steady_of_run h (steady_start (s := Platform.start Example.booked)
    Example.unpaid_booked.coupled)).1
  have hpay : c.store.world.db.transactionOf o.id = some t :=
    hc.onePayment.transactionOf_eq_some.mpr ⟨ht, hid.symm⟩
  obtain ⟨a, key, _, _, hback⟩ := hold_can_end Example.unpaid_booked h ho hpay hheld
  obtain ⟨transactionId, c', hrun, hat⟩ := hback ⟨"", "TimeoutError", true⟩ (by decide)
  exact ⟨c, o, key, transactionId, c', hrun, hat.order⟩

/-- The payments that hold money. -/
def heldCount (db : Database) : ℕ := db.transactions.rows.countP (·.status = .held)

/-- The money of an agent that is on hold. -/
def heldMoney (db : Database) (agentId : String) : Money :=
  (db.transactions.rows.map fun t =>
    if t.agentId = agentId ∧ t.status = .held then t.amount else 0).sum

/-- New calls, each with the identifier its hold may use, one after another, from the process
`n` on. The provider answers each of them with the exception. -/
def giveBackSteps (e : Raised) : ℕ → List (IssueOrder × String) → List (Action Job JobChoice)
  | _, [] => []
  | n, (r, transactionId) :: calls =>
    .spawn (.inr (.inr (.inr r))) ::
      ownSteps n [.hold transactionId, .call, .raise e, .release] ++ giveBackSteps e (n + 1) calls

theorem heldCount_eq_sum (db : Database) : (heldCount db : Money) =
    (db.transactions.rows.map fun t => if t.status = .held then 1 else 0).sum := by
  unfold heldCount
  induction db.transactions.rows with
  | nil => rfl
  | cons t ts ih =>
    rw [List.countP_cons, List.map_cons, List.sum_cons, ← ih]
    by_cases hs : t.status = .held <;> simp [hs, add_comm]

theorem GivenBack.heldCount {db db' : Database} (h : GivenBack db db' a o t)
    (hheld : t.status = .held) : heldCount db' + 1 = heldCount db := by
  have hsum := h.sums fun t => if t.status = .held then 1 else 0
  rw [← heldCount_eq_sum, ← heldCount_eq_sum] at hsum
  simp only [BalanceTransaction.withStatus, hheld, reduceCtorEq, if_false, if_true] at hsum
  have hcast : (Ioka.heldCount db' : Money) + 1 = Ioka.heldCount db := by
    rw [hsum]
    abel
  exact_mod_cast hcast

theorem GivenBack.heldMoney {db db' : Database} (h : GivenBack db db' a o t)
    (hheld : t.status = .held) (agentId : String) :
    heldMoney db' agentId + (if t.agentId = agentId then t.amount else 0) =
      heldMoney db agentId := by
  rw [Ioka.heldMoney, h.sums, Ioka.heldMoney]
  simp [BalanceTransaction.withStatus, hheld]

theorem exists_held_of_heldCount {db : Database} {n : ℕ} (h : heldCount db = n + 1) :
    ∃ t ∈ db.transactions, t.status = .held := by
  have hpos : 0 < db.transactions.rows.countP (·.status = .held) := by
    rw [← heldCount, h]
    exact Nat.succ_pos n
  obtain ⟨t, ht, hheld⟩ := List.countP_pos_iff.mp hpos
  exact ⟨t, ht, by simpa using hheld⟩

theorem heldMoney_eq_zero {db : Database} (h : heldCount db = 0) (agentId : String) :
    (∀ t ∈ db.transactions, t.status ≠ .held) ∧ heldMoney db agentId = 0 := by
  have hnone : ∀ t ∈ db.transactions.rows, t.status ≠ .held := by
    simpa using List.countP_eq_zero.mp h
  refine ⟨hnone, List.sum_eq_zero fun m hm => ?_⟩
  obtain ⟨t, ht, rfl⟩ := List.mem_map.mp hm
  exact if_neg fun hheld => hnone t ht hheld.2

/-- One more call gives one more payment back. -/
theorem exists_givenBack (hc : Steady c) (hb : Backed c.store.world.db c.procs) {e : Raised}
    (he : Storable e.text) {n : ℕ} (hn : heldCount c.store.world.db = n + 1) :
    ∃ r transactionId c₁ a o t, (serving d).machine.Run c (.spawn (.inr (.inr (.inr r))) ::
        ownSteps c.procs.length [.hold transactionId, .call, .raise e, .release]) c₁ ∧
      c₁.procs.length = c.procs.length + 1 ∧ t.status = .held ∧ t.agentId = a.id ∧
      a ∈ c.store.world.db.agents ∧ o ∈ c.store.world.db.orders ∧ o.status ≠ .issued ∧
      GivenBack c.store.world.db c₁.store.world.db a o t := by
  obtain ⟨t, ht, hheld⟩ := exists_held_of_heldCount hn
  obtain ⟨o, ho, hid⟩ := hc.1.orderOf t ht
  have hpay : c.store.world.db.transactionOf o.id = some t :=
    hc.1.onePayment.transactionOf_eq_some.mpr ⟨ht, hid.symm⟩
  obtain ⟨a, key, hat, hown, hkey, hagent⟩ := exists_reissuable hc.1 hb ho hpay hheld
  have hissued : o.status ≠ .issued := by
    intro hs
    have hst := (hc.1.standing o ho).status
    rw [hpay] at hst
    simp [Pairing, hs, hheld] at hst
  obtain ⟨transactionId, w', r', hrun, hback⟩ := hat.exists_released hc.1 hown hheld hkey he
  obtain ⟨c₁, hc₁, rfl, hlen⟩ := run_issue (d := d) rfl hrun
  exact ⟨_, transactionId, c₁, a, o, t, hc₁, hlen, hheld, hagent, hat.agent, ho, hissued, hback⟩

/-- From every reachable state, whatever calls have crashed, as many new calls as there are
payments on hold give all of them back, if the provider answers them with an exception. -/
theorem holds_can_clear (hu : Unpaid w.db)
    (h : (serving d).machine.RunWhere G (Program.start (Platform.start w)) as c) {e : Raised}
    (he : Storable e.text) :
    ∃ calls c', (serving d).machine.Run c (giveBackSteps e c.procs.length calls) c' ∧
      calls.length = heldCount c.store.world.db ∧
      (∀ t ∈ c'.store.world.db.transactions, t.status ≠ .held) ∧
      (∀ o ∈ c'.store.world.db.orders, o.status = .booked ∨ o.status = .issued) ∧
      (∀ o ∈ c.store.world.db.orders, o.status = .issued → o ∈ c'.store.world.db.orders) ∧
      ∀ a ∈ c.store.world.db.agents,
        { a with balance := a.balance + heldMoney c.store.world.db a.id } ∈
          c'.store.world.db.agents := by
  obtain ⟨hc, hb⟩ := backed_of_run h (steady_start (s := Platform.start w) hu.coupled)
    (hu.backed _)
  clear h
  induction hn : heldCount c.store.world.db generalizing c with
  | zero =>
    refine ⟨[], c, .nil c, rfl, (heldMoney_eq_zero hn "").1, fun o ho => ?_, fun o ho _ => ho,
      fun a ha => ?_⟩
    · by_cases hi : o.status = .issued
      · exact Or.inr hi
      · refine Or.inl (booked_of_pairing (hc.1.standing o ho).status hi fun hpay => ?_).1
        obtain ⟨t, ht, hheld⟩ := Option.map_eq_some_iff.mp hpay
        exact (heldMoney_eq_zero hn "").1 t (mem_of_transactionOf ht).1 hheld
    · rwa [(heldMoney_eq_zero hn a.id).2, add_zero]
  | succ n ih =>
    obtain ⟨r, transactionId, c₁, a, o, t, hrun, hlen, hheld, hagent, ha, ho, hissued, hback⟩ :=
      exists_givenBack (d := d) hc hb he hn
    obtain ⟨hc₁, hb₁⟩ := backed_of_run hrun hc hb
    have hn₁ : heldCount c₁.store.world.db = n := by
      have hcount := hback.heldCount hheld
      omega
    obtain ⟨calls, c', hrest, hcalls, hnone, hstatus, horders, hagents⟩ := ih hc₁ hb₁ hn₁
    refine ⟨(r, transactionId) :: calls, c', ?_, by rw [List.length_cons, hcalls], hnone, hstatus,
      fun p hp hi => horders p ((hback.orders p).mpr (Or.inr ⟨hp, ?_⟩)) hi, fun b hb' => ?_⟩
    · rw [hlen] at hrest
      exact hrun.append hrest
    · intro hid
      rw [Database.order_ext hp ho hid] at hi
      exact hissued hi
    · have hmoney := hback.heldMoney hheld b.id
      by_cases hid : b.id = a.id
      · obtain rfl := Database.agent_ext hb' ha hid
        have hmem := hagents _ ((hback.agents _).mpr (Or.inl rfl))
        rw [if_pos hagent] at hmoney
        rw [← hmoney, add_comm (heldMoney _ _), ← add_assoc]
        exact hmem
      · rw [if_neg (fun he => hid (he.symm.trans hagent)), add_zero] at hmoney
        exact hmoney ▸ hagents b ((hback.agents b).mpr (Or.inr ⟨hb', hid⟩))

/-- After the crashed call, one refused call leaves no money on hold. -/
theorem holds_can_clear_crashedHold : ∃ (c c' : Serving) (t : BalanceTransaction)
    (calls : List (IssueOrder × String)),
    t ∈ c.store.world.db.transactions ∧ t.status = .held ∧
    (serving Example.deployment).machine.Run c
      (giveBackSteps ⟨"", "TimeoutError", true⟩ c.procs.length calls) c' ∧
    ∀ t ∈ c'.store.world.db.transactions, t.status ≠ .held := by
  obtain ⟨c, t, h, ht, hheld, _⟩ := Example.exec_crashedHold
  obtain ⟨calls, c', hrun, _, hnone, _⟩ := holds_can_clear Example.unpaid_booked h
    (e := ⟨"", "TimeoutError", true⟩) (by decide)
  exact ⟨c, c', t, calls, ht, hheld, hrun, hnone⟩

end Recovery

end Runs

end Ioka
