import Ioka.Booking.Conservation
import Ioka.Transition.Escrow

/-! # The booking service as escrow

Each order is a deal of its agent, and its payment says where the money is. A capture that finds
its payment released is the only step that an honest escrow does not take: it waives the price.
-/

namespace Ioka

open Relational Transition

/-- The stages that a payment of the given status may stand for. -/
def StageOf : Option PaymentStatus → Stage → Prop
  | none, .idle | some .released, .idle | some .held, .held | some .captured, .settled
  | some .captured, .waived => True
  | _, _ => False

theorem stageOf_none {s : Stage} : StageOf none s ↔ s = .idle := by
  cases s <;> simp [StageOf]

theorem stageOf_released {s : Stage} : StageOf (some .released) s ↔ s = .idle := by
  cases s <;> simp [StageOf]

theorem stageOf_held {s : Stage} : StageOf (some .held) s ↔ s = .held := by
  cases s <;> simp [StageOf]

theorem stageOf_captured {s : Stage} :
    StageOf (some .captured) s ↔ s = .settled ∨ s = .waived := by
  cases s <;> simp [StageOf]

/-- The accounts and deals that a database describes. -/
structure Represents (db : Database) (e : Escrow String String Money) : Prop where
  balance : ∀ a ∈ db.agents, e.balance a.id = a.balance
  deals : e.deals = (db.orders.rows.map (·.id)).toFinset
  owner : ∀ o ∈ db.orders, e.owner o.id = o.agentId
  price : ∀ o ∈ db.orders, e.price o.id = o.amount
  stage : ∀ o ∈ db.orders, StageOf ((db.transactionOf o.id).map (·.status)) (e.stage o.id)

/-- The accounts and deals before any payment. -/
def opening (db : Database) : Escrow String String Money where
  balance id := ((db.agent? id).map (·.balance)).getD 0
  deals := (db.orders.rows.map (·.id)).toFinset
  owner id := ((db.order? id).map (·.agentId)).getD ""
  price id := ((db.order? id).map (·.amount)).getD 0
  stage _ := .idle

/-- The payment of an order goes from released to captured. -/
def CapturesReleased (orderId : String) (db db' : Database) : Prop :=
  (db.transactionOf orderId).map (·.status) = some .released ∧
    (db'.transactionOf orderId).map (·.status) = some .captured

theorem not_capturesReleased {orderId : String} {db db' : Database}
    (h : db'.transactionOf orderId = db.transactionOf orderId) :
    ¬ CapturesReleased orderId db db' := by
  rintro ⟨hr, hc⟩
  rw [h, hr] at hc
  cases hc

/-- The escrow `e'` stands for `db'` when `e` stands for `db`, and the deals waived in between
are the released payments that were captured. -/
structure EscrowStep (db db' : Database) (e e' : Escrow String String Money) : Prop where
  represents : Represents db' e'
  waived : ∀ d, e'.stage d = .waived ↔ e.stage d = .waived ∨ CapturesReleased d db db'

section Step

variable {sha256 : String → String} {w w' : World} {p : Request} {phase : Phase}
  {db db' : Database} {a : Agent} {o o' : Order} {t? : Option BalanceTransaction}
  {t' : BalanceTransaction} {es : List Event} {e : Escrow String String Money}

theorem Unpaid.represents (h : Unpaid db) : Represents db (opening db) where
  balance a ha := by simp [opening, Database.agent?_eq_some.mpr ⟨ha, rfl⟩]
  deals := rfl
  owner o ho := by simp [opening, Database.order?_eq_some.mpr ⟨ho, rfl⟩]
  price o ho := by simp [opening, Database.order?_eq_some.mpr ⟨ho, rfl⟩]
  stage o _ := by
    rw [h.transactionOf]
    trivial

theorem Represents.mem_deals (h : Represents db e) {id : String} :
    id ∈ e.deals ↔ ∃ o ∈ db.orders, o.id = id := by
  rw [h.deals, List.mem_toFinset, List.mem_map]
  rfl

theorem Moved.represents (h : Moved phase db db' a o o' t? t' es) (h₁ : OnePayment db)
    (he : Represents db e) {stage : Stage} (hst : StageOf (some t'.status) stage) {m : Money}
    (hm : m = (es.map Event.delta).sum) : Represents db' (e.moved o.id stage m) := by
  have hs := h.move.sameBooking
  have howner : e.owner o.id = a.id := (he.owner o h.order_mem).trans h.owner
  constructor
  · intro b hb
    rcases h.mem_agents.mp hb with rfl | ⟨hb, hne⟩
    · simp [Escrow.moved, howner, he.balance a h.agent_mem, hm]
    · simp only [Escrow.moved, howner, Function.update_of_ne hne]
      exact he.balance b hb
  · ext id
    rw [show (e.moved o.id stage m).deals = e.deals from rfl, he.mem_deals, List.mem_toFinset,
      List.mem_map]
    constructor
    · rintro ⟨p, hp, rfl⟩
      by_cases hid : p.id = o.id
      · exact ⟨o', h.mem_orders.mpr (Or.inl rfl), hs.id.trans hid.symm⟩
      · exact ⟨p, h.mem_orders.mpr (Or.inr ⟨hp, hid⟩), rfl⟩
    · rintro ⟨p, hp, rfl⟩
      rcases h.mem_orders.mp hp with rfl | ⟨hp, _⟩
      · exact ⟨o, h.order_mem, hs.id.symm⟩
      · exact ⟨p, hp, rfl⟩
  · intro p hp
    rcases h.mem_orders.mp hp with rfl | ⟨hp, _⟩
    · exact (congrArg e.owner hs.id).trans ((he.owner o h.order_mem).trans hs.agentId.symm)
    · exact he.owner p hp
  · intro p hp
    rcases h.mem_orders.mp hp with rfl | ⟨hp, _⟩
    · exact (congrArg e.price hs.id).trans ((he.price o h.order_mem).trans hs.amount.symm)
    · exact he.price p hp
  · intro p hp
    rcases h.mem_orders.mp hp with rfl | ⟨hp, hne⟩
    · rw [hs.id, h.transactionOf_self h₁]
      simpa [Escrow.moved] using hst
    · rw [h.transactionOf_of_ne hne]
      simp only [Escrow.moved, Function.update_of_ne hne]
      exact he.stage p hp

theorem Moved.follows (h : Moved phase db db' a o o' t? t' es) (h₁ : OnePayment db)
    (he : Represents db e) {stage : Stage} (hst : StageOf (some t'.status) stage) {m : Money}
    (hm : m = (es.map Event.delta).sum) (hw : stage = .waived ↔ e.stage o.id = .waived ∨
      (t?.map (·.status) = some .released ∧ t'.status = .captured)) :
    EscrowStep db db' e (e.moved o.id stage m) where
  represents := h.represents h₁ he hst hm
  waived d := by
    by_cases hd : d = o.id
    · subst hd
      rw [CapturesReleased, h.payment, h.transactionOf_self h₁]
      simpa [Escrow.moved] using hw
    · simp only [Escrow.moved, Function.update_of_ne hd,
        not_capturesReleased (h.transactionOf_of_ne hd), or_false]

theorem Moved.escrow (h : Moved phase db db' a o o' t? t' es) (hc : Coupled db)
    (he : Represents db e) :
    ∃ xs e', Escrow.machine.Run e xs e' ∧ EscrowStep db db' e e' := by
  have hst := hc.standing o h.order_mem
  have hstage := he.stage o h.order_mem
  have hdeal : o.id ∈ e.deals := he.mem_deals.mpr ⟨o, h.order_mem, rfl⟩
  have howner : e.owner o.id = a.id := (he.owner o h.order_mem).trans h.owner
  have hprice := he.price o h.order_mem
  have hbalance := he.balance a h.agent_mem
  rw [h.payment] at hst hstage
  have hmove := h.move
  cases hmove with
  | debit _ _ hle =>
    have hidle : e.stage o.id = .idle := stageOf_none.mp hstage
    have hrun : Escrow.machine.step e (.hold o.id) = some (e.moved o.id .held (-e.price o.id)) :=
      if_pos ⟨hdeal, hidle, by rwa [hprice, howner, hbalance]⟩
    exact ⟨_, _, .cons trivial hrun (.nil _), h.follows hc.onePayment he (stageOf_held.mpr rfl)
      (by simp [Event.delta, hprice]) (by simp [hidle])⟩
  | debitAgain _ _ hle hr =>
    have hidle : e.stage o.id = .idle := stageOf_released.mp (by simpa [hr] using hstage)
    have hrun : Escrow.machine.step e (.hold o.id) = some (e.moved o.id .held (-e.price o.id)) :=
      if_pos ⟨hdeal, hidle, by rwa [hprice, howner, hbalance]⟩
    exact ⟨_, _, .cons trivial hrun (.nil _), h.follows hc.onePayment he (stageOf_held.mpr rfl)
      (by simp [Event.delta, hprice]) (by simp [hidle, BalanceTransaction.withStatus])⟩
  | join hne _ hr =>
    -- Its own hold is already there, so the deal stays as it is.
    have hmoved := h.follows hc.onePayment he hstage (m := 0) (by simp) (by simp [hr])
    have hsame : e.moved o.id (e.stage o.id) 0 = e := by simp [Escrow.moved]
    rw [hsame] at hmoved
    exact ⟨[], e, .nil e, hmoved⟩
  | @capture ticket _ _ t hne =>
    have hnext {stage : Stage} (hs : stage = .settled ∨ stage = .waived)
        (hw : stage = .waived ↔ e.stage o.id = .waived ∨ t.status = .released) :
        EscrowStep db db' e (e.moved o.id stage 0) :=
      h.follows hc.onePayment he (stageOf_captured.mpr hs) (by simp)
        (by simpa [BalanceTransaction.withStatus] using hw)
    cases hts : t.status with
    | held =>
      have hheld : e.stage o.id = .held := stageOf_held.mp (by simpa [hts] using hstage)
      have hrun : Escrow.machine.step e (.settle o.id) = some (e.moved o.id .settled 0) :=
        if_pos ⟨hdeal, hheld⟩
      exact ⟨_, _, .cons trivial hrun (.nil _), hnext (Or.inl rfl) (by simp [hheld, hts])⟩
    | released =>
      have hidle : e.stage o.id = .idle := stageOf_released.mp (by simpa [hts] using hstage)
      have hrun : Escrow.machine.step e (.waive o.id) = some (e.moved o.id .waived 0) :=
        if_pos ⟨hdeal, hidle⟩
      exact ⟨_, _, .cons trivial hrun (.nil _), hnext (Or.inr rfl) (by simp [hts])⟩
    | captured =>
      have hpair := hst.status
      revert hpair hne
      cases o.status <;> simp [Pairing, hts]
  | @release _ _ t hh =>
    have hheld : e.stage o.id = .held := stageOf_held.mp (by simpa [hh] using hstage)
    have hrun : Escrow.machine.step e (.giveBack o.id) = some (e.moved o.id .idle (e.price o.id)) :=
      if_pos ⟨hdeal, hheld⟩
    have ham : t.amount = o.amount := (hst.payment t rfl).1
    exact ⟨_, _, .cons trivial hrun (.nil _), h.follows hc.onePayment he
      (stageOf_released.mpr rfl) (by simp [Event.delta, hprice, ham]) (by simp [hheld, hh])⟩

theorem Created.escrow {r : IdempotencyRecord} (h : Created db db' o r) (hc : Coupled db)
    (he : Represents db e) (hidle : ∀ d ∉ e.deals, e.stage d = .idle) :
    Escrow.machine.step e (.agree o.id o.agentId o.amount) =
      some (e.agreed o.id o.agentId o.amount) ∧
    EscrowStep db db' e (e.agreed o.id o.agentId o.amount) := by
  have hnew : o.id ∉ e.deals := by
    rw [he.mem_deals]
    rintro ⟨p, hp, hid⟩
    exact h.fresh hp hid
  refine ⟨if_neg hnew, ⟨?_, ?_, ?_, ?_, ?_⟩, ?_⟩
  · intro b hb
    rw [h.agents] at hb
    exact he.balance b hb
  · ext id
    simp [Escrow.agreed, he.deals, h.orders]
  · intro p hp
    rcases h.mem_orders.mp hp with hp | rfl
    · simp only [Escrow.agreed, Function.update_of_ne (h.fresh hp)]
      exact he.owner p hp
    · simp [Escrow.agreed]
  · intro p hp
    rcases h.mem_orders.mp hp with hp | rfl
    · simp only [Escrow.agreed, Function.update_of_ne (h.fresh hp)]
      exact he.price p hp
    · simp [Escrow.agreed]
  · intro p hp
    rw [h.transactionOf]
    rcases h.mem_orders.mp hp with hp | rfl
    · simp only [Escrow.agreed, Function.update_of_ne (h.fresh hp)]
      exact he.stage p hp
    · rw [h.transactionOf_self hc]
      simp [Escrow.agreed, StageOf]
  · intro d
    simp only [not_capturesReleased h.transactionOf, or_false]
    by_cases hd : d = o.id
    · subst hd
      simp [Escrow.agreed, hidle _ hnew]
    · simp [Escrow.agreed, Function.update_of_ne hd]

theorem Effect.escrow (h : Effect sha256 w p w') (hc : Coupled w.db) (he : Represents w.db e)
    (hidle : ∀ d ∉ e.deals, e.stage d = .idle) :
    ∃ xs e', Escrow.machine.Run e xs e' ∧ EscrowStep w.db w'.db e e' := by
  cases h with
  | quiet =>
    refine ⟨[], e, .nil e, ⟨he.balance, he.deals, he.owner, he.price, he.stage⟩, fun d => ?_⟩
    exact (or_iff_left (not_capturesReleased rfl)).symm
  | moved _ _ _ hm => exact hm.escrow hc he
  | created _ _ hcr =>
    obtain ⟨hstep, hf⟩ := hcr.escrow hc he hidle
    exact ⟨_, _, .cons trivial hstep (.nil _), hf⟩

end Step

/-! ## Runs -/

/-- The money that the orders of an agent hold or have been issued for. -/
def committed (db : Database) (agentId : String) : Money :=
  (db.orders.rows.map fun o =>
    if o.agentId = agentId ∧ (o.status = .issuing ∨ o.status = .issued) then o.amount else 0).sum

/-- The price of the deals that an account holder was let off. -/
def waivedPrice (e : Escrow String String Money) (agentId : String) : Money :=
  ∑ d ∈ e.deals, if e.owner d = agentId ∧ e.stage d = .waived then e.price d else 0

section Runs

variable {sha256 : String → String} {w : World} {c : Booking} {db : Database}
  {e : Escrow String String Money} {as : List (Action Request Choice)}
  {G : Booking → Action Request Choice → Prop}

theorem Represents.sum_deals (h : Represents db e) (f : String → Money) :
    ∑ d ∈ e.deals, f d = (db.orders.rows.map fun o => f o.id).sum := by
  have hnd : (db.orders.rows.map (·.id)).Nodup :=
    List.Nodup.map_on (fun o ho p hp => Database.order_ext ho hp) Database.orders_nodup
  rw [h.deals, List.sum_toFinset f hnd, List.map_map]
  rfl

theorem Represents.committed_order {o : Order} {agentId : String} (h : Represents db e)
    (hc : Coupled db) (ho : o ∈ db.orders) :
    (if o.agentId = agentId ∧ (o.status = .issuing ∨ o.status = .issued) then o.amount else 0) =
      e.charge agentId o.id +
        if e.owner o.id = agentId ∧ e.stage o.id = .waived then e.price o.id else 0 := by
  have hpair := (hc.standing o ho).status
  have hstage := h.stage o ho
  rw [Escrow.charge, h.owner o ho, h.price o ho]
  by_cases hag : o.agentId = agentId
  · revert hpair hstage
    cases (db.transactionOf o.id).map (·.status) with
    | none =>
      intro hpair hstage
      rw [stageOf_none] at hstage
      cases hs : o.status <;> simp_all [Pairing, Stage.charged]
    | some status =>
      intro hpair hstage
      cases status with
      | held =>
        rw [stageOf_held] at hstage
        cases hs : o.status <;> simp_all [Pairing, Stage.charged]
      | released =>
        rw [stageOf_released] at hstage
        cases hs : o.status <;> simp_all [Pairing, Stage.charged]
      | captured =>
        rw [stageOf_captured] at hstage
        rcases hstage with hstage | hstage <;> cases hs : o.status <;>
          simp_all [Pairing, Stage.charged]
  · simp [hag]

theorem Represents.committed (h : Represents db e) (hc : Coupled db) (agentId : String) :
    committed db agentId = ∑ d ∈ e.deals, e.charge agentId d + waivedPrice e agentId := by
  rw [waivedPrice, ← Finset.sum_add_distrib, h.sum_deals, Ioka.committed]
  apply congrArg List.sum
  apply List.map_congr_left
  intro o ho
  exact h.committed_order hc ho

/-- The run so far is one of an escrow that has waived the released payments captured in it. -/
structure Matched (sha256 : String → String) (w : World) (as : List (Action Request Choice))
    (c : Booking) (e : Escrow String String Money) : Prop where
  run : (booking sha256).machine.Run (Program.start w) as c
  represents : Represents c.store.db e
  idle : ∀ d ∉ e.deals, e.stage d = .idle
  waived : ∀ d, e.stage d = .waived ↔ (booking sha256).machine.Passes
    (fun c c' => CapturesReleased d c.store.db c'.store.db) (Program.start w) as

theorem Matched.step {a : Action Request Choice} {c' : Booking} (h : Matched sha256 w as c e)
    (hc : Sound c) (hs : (booking sha256).machine.step c a = some c') :
    ∃ xs e', Escrow.machine.Run e xs e' ∧ Matched sha256 w (as ++ [a]) c' e' := by
  have hrun := h.run.append (.cons trivial hs (.nil c'))
  have hmatch : ∃ xs e', Escrow.machine.Run e xs e' ∧
      EscrowStep c.store.db c'.store.db e e' := by
    rcases effect_of_step hs hc with ⟨p, rfl, rfl⟩ | ⟨i, x, p, p', rfl, hp, hv, heff, _, _⟩
    · exact ⟨[], e, .nil e, h.represents, fun d =>
        (or_iff_left (not_capturesReleased rfl)).symm⟩
    · exact heff.escrow hc.1 h.represents h.idle
  obtain ⟨xs, e', hxs, hf⟩ := hmatch
  refine ⟨xs, e', hxs, hrun, hf.represents, Escrow.idle_of_run hxs h.idle, fun d => ?_⟩
  rw [hf.waived, h.waived, h.run.passes_concat hs]

theorem matched_of_run (hu : Unpaid w.db)
    (h : (booking sha256).machine.Run (Program.start w) as c) :
    ∃ xs e, Escrow.machine.Run (opening w.db) xs e ∧ Matched sha256 w as c e := by
  have hI := h.trace (I := fun as c => Sound c ∧
    ∃ xs e, Escrow.machine.Run (opening w.db) xs e ∧ Matched sha256 w as c e) ?_ ?_
  · exact hI.2
  · rintro as c a c' _ hs ⟨hc, xs, e, hxs, hm⟩
    obtain ⟨ys, e', hys, hm'⟩ := hm.step hc hs
    exact ⟨sound_of_step hs hc, xs ++ ys, e', hxs.append hys, hm'⟩
  · refine ⟨sound_start hu.coupled, [], _, .nil _, .nil _, hu.represents, fun _ _ => rfl,
      fun d => ?_⟩
    simp [opening, Machine.not_passes_nil]

theorem worth_opening (hu : Unpaid db) {a : Agent} (ha : a ∈ db.agents) :
    (opening db).worth a.id = a.balance := by
  have hzero : ∀ d ∈ (opening db).deals, (opening db).charge a.id d = 0 := by
    intro d _
    simp [Escrow.charge, opening, Stage.charged]
  rw [Escrow.worth, Finset.sum_eq_zero hzero, add_zero]
  exact hu.represents.balance a ha

/-- Every run of the service is a run of an escrow, which waives the deals whose released payment
is captured. What an agent has and what the own orders hold or have been issued for is what the
agent started with and the price of the waived deals. -/
theorem booking_is_escrow (hu : Unpaid w.db) (hh : w.history = [])
    (h : (booking sha256).machine.Run (Program.start w) as c) :
    ∃ xs e, Escrow.machine.Run (opening w.db) xs e ∧ Represents c.store.db e ∧
      (∀ d, e.stage d = .waived ↔ (booking sha256).machine.Passes
        (fun c c' => CapturesReleased d c.store.db c'.store.db) (Program.start w) as) ∧
      ∀ a ∈ c.store.db.agents, ∃ a₀ ∈ w.db.agents, a₀.id = a.id ∧
        a.balance + committed c.store.db a.id = a₀.balance + waivedPrice e a.id := by
  obtain ⟨xs, e, hrun, hm⟩ := matched_of_run hu h
  have hc : Sound c := sound_of_run h (sound_start hu.coupled)
  refine ⟨xs, e, hrun, hm.represents, hm.waived, fun a ha => ?_⟩
  obtain ⟨a₀, ha₀, hid, _⟩ := (ledger_of_run hu hh h).2.2 a ha
  refine ⟨a₀, ha₀, hid, ?_⟩
  have hworth : e.worth a.id = a₀.balance := by
    rw [Escrow.worth_of_run hrun, ← hid, worth_opening hu ha₀]
  rw [hm.represents.committed hc.1, ← add_assoc, ← hm.represents.balance a ha, ← hworth,
    Escrow.worth]

/-- The order that is issued for nothing is a waived deal. -/
theorem booking_is_escrow_sharedHold : ∃ (c : Booking)
    (xs : List (Escrow.Act String String Money)) (e : Escrow String String Money),
    (booking id).machine.Run (Program.start Example.booked) sharedHold c ∧
    Escrow.machine.Run (opening Example.booked.db) xs e ∧ Represents c.store.db e ∧
    waivedPrice e "agent" = 10000 := by
  have hrun : (((booking id).machine.exec (Program.start Example.booked) sharedHold).map fun c =>
      (c.store.db.agents.rows, committed c.store.db "agent")) =
      some ([Example.agent], 10000) := by decide
  obtain ⟨c, hc, hrows⟩ := Option.map_eq_some_iff.mp hrun
  obtain ⟨hagents, hcommitted⟩ := Prod.mk.inj hrows
  have h := Machine.exec_eq_some_iff.mp hc
  obtain ⟨xs, e, hxs, he, _, hall⟩ := booking_is_escrow Example.unpaid_booked rfl h
  refine ⟨c, xs, e, h, hxs, he, ?_⟩
  obtain ⟨a₀, ha₀, _, hsum⟩ := hall Example.agent (by simp [Table.mem_def, hagents])
  rw [List.mem_singleton.mp ha₀, show Example.agent.id = "agent" from rfl, hcommitted] at hsum
  exact (add_left_cancel hsum).symm

end Runs

end Ioka
