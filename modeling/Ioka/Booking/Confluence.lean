import Mathlib.Tactic.Linarith
import Ioka.Booking.Success

/-! # Independent issues

Requests for different orders, each with its own key, that together need no more
than the balances of their agents. A hold takes money that may be given back, so
the balances depend on the schedule while requests are under way; the store is
always the sum of what the single requests have done so far, and when all have
ended nothing of the schedule is left in it. A failure that the release cannot record
costs its agent the amount all the same.
-/

namespace Ioka

open Relational Transition

/-- What the provider has for a request. -/
inductive IssueOutcome
  | ticket (ticket : ProviderTicket)
  | failure (raised : Raised)
  /-- A `CancelledError` -/
  | cancelled

/-- A request to issue a stored order, with the id of its transaction and its outcome. -/
structure PlannedIssue where
  order : Order
  key : String
  transactionId : String
  outcome : IssueOutcome

inductive PlannedChoice
  | hold
  | call
  | answer
  | release
  | capture (durationMs : ℤ)

namespace PlannedIssue

variable (p : PlannedIssue)

def choice : PlannedChoice → IssueChoice
  | .hold => .hold p.transactionId
  | .call => .call
  | .answer =>
    match p.outcome with
    | .ticket ticket => .answer ticket
    | .failure e => .raise e
    | .cancelled => .cancel
  | .release => .release
  | .capture durationMs => .capture durationMs

/-- The request at a phase. -/
def request (phase : IssuePhase) : IssueOrder := ⟨p.order.agentId, p.order.id, p.key, phase⟩

/-- The order after the request. What cannot be stored leaves it as the hold did. -/
def finalOrder : Order :=
  match p.outcome with
  | .ticket ticket => ticket.kept.elim (p.order.holding p.key) (p.order.holding p.key).ticketed
  | .failure e =>
    if Storable e.text then (p.order.holding p.key).rebooked else p.order.holding p.key
  | .cancelled => p.order.holding p.key

def finalStatus : PaymentStatus :=
  match p.outcome with
  | .ticket ticket => if ticket.kept.isSome then .captured else .held
  | .failure e => if Storable e.text then .released else .held
  | .cancelled => .held

/-- The transaction after the request. -/
def finalPayment : BalanceTransaction :=
  (newHold p.order p.key p.transactionId).withStatus p.finalStatus

/-- What the request costs its agent in the end. -/
def cost : Money :=
  match p.outcome with
  | .ticket _ => p.order.amount
  | .failure e => if Storable e.text then 0 else p.order.amount
  | .cancelled => p.order.amount

def ticketNumber? : Option String :=
  match p.outcome with
  | .ticket ticket => ticket.kept.map (·.ticketNumber)
  | _ => none

end PlannedIssue

/-- A request under way. -/
structure PlannedRun where
  plan : PlannedIssue
  phase : IssuePhase

namespace PlannedRun

def advance (w : World) (q : PlannedRun) (x : PlannedChoice) : Option (World × PlannedRun) :=
  ((q.plan.request q.phase).advance w (q.plan.choice x)).map fun (w', r) =>
    (w', { q with phase := r.phase })

/-- The planned requests and no others, their steps in any order. -/
def program : Program World PlannedRun PlannedChoice where
  fresh _ := false
  advance := advance

end PlannedRun

abbrev Issuing := Config World PlannedRun

/-- All requests have arrived. -/
def Issuing.start (w : World) (plans : List PlannedIssue) : Issuing :=
  ⟨w, plans.map (⟨·, .requested⟩)⟩

/-- The sum of an amount over the orders of an agent. -/
def PlannedIssue.total (amount : PlannedIssue → Money) (plans : List PlannedIssue)
    (agentId : String) : Money :=
  ((plans.filter fun p => p.order.agentId = agentId).map amount).sum

/-- The requests are for different booked orders without transactions, have new keys, ids and
ticket numbers, and cost no agent more than the agent has. -/
structure Independent (db : Database) (plans : List PlannedIssue) : Prop where
  coupled : Coupled db
  stored : ∀ p ∈ plans, p.order ∈ db.orders
  booked : ∀ p ∈ plans, p.order.status = .booked
  unpaid : ∀ p ∈ plans, db.transactionOf p.order.id = none
  agents : ∀ p ∈ plans, ∃ a ∈ db.agents, a.id = p.order.agentId
  amounts : ∀ p ∈ plans, 0 ≤ p.order.amount
  funds : ∀ a ∈ db.agents, PlannedIssue.total (·.order.amount) plans a.id ≤ a.balance
  orders : (plans.map (·.order.id)).Nodup
  keys : (plans.map (·.key)).Nodup
  newKeys : ∀ p ∈ plans, (∀ o ∈ db.orders, o.issueIdempotencyKey ≠ some p.key) ∧
    ∀ t ∈ db.transactions, t.idempotencyKey ≠ p.key
  ids : (plans.map (·.transactionId)).Nodup
  newIds : ∀ p ∈ plans, ∀ t ∈ db.transactions, t.id ≠ p.transactionId
  tickets : (plans.filterMap (·.ticketNumber?)).Nodup
  newTickets : ∀ n ∈ plans.filterMap (·.ticketNumber?), ∀ o ∈ db.orders, o.ticketNumber ≠ some n

namespace PlannedRun

variable (q : PlannedRun)

/-- The order of the request. -/
def row : Order :=
  match q.phase with
  | .requested => q.plan.order
  | .done _ => q.plan.finalOrder
  | _ => q.plan.order.holding q.plan.key

/-- The transaction of the request. -/
def payment : Option BalanceTransaction :=
  match q.phase with
  | .requested => none
  | .done _ => some q.plan.finalPayment
  | _ => some (newHold q.plan.order q.plan.key q.plan.transactionId)

/-- What the request has taken from the balance. -/
def taken : Money :=
  match q.phase with
  | .requested => 0
  | .done _ => q.plan.cost
  | _ => q.plan.order.amount

/-- The phase of the request agrees with its outcome. -/
def Due : Prop :=
  match q.phase with
  | .ticketed ticket => q.plan.outcome = .ticket ticket
  | .refused e => q.plan.outcome = .failure e
  | .done (.error f) => ∀ text details, f ≠ .insufficientBalance text details
  | _ => True

/-- The sum of what requests have taken from an agent. -/
def totalTaken (qs : List PlannedRun) (agentId : String) : Money :=
  (qs.map fun q => if q.plan.order.agentId = agentId then q.taken else 0).sum

end PlannedRun

/-- The store is what the requests have made of it so far. -/
structure Progress (w : World) (plans : List PlannedIssue) (c : Issuing) : Prop where
  planned : c.procs.map (·.plan) = plans
  due : ∀ q ∈ c.procs, q.Due
  coupled : Coupled c.store.db
  agents : ∀ b, b ∈ c.store.db.agents ↔ ∃ a ∈ w.db.agents,
    b = { a with balance := a.balance - PlannedRun.totalTaken c.procs a.id }
  orders : ∀ o, o ∈ c.store.db.orders ↔
    (o ∈ w.db.orders ∧ o.id ∉ plans.map (·.order.id)) ∨ ∃ q ∈ c.procs, o = q.row
  transactions : ∀ t, t ∈ c.store.db.transactions ↔
    t ∈ w.db.transactions ∨ ∃ q ∈ c.procs, q.payment = some t

section Rows

variable {q q' u : PlannedRun} {qs : List PlannedRun} {t : BalanceTransaction} {i : ℕ}

namespace PlannedIssue

variable (p : PlannedIssue)

theorem finalOrder_cases : p.finalOrder = p.order.holding p.key ∨
    p.finalOrder = (p.order.holding p.key).rebooked ∨
    ∃ ticket, p.ticketNumber? = some ticket.ticketNumber ∧
      p.finalOrder = (p.order.holding p.key).ticketed ticket := by
  unfold finalOrder
  split
  · rename_i ticket hout
    cases hk : ticket.kept with
    | none => exact .inl rfl
    | some kept => exact .inr (.inr ⟨kept, by simp [ticketNumber?, hout, hk], rfl⟩)
  · split
    · exact .inr (.inl rfl)
    · exact .inl rfl
  · exact .inl rfl

@[simp] theorem finalOrder_id : p.finalOrder.id = p.order.id := by
  obtain h | h | ⟨ticket, _, h⟩ := p.finalOrder_cases <;> rw [h] <;> rfl

@[simp] theorem finalOrder_key : p.finalOrder.issueIdempotencyKey = some p.key := by
  obtain h | h | ⟨ticket, _, h⟩ := p.finalOrder_cases <;> rw [h] <;> rfl

@[simp] theorem finalPayment_orderId : p.finalPayment.orderId = p.order.id := rfl

@[simp] theorem finalPayment_id : p.finalPayment.id = p.transactionId := rfl

@[simp] theorem finalPayment_key : p.finalPayment.idempotencyKey = p.key := rfl

end PlannedIssue

theorem PlannedIssue.cost_le {p : PlannedIssue} (h : 0 ≤ p.order.amount) :
    p.cost ≤ p.order.amount := by
  unfold cost
  split
  · exact le_refl _
  · split
    · exact h
    · exact le_refl _
  · exact le_refl _

namespace PlannedRun

@[simp] theorem row_id (q : PlannedRun) : q.row.id = q.plan.order.id := by
  unfold row
  split <;> simp [Order.holding]

theorem row_key (q : PlannedRun) : q.row = q.plan.order ∨
    q.row.issueIdempotencyKey = some q.plan.key := by
  unfold row
  split <;> simp [Order.holding]

theorem row_ticket (q : PlannedRun) : q.row.ticketNumber = q.plan.order.ticketNumber ∨
    q.row.ticketNumber = q.plan.ticketNumber? := by
  unfold row
  split
  · exact Or.inl rfl
  · obtain h | h | ⟨ticket, hn, h⟩ := q.plan.finalOrder_cases
    · exact Or.inl (by rw [h]; rfl)
    · exact Or.inl (by rw [h]; rfl)
    · exact Or.inr (by rw [h, hn]; rfl)
  · exact Or.inl rfl

theorem payment_fields (h : q.payment = some t) : t.id = q.plan.transactionId ∧
    t.orderId = q.plan.order.id ∧ t.idempotencyKey = q.plan.key := by
  unfold payment at h
  split at h <;> cases h <;> simp [newHold]

theorem taken_le (h : 0 ≤ q.plan.order.amount) : q.taken ≤ q.plan.order.amount := by
  unfold taken
  split
  · exact h
  · exact PlannedIssue.cost_le h
  · exact le_refl _

@[simp] theorem totalTaken_cons (q : PlannedRun) (qs : List PlannedRun) (agentId : String) :
    totalTaken (q :: qs) agentId =
      (if q.plan.order.agentId = agentId then q.taken else 0) + totalTaken qs agentId := by
  simp [totalTaken]

@[simp] theorem total_cons (amount : PlannedIssue → Money) (p : PlannedIssue)
    (ps : List PlannedIssue) (agentId : String) :
    PlannedIssue.total amount (p :: ps) agentId =
      (if p.order.agentId = agentId then amount p else 0) +
        PlannedIssue.total amount ps agentId := by
  unfold PlannedIssue.total
  by_cases h : p.order.agentId = agentId <;> simp [h]

theorem totalTaken_set (hi : qs[i]? = some q) (hp : q'.plan = q.plan) (agentId : String) :
    totalTaken (qs.set i q') agentId = totalTaken qs agentId +
      if q.plan.order.agentId = agentId then q'.taken - q.taken else 0 := by
  induction qs generalizing i with
  | nil => cases hi
  | cons x qs ih =>
    cases i with
    | zero =>
      obtain rfl : x = q := Option.some.inj hi
      simp only [List.set_cons_zero, totalTaken_cons, hp]
      split <;> linarith
    | succ i =>
      simp only [List.set_cons_succ, totalTaken_cons, ih hi]
      linarith

theorem totalTaken_le_total (h : ∀ u ∈ qs, 0 ≤ u.plan.order.amount) (agentId : String) :
    totalTaken qs agentId ≤
      PlannedIssue.total (·.order.amount) (qs.map (·.plan)) agentId := by
  induction qs with
  | nil => exact le_refl _
  | cons x qs ih =>
    have hx := taken_le (h x List.mem_cons_self)
    have hqs := ih fun u hu => h u (List.mem_cons_of_mem _ hu)
    simp only [totalTaken_cons, List.map_cons, total_cons]
    split <;> linarith

theorem totalTaken_le (hi : qs[i]? = some q) (h : ∀ u ∈ qs, 0 ≤ u.plan.order.amount) :
    totalTaken qs q.plan.order.agentId + (q.plan.order.amount - q.taken) ≤
      PlannedIssue.total (·.order.amount) (qs.map (·.plan)) q.plan.order.agentId := by
  induction qs generalizing i with
  | nil => cases hi
  | cons x qs ih =>
    simp only [totalTaken_cons, List.map_cons, total_cons]
    cases i with
    | zero =>
      obtain rfl : x = q := Option.some.inj hi
      have hqs := totalTaken_le_total (fun u hu => h u (List.mem_cons_of_mem _ hu))
        x.plan.order.agentId
      simp only [if_true]
      linarith
    | succ i =>
      have hx := taken_le (h x List.mem_cons_self)
      have hqs := ih hi fun u hu => h u (List.mem_cons_of_mem _ hu)
      split <;> linarith

end PlannedRun

theorem mem_set_iff (hnd : (qs.map (·.plan.order.id)).Nodup) (hi : qs[i]? = some q)
    (hp : q'.plan = q.plan) :
    u ∈ qs.set i q' ↔ u = q' ∨ (u ∈ qs ∧ u.plan.order.id ≠ q.plan.order.id) := by
  have hlt : i < qs.length := (List.getElem?_eq_some_iff.mp hi).1
  constructor
  · intro hu
    obtain ⟨j, hj⟩ := List.mem_iff_getElem?.mp hu
    by_cases hij : i = j
    · subst hij
      rw [List.getElem?_set_self hlt] at hj
      exact Or.inl (Option.some.inj hj).symm
    · rw [List.getElem?_set_ne hij] at hj
      refine Or.inr ⟨List.mem_of_getElem? hj, fun hid => hij ?_⟩
      refine (List.getElem?_inj (by simpa using hlt) hnd).mp ?_
      rw [List.getElem?_map, List.getElem?_map, hi, hj, Option.map_some, Option.map_some, hid]
  · rintro (rfl | ⟨hu, hne⟩)
    · exact List.mem_set hlt _
    · obtain ⟨j, hj⟩ := List.mem_iff_getElem?.mp hu
      have hij : i ≠ j := by
        rintro rfl
        exact hne (by rw [Option.some.inj (hj.symm.trans hi)])
      exact List.mem_of_getElem? ((List.getElem?_set_ne hij).trans hj)

end Rows

namespace PlannedIssue

variable {p : PlannedIssue} {x : PlannedChoice}

theorem outcome_of_answer {ticket : ProviderTicket} (h : p.choice x = .answer ticket) :
    p.outcome = .ticket ticket := by
  cases x with
  | answer =>
    simp only [choice] at h
    split at h <;> cases h
    assumption
  | _ => cases h

theorem outcome_of_raise {e : Raised} (h : p.choice x = .raise e) : p.outcome = .failure e := by
  cases x with
  | answer =>
    simp only [choice] at h
    split at h <;> cases h
    assumption
  | _ => cases h

theorem outcome_of_cancel (h : p.choice x = .cancel) : p.outcome = .cancelled := by
  cases x with
  | answer =>
    simp only [choice] at h
    split at h <;> cases h
    assumption
  | _ => cases h

end PlannedIssue

section Steps

variable {w w' : World} {plans : List PlannedIssue} {c : Issuing} {q q' u : PlannedRun} {i : ℕ}
  {phase : Phase} {a : Agent} {t t' : BalanceTransaction} {es : List Event} {x : PlannedChoice}

namespace Progress

theorem plan_mem (h : Progress w plans c) (hq : q ∈ c.procs) : q.plan ∈ plans := by
  rw [← h.planned]
  exact List.mem_map.mpr ⟨q, hq, rfl⟩

theorem once (h : Progress w plans c) (hI : Independent w.db plans) :
    (c.procs.map (·.plan.order.id)).Nodup := by
  have hnd := hI.orders
  rwa [← h.planned, List.map_map] at hnd

theorem eq_of_id (h : Progress w plans c) (hI : Independent w.db plans) (hq : q ∈ c.procs)
    (hu : u ∈ c.procs) (hid : u.plan.order.id = q.plan.order.id) : u = q :=
  List.inj_on_of_nodup_map (h.once hI) hu hq hid

theorem notMem_unpaid (hI : Independent w.db plans) {p : PlannedIssue} (hp : p ∈ plans)
    (ht : t ∈ w.db.transactions) : t.orderId ≠ p.order.id :=
  transactionOf_eq_none.mp (hI.unpaid p hp) t ht

theorem payment_eq (h : Progress w plans c) (hI : Independent w.db plans) (hq : q ∈ c.procs) :
    c.store.db.transactionOf q.plan.order.id = q.payment := by
  cases hpay : q.payment with
  | some t =>
    refine h.coupled.onePayment.transactionOf_eq_some.mpr ⟨?_, (q.payment_fields hpay).2.1⟩
    exact (h.transactions t).mpr (Or.inr ⟨q, hq, hpay⟩)
  | none =>
    refine transactionOf_eq_none.mpr fun t ht hid => ?_
    rcases (h.transactions t).mp ht with ht | ⟨u, hu, hupay⟩
    · exact notMem_unpaid hI (h.plan_mem hq) ht hid
    · obtain rfl := h.eq_of_id hI hq hu ((u.payment_fields hupay).2.1.symm.trans hid)
      rw [hpay] at hupay
      cases hupay

theorem exists_at (h : Progress w plans c) (hI : Independent w.db plans)
    (hi : c.procs[i]? = some q) : ∃ a, a.id = q.plan.order.agentId ∧
      At c.store.db a q.row q.payment ∧ q.plan.order.amount - q.taken ≤ a.balance := by
  have hq := List.mem_of_getElem? hi
  have hp := h.plan_mem hq
  obtain ⟨a, ha, haid⟩ := hI.agents _ hp
  refine ⟨{ a with balance := a.balance - PlannedRun.totalTaken c.procs a.id }, haid,
    ⟨(h.agents _).mpr ⟨a, ha, rfl⟩, (h.orders _).mpr (Or.inr ⟨q, hq, rfl⟩), ?_⟩, ?_⟩
  · rw [q.row_id]
    exact h.payment_eq hI hq
  · have hle := PlannedRun.totalTaken_le hi fun u hu => hI.amounts _ (h.plan_mem hu)
    have hfunds := hI.funds a ha
    rw [haid] at hfunds ⊢
    rw [h.planned] at hle
    show _ ≤ a.balance - _
    linarith

theorem due_set (h : Progress w plans c) (hdue : q'.Due) : ∀ u ∈ c.procs.set i q', u.Due := by
  intro u hu
  rcases List.mem_or_eq_of_mem_set hu with hu | rfl
  · exact h.due u hu
  · exact hdue

theorem still (h : Progress w plans c) (hI : Independent w.db plans) (hi : c.procs[i]? = some q)
    (hplan : q'.plan = q.plan) (hdue : q'.Due) (hdb : w'.db = c.store.db) (hrow : q'.row = q.row)
    (hpay : q'.payment = q.payment) (htaken : q'.taken = q.taken) :
    Progress w plans ⟨w', c.procs.set i q'⟩ := by
  have hq := List.mem_of_getElem? hi
  have hmem : ∀ {P : PlannedRun → Prop}, (P q' ↔ P q) →
      ((∃ u ∈ c.procs.set i q', P u) ↔ ∃ u ∈ c.procs, P u) := by
    intro P hP
    constructor
    · rintro ⟨u, hu, hPu⟩
      rcases (mem_set_iff (h.once hI) hi hplan).mp hu with rfl | ⟨hu, _⟩
      · exact ⟨q, hq, hP.mp hPu⟩
      · exact ⟨u, hu, hPu⟩
    · rintro ⟨u, hu, hPu⟩
      by_cases hid : u.plan.order.id = q.plan.order.id
      · obtain rfl := h.eq_of_id hI hq hu hid
        exact ⟨q', (mem_set_iff (h.once hI) hi hplan).mpr (Or.inl rfl), hP.mpr hPu⟩
      · exact ⟨u, (mem_set_iff (h.once hI) hi hplan).mpr (Or.inr ⟨hu, hid⟩), hPu⟩
  have htot : ∀ agentId, PlannedRun.totalTaken (c.procs.set i q') agentId =
      PlannedRun.totalTaken c.procs agentId := by
    intro agentId
    rw [PlannedRun.totalTaken_set hi hplan, htaken, sub_self, ite_self, add_zero]
  refine ⟨?_, h.due_set hdue, hdb ▸ h.coupled, fun b => ?_, fun o => ?_, fun t => ?_⟩
  · rw [Program.map_set_eq hi hplan, h.planned]
  · simp only [hdb, htot]
    exact h.agents b
  · rw [hdb, h.orders, hmem (by rw [hrow])]
  · rw [hdb, h.transactions, hmem (by rw [hpay])]

theorem agents_set {o' : Order} {t? : Option BalanceTransaction} (h : Progress w plans c)
    (hi : c.procs[i]? = some q) (hplan : q'.plan = q.plan) (ha : a.id = q.plan.order.agentId)
    (hm : Moved phase c.store.db w'.db a q.row o' t? t' es)
    (htaken : (es.map Event.delta).sum = q.taken - q'.taken) (b : Agent) :
    b ∈ w'.db.agents ↔ ∃ a ∈ w.db.agents, b = { a with
      balance := a.balance - PlannedRun.totalTaken (c.procs.set i q') a.id } := by
  have hself : ∀ a₀ ∈ w.db.agents, a₀.id = a.id →
      { a with balance := a.balance + (es.map Event.delta).sum } = { a₀ with
        balance := a₀.balance - PlannedRun.totalTaken (c.procs.set i q') a₀.id } := by
    intro a₀ ha₀ hid
    have hcur := Database.agent_ext hm.agent_mem ((h.agents _).mpr ⟨a₀, ha₀, rfl⟩) hid.symm
    rw [PlannedRun.totalTaken_set hi hplan, if_pos (ha.symm.trans hid.symm), htaken, hcur]
    simp only [Agent.mk.injEq, true_and, and_true]
    linarith
  have hother : ∀ a₀ : Agent, a₀.id ≠ a.id →
      PlannedRun.totalTaken (c.procs.set i q') a₀.id = PlannedRun.totalTaken c.procs a₀.id := by
    intro a₀ hne
    rw [PlannedRun.totalTaken_set hi hplan, if_neg fun he => hne (he.symm.trans ha.symm), add_zero]
  rw [hm.mem_agents]
  constructor
  · rintro (rfl | ⟨hb, hne⟩)
    · obtain ⟨a₀, ha₀, hcur⟩ := (h.agents a).mp hm.agent_mem
      exact ⟨a₀, ha₀, hself a₀ ha₀ (by rw [hcur])⟩
    · obtain ⟨a₀, ha₀, rfl⟩ := (h.agents b).mp hb
      exact ⟨a₀, ha₀, by rw [hother a₀ hne]⟩
  · rintro ⟨a₀, ha₀, rfl⟩
    by_cases hid : a₀.id = a.id
    · exact Or.inl (hself a₀ ha₀ hid).symm
    · rw [hother a₀ hid]
      exact Or.inr ⟨(h.agents _).mpr ⟨a₀, ha₀, rfl⟩, hid⟩

theorem moved (h : Progress w plans c) (hI : Independent w.db plans) (hi : c.procs[i]? = some q)
    (hplan : q'.plan = q.plan) (hdue : q'.Due) (ha : a.id = q.plan.order.agentId)
    (hm : Moved phase c.store.db w'.db a q.row q'.row q.payment t' es)
    (hpay : q'.payment = some t') (htaken : (es.map Event.delta).sum = q.taken - q'.taken) :
    Progress w plans ⟨w', c.procs.set i q'⟩ := by
  have hset := fun u => mem_set_iff (u := u) (h.once hI) hi hplan
  have hplanned := h.plan_mem (List.mem_of_getElem? hi)
  refine ⟨?_, h.due_set hdue, hm.coupled h.coupled, fun b => ?_, fun o => ?_, fun t => ?_⟩
  · rw [Program.map_set_eq hi hplan, h.planned]
  · exact h.agents_set hi hplan ha hm htaken b
  · rw [hm.mem_orders, h.orders, q.row_id]
    constructor
    · rintro (rfl | ⟨⟨ho, hnot⟩ | ⟨u, hu, rfl⟩, hne⟩)
      · exact Or.inr ⟨q', (hset q').mpr (Or.inl rfl), rfl⟩
      · exact Or.inl ⟨ho, hnot⟩
      · exact Or.inr ⟨u, (hset u).mpr (Or.inr ⟨hu, by simpa using hne⟩), rfl⟩
    · rintro (⟨ho, hnot⟩ | ⟨u, hu, rfl⟩)
      · refine Or.inr ⟨Or.inl ⟨ho, hnot⟩, fun hid => hnot ?_⟩
        exact List.mem_map.mpr ⟨_, hplanned, hid.symm⟩
      · rcases (hset u).mp hu with rfl | ⟨hu, hne⟩
        · exact Or.inl rfl
        · exact Or.inr ⟨Or.inr ⟨u, hu, rfl⟩, by simpa using hne⟩
  · rw [hm.mem_transactions h.coupled.onePayment, h.transactions, q.row_id]
    constructor
    · rintro (rfl | ⟨ht | ⟨u, hu, hut⟩, hne⟩)
      · exact Or.inr ⟨q', (hset q').mpr (Or.inl rfl), hpay⟩
      · exact Or.inl ht
      · refine Or.inr ⟨u, (hset u).mpr (Or.inr ⟨hu, ?_⟩), hut⟩
        rwa [← (u.payment_fields hut).2.1]
    · rintro (ht | ⟨u, hu, hut⟩)
      · exact Or.inr ⟨Or.inl ht, notMem_unpaid hI hplanned ht⟩
      · rcases (hset u).mp hu with rfl | ⟨hu, hne⟩
        · exact Or.inl (Option.some.inj (hut.symm.trans hpay))
        · exact Or.inr ⟨Or.inr ⟨u, hu, hut⟩, by rwa [(u.payment_fields hut).2.1]⟩

theorem eq_of_key (h : Progress w plans c) (hI : Independent w.db plans) (hq : q ∈ c.procs)
    (hu : u ∈ c.procs) (hkey : u.plan.key = q.plan.key) : u = q := by
  have hnd := hI.keys
  rw [← h.planned, List.map_map] at hnd
  exact List.inj_on_of_nodup_map hnd hu hq hkey

theorem eq_of_transactionId (h : Progress w plans c) (hI : Independent w.db plans)
    (hq : q ∈ c.procs) (hu : u ∈ c.procs)
    (hid : u.plan.transactionId = q.plan.transactionId) : u = q := by
  have hnd := hI.ids
  rw [← h.planned, List.map_map] at hnd
  exact List.inj_on_of_nodup_map hnd hu hq hid

theorem id_of_ticket (hI : Independent w.db plans) {p p' : PlannedIssue} {n : String}
    (hp : p ∈ plans) (hp' : p' ∈ plans) (hn : p.ticketNumber? = some n)
    (hn' : p'.ticketNumber? = some n) : p.order.id = p'.order.id := by
  by_contra hne
  have hpw := List.pairwise_filterMap.mp hI.tickets
  have hsymm : Std.Symm fun a b : PlannedIssue =>
      ∀ m, a.ticketNumber? = some m → ∀ k, b.ticketNumber? = some k → m ≠ k :=
    ⟨fun _ _ h m hm k hk he => h k hk m hm he.symm⟩
  have hsep := hpw.forall hp hp' (by rintro rfl; exact hne rfl)
  exact hsep n hn n hn' rfl

theorem planned_key (hI : Independent w.db plans) {p : PlannedIssue} (hp : p ∈ plans) :
    p.order.issueIdempotencyKey = none := by
  have hs := (hI.coupled.standing _ (hI.stored p hp)).key
  rwa [hI.unpaid p hp, Option.isSome_none, Option.isSome_eq_false_iff,
    Option.isNone_iff_eq_none] at hs

theorem new_key (h : Progress w plans c) (hI : Independent w.db plans) (hq : q ∈ c.procs)
    (hp : q.phase = .requested) :
    (∀ o ∈ c.store.db.orders, o.issueIdempotencyKey = some q.plan.key → o.id = q.row.id) ∧
    ∀ t ∈ c.store.db.transactions, t.id ≠ q.plan.transactionId ∧
      t.idempotencyKey ≠ q.plan.key := by
  have hplan := h.plan_mem hq
  have hnone : ∀ t, q.payment ≠ some t := by
    simp [PlannedRun.payment, hp]
  constructor
  · intro o ho hkey
    rcases (h.orders o).mp ho with ⟨ho, _⟩ | ⟨u, hu, rfl⟩
    · exact absurd hkey ((hI.newKeys _ hplan).1 o ho)
    · rcases u.row_key with hrow | hrow
      · rw [hrow, planned_key hI (h.plan_mem hu)] at hkey
        cases hkey
      · rw [h.eq_of_key hI hq hu (Option.some.inj (hrow.symm.trans hkey))]
  · intro t ht
    rcases (h.transactions t).mp ht with ht | ⟨u, hu, hut⟩
    · exact ⟨hI.newIds _ hplan t ht, (hI.newKeys _ hplan).2 t ht⟩
    · obtain ⟨hid, _, hkey⟩ := u.payment_fields hut
      refine ⟨fun he => ?_, fun he => ?_⟩
      · obtain rfl := h.eq_of_transactionId hI hq hu (hid.symm.trans he)
        exact hnone t hut
      · obtain rfl := h.eq_of_key hI hq hu (hkey.symm.trans he)
        exact hnone t hut

theorem hold (h : Progress w plans c) (hI : Independent w.db plans) (hi : c.procs[i]? = some q)
    (hp : q.phase = .requested) : ∃ debit db',
      issueOrderHold c.store.db q.plan.order.agentId q.plan.order.id q.plan.key
        q.plan.transactionId = .ok (.held q.plan.order.providerBookingId debit, db') ∧
      ∀ es, Progress w plans ⟨c.store.commit db' es,
        c.procs.set i { q with phase := .held q.plan.order.providerBookingId }⟩ := by
  have hq := List.mem_of_getElem? hi
  have hplan := h.plan_mem hq
  obtain ⟨a, ha, hat, hbal⟩ := h.exists_at hI hi
  obtain ⟨hkeys, hnew⟩ := h.new_key hI hq hp
  have hrow : q.row = q.plan.order := by simp [PlannedRun.row, hp]
  have hpay : q.payment = none := by simp [PlannedRun.payment, hp]
  have htaken : q.taken = 0 := by simp [PlannedRun.taken, hp]
  rw [hrow, hpay] at hat
  rw [htaken, sub_zero] at hbal
  rw [hrow] at hkeys
  have hnone := planned_key hI hplan
  have hs : q.plan.order.status ≠ .issued := by simp [hI.booked _ hplan]
  have hw : holdWrites q.plan.order a none q.plan.key = true :=
    holdWrites_iff.mpr ⟨hs, by simp [Order.otherKey, hnone], Or.inr hbal⟩
  obtain ⟨debit, db', hok⟩ := hat.exists_hold ha.symm hw (fun u hu => (hnew u hu).1)
    (keyFree_iff.mpr ⟨hkeys, fun _ u hu => (hnew u hu).2⟩)
  refine ⟨debit, db', ha ▸ hok, fun es => ?_⟩
  obtain ⟨t', debit', _, hm⟩ := hat.hold_moved hs hok
  have hid := hat.hold_id hs hok hm h.coupled.onePayment
  have hmove := hm.move
  generalize debit'.toList.map (Event.debited a.id q.plan.order.id) = es' at hm hmove
  cases hmove with
  | @debit _ transactionId =>
    obtain rfl : transactionId = q.plan.transactionId := hid
    refine h.moved hI hi rfl trivial ha (by rw [hrow, hpay]; exact hm) rfl ?_
    rw [htaken]
    simp [Event.delta, PlannedRun.taken]

theorem release {e : Raised} (h : Progress w plans c) (hI : Independent w.db plans)
    (hi : c.procs[i]? = some q) (hp : q.phase = .refused e) :
    (∃ refund db',
      releaseHold c.store.db q.plan.order.agentId q.plan.order.id e.text = .ok (db', refund) ∧
      ∀ es, Progress w plans ⟨c.store.commit db' es, c.procs.set i { q with
        phase :=
          .done (.error (.providerError "Airline provider failed to issue the ticket")) }⟩) ∨
    releaseHold c.store.db q.plan.order.agentId q.plan.order.id e.text = .error .dbapiError ∧
      Progress w plans ⟨c.store, c.procs.set i { q with phase := .done (.error .dbapiError) }⟩ := by
  have hq := List.mem_of_getElem? hi
  obtain ⟨a, ha, hat, _⟩ := h.exists_at hI hi
  have hout : q.plan.outcome = .failure e := by
    simpa [PlannedRun.Due, hp] using h.due q hq
  have hrow : q.row = q.plan.order.holding q.plan.key := by simp [PlannedRun.row, hp]
  have hpay : q.payment = some (newHold q.plan.order q.plan.key q.plan.transactionId) := by
    simp [PlannedRun.payment, hp]
  have htaken : q.taken = q.plan.order.amount := by simp [PlannedRun.taken, hp]
  rw [hrow, hpay] at hat
  by_cases hs : Storable e.text
  · obtain ⟨db', hok⟩ := hat.exists_release rfl hs
    refine Or.inl ⟨_, db', ha ▸ hok, fun es => ?_⟩
    have hm := hat.release_moved ha.symm hok
    have hend : Moved .release c.store.db db' a q.row q.plan.finalOrder q.payment
        q.plan.finalPayment [.refunded a.id q.plan.order.id
          (newHold q.plan.order q.plan.key q.plan.transactionId).amount] := by
      simp only [hrow, hpay, PlannedIssue.finalOrder, PlannedIssue.finalPayment,
        PlannedIssue.finalStatus, hout, if_pos hs]
      exact hm
    refine h.moved hI hi rfl (by simp [PlannedRun.Due]) ha hend rfl ?_
    rw [htaken]
    simp [Event.delta, PlannedRun.taken, PlannedIssue.cost, hout, hs, newHold]
  · refine Or.inr ⟨ha ▸ hat.release_untaken rfl hs,
      h.still hI hi rfl (by simp [PlannedRun.Due]) rfl ?_ ?_ ?_⟩
    · rw [hrow]
      simp [PlannedRun.row, PlannedIssue.finalOrder, hout, hs]
    · rw [hpay]
      simp only [PlannedRun.payment, PlannedIssue.finalPayment, PlannedIssue.finalStatus, hout,
        if_neg hs]
      rfl
    · rw [htaken]
      simp [PlannedRun.taken, PlannedIssue.cost, hout, hs]

theorem new_ticket {ticket kept : ProviderTicket} (h : Progress w plans c)
    (hI : Independent w.db plans) (hq : q ∈ c.procs) (hout : q.plan.outcome = .ticket ticket)
    (hk : ticket.kept = some kept) :
    ∀ o ∈ c.store.db.orders, o.ticketNumber = some kept.ticketNumber →
      o.id = q.plan.order.id := by
  have hn : q.plan.ticketNumber? = some kept.ticketNumber := by
    simp [PlannedIssue.ticketNumber?, hout, hk]
  have hold := hI.newTickets _ (List.mem_filterMap.mpr ⟨_, h.plan_mem hq, hn⟩)
  intro o ho htk
  rcases (h.orders o).mp ho with ⟨ho, _⟩ | ⟨u, hu, rfl⟩
  · exact absurd htk (hold o ho)
  · rcases u.row_ticket with hrow | hrow
    · rw [hrow] at htk
      exact absurd htk (hold _ (hI.stored _ (h.plan_mem hu)))
    · rw [u.row_id]
      exact id_of_ticket hI (h.plan_mem hu) (h.plan_mem hq) (hrow.symm.trans htk) hn

theorem capture {ticket : ProviderTicket} (durationMs : ℤ) (h : Progress w plans c)
    (hI : Independent w.db plans) (hi : c.procs[i]? = some q) (hp : q.phase = .ticketed ticket) :
    (∃ result db', issueOrderCapture c.store.db q.plan.order.agentId q.plan.order.id q.plan.key
        ticket durationMs = .ok (result, db') ∧
      ∀ es, Progress w plans ⟨c.store.commit db' es,
        c.procs.set i { q with phase := .done (.ok result) }⟩) ∨
    issueOrderCapture c.store.db q.plan.order.agentId q.plan.order.id q.plan.key ticket
        durationMs = .error .dbapiError ∧
      Progress w plans ⟨c.store, c.procs.set i { q with phase := .done (.error .dbapiError) }⟩ := by
  have hq := List.mem_of_getElem? hi
  obtain ⟨a, ha, hat, _⟩ := h.exists_at hI hi
  have hout : q.plan.outcome = .ticket ticket := by
    simpa [PlannedRun.Due, hp] using h.due q hq
  have hrow : q.row = q.plan.order.holding q.plan.key := by simp [PlannedRun.row, hp]
  have hpay : q.payment = some (newHold q.plan.order q.plan.key q.plan.transactionId) := by
    simp [PlannedRun.payment, hp]
  have htaken : q.taken = q.plan.order.amount := by simp [PlannedRun.taken, hp]
  rw [hrow, hpay] at hat
  cases hk : ticket.kept with
  | none =>
    have hfail := hat.capture_untaken q.plan.key durationMs ha.symm (by simp [Order.holding]) hk
    refine Or.inr ⟨ha ▸ hfail, h.still hI hi rfl (by simp [PlannedRun.Due]) rfl ?_ ?_ ?_⟩
    · rw [hrow]
      simp [PlannedRun.row, PlannedIssue.finalOrder, hout, hk]
    · rw [hpay]
      simp only [PlannedRun.payment, PlannedIssue.finalPayment, PlannedIssue.finalStatus, hout, hk]
      rfl
    · rw [htaken]
      simp [PlannedRun.taken, PlannedIssue.cost, hout]
  | some kept =>
    obtain ⟨result, db', hok⟩ := hat.exists_capture q.plan.key durationMs ha.symm
      (by simp [Order.holding]) hk (h.new_ticket hI hq hout hk)
    refine Or.inl ⟨result, db', ha ▸ hok, fun es => ?_⟩
    obtain ⟨kept', hk', _, hm⟩ := hat.capture_moved (by simp [Order.holding]) hok
    obtain rfl := Option.some.inj (hk'.symm.trans hk)
    have hend : Moved (.capture kept') c.store.db db' a q.row q.plan.finalOrder q.payment
        q.plan.finalPayment [] := by
      simp only [hrow, hpay, PlannedIssue.finalOrder, PlannedIssue.finalPayment,
        PlannedIssue.finalStatus, hout, hk]
      exact hm
    refine h.moved hI hi rfl trivial ha hend rfl ?_
    rw [htaken]
    simp [PlannedRun.taken, PlannedIssue.cost, hout]

/-- Every step of a request leaves the store what the requests have made of it. -/
theorem advance (h : Progress w plans c) (hI : Independent w.db plans) (hi : c.procs[i]? = some q)
    (ha : q.advance c.store x = some (w', q')) : Progress w plans ⟨w', c.procs.set i q'⟩ := by
  have hdue := h.due q (List.mem_of_getElem? hi)
  simp only [PlannedRun.advance, Option.map_eq_some_iff, Prod.mk.injEq, Prod.exists] at ha
  obtain ⟨w₁, r, hr, rfl, rfl⟩ := ha
  generalize hy : q.plan.choice x = y at hr
  unfold IssueOrder.advance at hr
  split at hr
  case h_1 transactionId hp =>
    obtain rfl : q.plan.transactionId = transactionId := by
      cases x with
      | answer =>
        simp only [PlannedIssue.choice] at hy
        split at hy <;> cases hy
      | hold => exact IssueChoice.hold.inj hy
      | _ => cases hy
    obtain ⟨debit, db', hok, hnext⟩ := h.hold hI hi hp
    simp only [PlannedIssue.request, hok] at hr
    cases hr
    exact hnext _
  case h_2 b hp =>
    change q.phase = _ at hp
    cases hr
    exact h.still hI hi rfl trivial rfl (by simp [PlannedRun.row, hp])
      (by simp [PlannedRun.payment, hp]) (by simp [PlannedRun.taken, hp])
  case h_3 b ticket hp =>
    change q.phase = _ at hp
    cases hr
    exact h.still hI hi rfl (PlannedIssue.outcome_of_answer hy) rfl (by simp [PlannedRun.row, hp])
      (by simp [PlannedRun.payment, hp]) (by simp [PlannedRun.taken, hp])
  case h_4 b e hp =>
    change q.phase = _ at hp
    cases hr
    exact h.still hI hi rfl (PlannedIssue.outcome_of_raise hy) rfl (by simp [PlannedRun.row, hp])
      (by simp [PlannedRun.payment, hp]) (by simp [PlannedRun.taken, hp])
  case h_5 b hp =>
    change q.phase = _ at hp
    cases hr
    have hout := PlannedIssue.outcome_of_cancel hy
    refine h.still hI hi rfl (by simp [PlannedRun.Due, IssueOrder.finish]) rfl ?_ ?_ ?_
    · simp [PlannedRun.row, hp, IssueOrder.finish, PlannedIssue.finalOrder, hout]
    · simp only [PlannedRun.payment, hp, IssueOrder.finish, PlannedIssue.finalPayment,
        PlannedIssue.finalStatus, hout]
      rfl
    · simp [PlannedRun.taken, hp, IssueOrder.finish, PlannedIssue.cost, hout]
  case h_6 e hp =>
    rcases h.release hI hi hp with ⟨refund, db', hok, hnext⟩ | ⟨hfail, hnext⟩
    · simp only [PlannedIssue.request, hok] at hr
      cases hr
      exact hnext _
    · simp only [PlannedIssue.request, hfail] at hr
      cases hr
      exact hnext
  case h_7 ticket durationMs hp =>
    rcases h.capture durationMs hI hi hp with ⟨result, db', hok, hnext⟩ | ⟨hfail, hnext⟩
    · simp only [PlannedIssue.request, hok] at hr
      cases hr
      exact hnext _
    · simp only [PlannedIssue.request, hfail] at hr
      cases hr
      exact hnext
  case h_8 => cases hr

end Progress

end Steps

section Runs

variable {w : World} {plans : List PlannedIssue} {c : Issuing} {q : PlannedRun}
  {as : List (Action PlannedRun PlannedChoice)}

theorem Progress.start (hI : Independent w.db plans) :
    Progress w plans (Issuing.start w plans) where
  planned := by simp [Issuing.start, Function.comp_def]
  due q hq := by
    obtain ⟨p, _, rfl⟩ := List.mem_map.mp hq
    trivial
  coupled := hI.coupled
  agents b := by
    have hzero : ∀ agentId, PlannedRun.totalTaken (Issuing.start w plans).procs agentId = 0 := by
      intro agentId
      simp [PlannedRun.totalTaken, Issuing.start, PlannedRun.taken, Function.comp_def]
    simp only [hzero, sub_zero]
    constructor
    · intro hb
      exact ⟨b, hb, rfl⟩
    · rintro ⟨a, ha, rfl⟩
      exact ha
  orders o := by
    constructor
    · intro ho
      by_cases hid : o.id ∈ plans.map (·.order.id)
      · obtain ⟨p, hp, hpid⟩ := List.mem_map.mp hid
        refine Or.inr ⟨⟨p, .requested⟩, List.mem_map.mpr ⟨p, hp, rfl⟩, ?_⟩
        exact Database.order_ext ho (hI.stored p hp) hpid.symm
      · exact Or.inl ⟨ho, hid⟩
    · rintro (⟨ho, _⟩ | ⟨q, hq, rfl⟩)
      · exact ho
      · obtain ⟨p, hp, rfl⟩ := List.mem_map.mp hq
        exact hI.stored p hp
  transactions t := by
    simp [Issuing.start, PlannedRun.payment]

theorem Progress.of_run (hI : Independent w.db plans)
    (h : PlannedRun.program.machine.Run (Issuing.start w plans) as c) : Progress w plans c := by
  refine h.invariant (I := Progress w plans) ?_ (.start hI)
  intro c a c' _ hs h
  cases a with
  | spawn q =>
    obtain ⟨hf, _⟩ := Program.step_spawn_iff.mp hs
    cases hf
  | advance i x =>
    obtain ⟨q, w', q', hi, ha, rfl⟩ := Program.step_advance_iff.mp hs
    exact h.advance hI hi ha

theorem PlannedRun.advance_done {result : Except Failure Issued} {x : PlannedChoice}
    (hp : q.phase = .done result) : q.advance w x = none := by
  rw [advance, Option.map_eq_none_iff, hp]
  cases hx : q.plan.choice x <;> rfl

theorem PlannedRun.exists_advance (w : World) (q : PlannedRun)
    (hq : ∀ result, q.phase ≠ .done result) : ∃ x, (q.advance w x).isSome = true := by
  simp only [advance, Option.isSome_map]
  cases hp : q.phase with
  | requested =>
    refine ⟨.hold, ?_⟩
    simp only [PlannedIssue.request, PlannedIssue.choice, IssueOrder.advance]
    split <;> rfl
  | held => exact ⟨.call, rfl⟩
  | issuing =>
    refine ⟨.answer, ?_⟩
    cases ho : q.plan.outcome <;>
      simp [PlannedIssue.request, PlannedIssue.choice, IssueOrder.advance, ho]
  | ticketed =>
    refine ⟨.capture 0, ?_⟩
    simp only [PlannedIssue.request, PlannedIssue.choice, IssueOrder.advance]
    split <;> rfl
  | refused =>
    refine ⟨.release, ?_⟩
    simp only [PlannedIssue.request, PlannedIssue.choice, IssueOrder.advance]
    split <;> rfl
  | done result => exact absurd hp (hq result)

end Runs

/-! ## A ticket and a failure -/

namespace Example

def timeout : Raised := ⟨"", "TimeoutError", true⟩

end Example

end Ioka
