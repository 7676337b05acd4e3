import Mathlib.Data.Fintype.EquivFin
import Mathlib.Data.String.Defs
import Ioka.Booking.Reachable
import Ioka.Booking.Success

/-! # Retrying the issue of an order

Attempts at one order under one key follow each other. An attempt may stop at
any point: with an error, with a timeout, or because its process crashed. What
it leaves behind is either ready for a hold or a hold that still stands, and
the next attempt takes a different branch for each. The attempt that succeeds
leaves the same rows after any number of failures.
-/

namespace Ioka

open Relational Transition

/-- The rows at the start, the key of all attempts, and the ticket that the provider keeps for
each booking and key. -/
structure Retry where
  agent : Agent
  order : Order
  payment : Option BalanceTransaction
  key : String
  tickets : String → String → ProviderTicket

section At

variable {sha256 : String → String} {w w' : World} {p : Request} {a : Agent} {o : Order}
  {t? : Option BalanceTransaction}

theorem Effect.at (h : Effect sha256 w p w') (hat : At w.db a o t?) (hown : o.agentId = a.id)
    (hne : p.agentId ≠ a.id) : At w'.db a o t? := by
  cases h with
  | quiet => exact ⟨hat.agent, hat.order, hat.payment⟩
  | @moved r _ _ b q _ _ _ _ _ hid hb hm =>
    have hba : b.id ≠ a.id := fun he => hne (hb.symm.trans he)
    have hqo : o.id ≠ q.id := by
      intro he
      rw [hat.order_eq hm.order_mem he.symm] at hm
      exact hba (hm.owner.symm.trans hown)
    refine ⟨hm.mem_agents.mpr (Or.inr ⟨hat.agent, hba.symm⟩),
      hm.mem_orders.mpr (Or.inr ⟨hat.order, hqo⟩), ?_⟩
    exact (hm.transactionOf_of_ne hqo).trans hat.payment
  | created _ _ hc =>
    refine ⟨?_, hc.mem_orders.mpr (Or.inl hat.order), hc.transactionOf.trans hat.payment⟩
    rw [World.commit_db, hc.agents]
    exact hat.agent

end At

namespace Retry

variable (r : Retry)

def request : IssueOrder := ⟨r.agent.id, r.order.id, r.key, .requested⟩

def ticket : ProviderTicket := r.tickets r.order.providerBookingId r.key

/-! ## Attempts -/

/-- The provider answers with the ticket of the booking and the key. -/
def honest : Request → Choice → Bool
  | .inr ⟨_, _, key, .issuing providerBookingId⟩, .inr (.answer ticket) =>
    ticket = r.tickets providerBookingId key
  | _, _ => true

/-- Other agents' requests go on; of this agent, only the attempt that is under way. Its earlier
requests have ended or never go on. -/
def alone (running : Option ℕ) (c : Booking) : Action Request Choice → Bool
  | .spawn p => p.agentId ≠ r.agent.id
  | .advance i x => c.procs[i]?.all fun p =>
    p.agentId ≠ r.agent.id ∨ (running = some i ∧ r.honest p x)

/-- An attempt arrives as request `n` once the attempts before it have stopped. -/
def Attempt (sha256 : String → String) (c : Booking) (n : ℕ) (c' : Booking) : Prop :=
  ∃ c₁ as bs, (booking sha256).machine.RunWhere (fun c a => r.alone none c a) c as c₁ ∧
    c₁.procs.length = n ∧
    (booking sha256).machine.RunWhere (fun c a => r.alone (some n) c a)
      ⟨c₁.store, c₁.procs ++ [.inr r.request]⟩ bs c'

def returned : Request → Bool
  | .inr ⟨_, _, _, .done (.ok _)⟩ => true
  | _ => false

/-- The attempt has returned. Where it has not, it failed or its process crashed. -/
abbrev Succeeded (n : ℕ) (c : Booking) : Prop := c.procs[n]?.any returned = true

/-- Attempts one after another, of which only the last succeeds. -/
inductive Retries (sha256 : String → String) : Booking → Booking → Prop
  | success {c c' : Booking} {n : ℕ} : r.Attempt sha256 c n c' → Succeeded n c' →
      Retries sha256 c c'
  | failure {c c' c'' : Booking} {n : ℕ} : r.Attempt sha256 c n c' → ¬ Succeeded n c' →
      Retries sha256 c' c'' → Retries sha256 c c''

/-! ## The rows between attempts -/

/-- The order can be issued under the key: it is not issued, its money is not held, the balance
covers it, and no other order has its key or its ticket. -/
structure Issuable (db : Database) : Prop where
  rows : At db r.agent r.order r.payment
  owner : r.order.agentId = r.agent.id
  notIssued : r.order.status ≠ .issued
  notHeld : ∀ t, r.payment = some t → t.status ≠ .held
  balance : r.order.amount ≤ r.agent.balance
  key : r.order.otherKey r.key = false
  orderKey : ∀ p ∈ db.orders, p.issueIdempotencyKey = some r.key → p.id = r.order.id
  paymentKey : ∀ t ∈ db.transactions, t.idempotencyKey = r.key → t.orderId = r.order.id
  ticketNumber : ∀ kept, r.ticket.kept = some kept →
    ∀ p ∈ db.orders, p.ticketNumber = some kept.ticketNumber → p.id = r.order.id

/-- What a coupled database makes of the rows at the start. -/
structure Fit : Prop where
  owner : r.order.agentId = r.agent.id
  status : r.order.status = .booked
  payment : ∀ t, r.payment = some t → t.status = .released ∧ t.amount = r.order.amount

inductive Stage
  /-- The next attempt takes the money. -/
  | ready
  | held
  | paid

def charged : Agent := { r.agent with balance := r.agent.balance + -r.order.amount }

/-- The transaction of the order; its id is new if the order had none. -/
def transaction (id : String) (s : PaymentStatus) : BalanceTransaction :=
  (r.payment.getD (newHold r.order r.key id)).withStatus s

/-- The rows that the attempts move through. -/
inductive Rows : Stage → Agent → Order → Option BalanceTransaction → Prop
  | untouched {t? : Option BalanceTransaction} : r.payment = t? →
      Rows .ready r.agent r.order t?
  | released (id : String) :
      Rows .ready r.agent (r.order.holding r.key).rebooked (some (r.transaction id .released))
  | held (id : String) :
      Rows .held r.charged (r.order.holding r.key) (some (r.transaction id .held))
  | paid (id : String) {kept : ProviderTicket} : r.ticket.kept = some kept →
      Rows .paid r.charged ((r.order.holding r.key).ticketed kept)
        (some (r.transaction id .captured))

section Rows

variable {r} {stage : Stage} {a : Agent} {o o' : Order} {t? : Option BalanceTransaction}
  {t' : BalanceTransaction} {es : List Event} {phase : Phase} {id : String} {s : PaymentStatus}

theorem transaction_amount (hf : r.Fit) : (r.transaction id s).amount = r.order.amount := by
  unfold transaction
  cases ht : r.payment with
  | none => rfl
  | some t => exact (hf.payment t ht).2

theorem Rows.ids (h : r.Rows stage a o t?) :
    a.id = r.agent.id ∧ o.id = r.order.id ∧ o.agentId = r.order.agentId ∧
      o.providerBookingId = r.order.providerBookingId := by
  cases h <;> exact ⟨rfl, rfl, rfl, rfl⟩

theorem Rows.not_issued (hf : r.Fit) (h : r.Rows stage a o t?) (hs : stage ≠ .paid) :
    o.status ≠ .issued := by
  cases h with
  | untouched => simp [hf.status]
  | released => simp [Order.rebooked]
  | held => simp [Order.holding]
  | paid => exact absurd rfl hs

theorem charged_eq : { r.agent with
    balance := r.agent.balance + ([Event.debited a.id o.id r.order.amount].map Event.delta).sum } =
      r.charged := by
  simp [charged, Event.delta]

theorem uncharged_eq (ht : t'.amount = r.order.amount) : { r.charged with
    balance := r.charged.balance + ([Event.refunded a.id o.id t'.amount].map Event.delta).sum } =
      r.agent := by
  simp [charged, Event.delta, ht]

theorem unmoved_eq (a : Agent) :
    { a with balance := a.balance + (([] : List Event).map Event.delta).sum } = a := by
  simp

theorem Rows.hold (hf : r.Fit) (h : r.Rows stage a o t?) (hs : stage ≠ .paid)
    (hm : Move (.hold r.key) a o t? o' t' es) :
    r.Rows .held { a with balance := a.balance + (es.map Event.delta).sum } o' (some t') := by
  cases h with
  | untouched ht =>
    cases hm with
    | @debit _ id =>
      have he : r.transaction id .held = newHold r.order r.key id := by
        simp only [transaction, ht]
        rfl
      rw [charged_eq, ← he]
      exact .held id
    | @debitAgain _ _ _ t =>
      have he : r.transaction t.id .held = t.withStatus .held := by
        simp only [transaction, ht]
        rfl
      rw [charged_eq, ← he]
      exact .held t.id
    | join _ _ hr => exact absurd (hf.payment _ ht).1 hr
  | released id =>
    cases hm with
    | debitAgain =>
      have hb := charged_eq (r := r) (a := r.agent) (o := r.order)
      exact hb ▸ .held id
    | join _ _ hr => exact absurd rfl hr
  | held id =>
    cases hm with
    | debitAgain _ _ _ hr => cases hr
    | join =>
      rw [unmoved_eq]
      exact .held id
  | paid => exact absurd rfl hs

theorem Rows.release (hf : r.Fit) (h : r.Rows .held a o t?)
    (hm : Move .release a o t? o' t' es) :
    r.Rows .ready { a with balance := a.balance + (es.map Event.delta).sum } o' (some t') := by
  cases h with
  | held id =>
    cases hm with
    | release =>
      rw [uncharged_eq (transaction_amount hf)]
      exact .released id

theorem Rows.capture {kept : ProviderTicket} (hk : r.ticket.kept = some kept)
    (h : r.Rows .held a o t?) (hm : Move (.capture kept) a o t? o' t' es) :
    r.Rows .paid { a with balance := a.balance + (es.map Event.delta).sum } o' (some t') := by
  cases h with
  | held id =>
    cases hm with
    | capture =>
      rw [unmoved_eq]
      exact .paid id hk

end Rows

/-! ## Steps of an attempt -/

/-- The stage that an attempt relies on in each of its phases. -/
def Expects (stage : Stage) (p : IssueOrder) : Prop :=
  match p.phase with
  | .requested | .done (.error _) => stage ≠ .paid
  | .held _ | .issuing _ | .refused _ => stage = .held
  | .ticketed ticket => stage = .held ∧ ticket = r.ticket
  | .done (.ok _) => stage = .paid

/-- The database has the rows of a stage. -/
def Stands (stage : Stage) (db : Database) : Prop := ∃ a o t?, r.Rows stage a o t? ∧ At db a o t?

/-- The rows are at a stage on which the attempt relies. -/
structure Step (db : Database) (stage : Stage) (p : IssueOrder) : Prop where
  rows : r.Stands stage db
  same : p = { r.request with phase := p.phase }
  expects : r.Expects stage p

section Steps

variable {r} {stage : Stage} {w w' : World} {p p' : IssueOrder}

theorem Expects.ne_paid (h : r.Expects stage p) (hd : ∀ result, p.phase ≠ .done (.ok result)) :
    stage ≠ .paid := by
  unfold Expects at h
  split at h
  · exact h
  · exact h
  · simp [h]
  · simp [h]
  · simp [h]
  · simp [h.1]
  · rename_i result hp
    exact absurd hp (hd result)

theorem Expects.returned_iff (h : r.Expects stage p) :
    returned (.inr p) = true ↔ stage = .paid := by
  obtain ⟨_, _, _, phase⟩ := p
  cases phase with
  | done result =>
    cases result with
    | error e => exact iff_of_false Bool.false_ne_true h
    | ok issued => exact iff_of_true rfl h
  | _ => exact iff_of_false Bool.false_ne_true (h.ne_paid fun _ => by simp)

/-- A step of the attempt takes the rows from stage to stage. -/
theorem step_of_issueStep (hf : r.Fit) (hc : OnePayment w.db) (h : IssueStep w p w' p')
    (hst : r.Step w.db stage p) (htk : ∀ ticket, p'.phase = .ticketed ticket → ticket = r.ticket) :
    ∃ stage', r.Step w'.db stage' p' := by
  obtain ⟨⟨a, o, t?, hrows, hat⟩, hsame, hexp⟩ := hst
  obtain ⟨hida, hido, hown, _⟩ := hrows.ids
  have hpa : p.agentId = a.id := by rw [hsame, hida]; rfl
  have hpo : p.orderId = o.id := by rw [hsame, hido]; rfl
  have hpk : p.idempotencyKey = r.key := by rw [hsame]; rfl
  have hne : stage ≠ .paid := hexp.ne_paid fun result => h.not_done _
  have hsame' : ∀ phase, { p with phase := phase } = { r.request with phase := phase } := by
    intro phase
    rw [hsame]
  cases h with
  | failed => exact ⟨stage, ⟨a, o, t?, hrows, hat⟩, hsame' _, hne⟩
  | found _ ho hid _ hs =>
    rw [hat.order_eq ho (hid.trans hpo)] at hs
    exact absurd hs (hrows.not_issued hf hne)
  | held hp ho hb hm =>
    rw [hpk] at hm
    obtain ⟨hmove, hat'⟩ := hm.at hc hat (ho.trans hpo) (hb.trans hpa)
    exact ⟨.held, ⟨_, _, _, hrows.hold hf hne hmove, hat'⟩, hsame' _, rfl⟩
  | called hp =>
    have hs : stage = .held := by simpa [Expects, hp] using hexp
    exact ⟨stage, ⟨a, o, t?, hrows, hat.agent, hat.order, hat.payment⟩, hsame' _, hs⟩
  | @answered _ ticket hp =>
    have hs : stage = .held := by simpa [Expects, hp] using hexp
    exact ⟨stage, ⟨a, o, t?, hrows, hat⟩, hsame' _, hs, htk ticket rfl⟩
  | raised hp =>
    have hs : stage = .held := by simpa [Expects, hp] using hexp
    exact ⟨stage, ⟨a, o, t?, hrows, hat⟩, hsame' _, hs⟩
  | unreleased => exact ⟨stage, ⟨a, o, t?, hrows, hat⟩, hsame' _, hne⟩
  | released hp ho hb hm =>
    obtain rfl : stage = .held := by simpa [Expects, hp] using hexp
    obtain ⟨hmove, hat'⟩ := hm.at hc hat (ho.trans hpo) (hb.trans hpa)
    exact ⟨.ready, ⟨_, _, _, hrows.release hf hmove, hat'⟩, hsame' _, Stage.noConfusion⟩
  | recaptured _ ho hid _ hs =>
    rw [hat.order_eq ho (hid.trans hpo)] at hs
    exact absurd hs (hrows.not_issued hf hne)
  | @captured ticket _ _ _ _ _ hp hk ho hb hm =>
    obtain ⟨rfl, rfl⟩ : stage = .held ∧ ticket = r.ticket := by simpa [Expects, hp] using hexp
    obtain ⟨hmove, hat'⟩ := hm.at hc hat (ho.trans hpo) (hb.trans hpa)
    exact ⟨.paid, ⟨_, _, _, hrows.capture hk hmove, hat'⟩, hsame' _, rfl⟩

end Steps

/-! ## Runs of an attempt -/

section Runs

variable {r} {sha256 : String → String} {c c' : Booking} {a : Action Request Choice} {n : ℕ}
  {running : Option ℕ} {stage : Stage} {p : IssueOrder} {w : World}

theorem stands_of_others (hf : r.Fit) (h : (booking sha256).machine.step c a = some c')
    (hg : r.alone running c a = true) (hne : ∀ i x, a = .advance i x → running ≠ some i)
    (hc : Sound c) (hs : r.Stands stage c.store.db) : r.Stands stage c'.store.db := by
  obtain ⟨b, o, t?, hrows, hat⟩ := hs
  obtain ⟨hidb, _, hown, _⟩ := hrows.ids
  refine ⟨b, o, t?, hrows, ?_⟩
  rcases effect_of_step h hc with ⟨q, rfl, rfl⟩ | ⟨i, x, q, _, rfl, hq, _, he, _, _⟩
  · exact hat
  · apply he.at hat (hown.trans (hf.owner.trans hidb.symm))
    simp only [alone, hq, Option.all_some, Bool.decide_or, Bool.decide_and, Bool.or_eq_true,
      Bool.and_eq_true, decide_eq_true_eq] at hg
    rcases hg with hg | ⟨hi, _⟩
    · rwa [hidb]
    · exact absurd hi (hne i x rfl)

theorem Step.providerBookingId (hs : r.Step w.db stage p) {b : String}
    (hv : Request.Valid w.db (.inr p)) (hp : p.phase = .issuing b) :
    b = r.order.providerBookingId := by
  obtain ⟨⟨a, o, t?, hrows, hat⟩, hsame, _⟩ := hs
  obtain ⟨_, hido, _, hb⟩ := hrows.ids
  obtain ⟨q, hq, hqid, _, _, hqb⟩ := (hv (by simp [IssueOrder.Active, hp])).order
  have hqo : q = o := hat.order_eq hq (by rw [hqid, hsame, hido]; rfl)
  rw [← hqb b (Or.inr hp), hqo, hb]

theorem Step.answer (hs : r.Step w.db stage p) {b : String} {ticket : ProviderTicket}
    (hv : Request.Valid w.db (.inr p)) (hp : p.phase = .issuing b)
    (hg : r.honest (.inr p) (.inr (.answer ticket)) = true) : ticket = r.ticket := by
  have hb := hs.providerBookingId hv hp
  have hsame := hs.same
  rw [hp] at hsame
  simp only [hsame, request, honest, decide_eq_true_eq] at hg
  rw [hg, hb]
  rfl

theorem own_step (hf : r.Fit) {x : Choice} {w' : World} {p' : Request}
    (h : (booking sha256).advance w (.inr p) x = some (w', p'))
    (hg : r.honest (.inr p) x = true) (hc : Coupled w.db) (hv : Request.Valid w.db (.inr p))
    (hs : r.Step w.db stage p) : ∃ stage' q, p' = .inr q ∧ r.Step w'.db stage' q := by
  rcases Program.sum_advance h with ⟨_, _, _, ⟨⟩, _⟩ | ⟨p₀, q, y, hp₀, rfl, rfl, ha⟩
  obtain rfl := Sum.inr.inj hp₀
  have hstep := IssueOrder.advance_step (hv.owns p rfl) ha
  have htk : ∀ ticket, q.phase = .ticketed ticket → ticket = r.ticket := by
    intro ticket ht
    obtain ⟨rfl, b, hb⟩ := IssueOrder.answer_of_ticketed ha ht
    exact hs.answer hv hb hg
  obtain ⟨stage', hs'⟩ := step_of_issueStep hf hc.onePayment hstep hs htk
  exact ⟨stage', q, rfl, hs'⟩

theorem attempt_step (hf : r.Fit) (h : (booking sha256).machine.step c a = some c')
    (hg : r.alone (some n) c a = true) (hc : Sound c) (hp : c.procs[n]? = some (.inr p))
    (hs : r.Step c.store.db stage p) :
    ∃ stage' p', c'.procs[n]? = some (.inr p') ∧ r.Step c'.store.db stage' p' := by
  have hlt : n < c.procs.length := (List.getElem?_eq_some_iff.mp hp).1
  cases a with
  | spawn q =>
    obtain ⟨_, rfl⟩ := Program.step_spawn_iff.mp h
    exact ⟨stage, p, (List.getElem?_append_left hlt).trans hp, hs⟩
  | advance i x =>
    by_cases hi : n = i
    · subst hi
      obtain ⟨q, s', q', hq, ha, rfl⟩ := Program.step_advance_iff.mp h
      obtain rfl : q = .inr p := Option.some.inj (hq.symm.trans hp)
      have hag : p.agentId = r.agent.id := by rw [hs.same]; rfl
      have hanswer : r.honest (.inr p) x = true := by
        simpa [alone, hp, Request.agentId, hag] using hg
      obtain ⟨stage', p', rfl, hs'⟩ :=
        own_step hf ha hanswer hc.1 (hc.2 _ (List.mem_of_getElem? hp)) hs
      exact ⟨stage', p', List.getElem?_set_self hlt, hs'⟩
    · have hother : ∀ j y, Action.advance (π := Request) i x = .advance j y → some n ≠ some j := by
        rintro _ _ ⟨⟩ he
        exact hi (Option.some.inj he)
      have hstands := stands_of_others hf h hg hother hc hs.rows
      obtain ⟨q, s', q', hq, ha, rfl⟩ := Program.step_advance_iff.mp h
      exact ⟨stage, p, (List.getElem?_set_ne (Ne.symm hi)).trans hp, hstands, hs.same, hs.expects⟩

/-- An attempt leaves the rows paid if it succeeds, and open for the next one if not. -/
theorem stands_of_attempt (hf : r.Fit) (h : r.Attempt sha256 c n c') (hc : Sound c)
    (hs : r.Stands stage c.store.db) (hne : stage ≠ .paid) :
    Sound c' ∧ ∃ stage', r.Stands stage' c'.store.db ∧ (Succeeded n c' ↔ stage' = .paid) := by
  obtain ⟨c₁, as, bs, hwait, rfl, hrun⟩ := h
  have hc₁ := sound_of_run hwait hc
  have hs₁ : r.Stands stage c₁.store.db := by
    refine (hwait.invariant (I := fun c => Sound c ∧ r.Stands stage c.store.db) ?_ ⟨hc, hs⟩).2
    rintro d a d' hg hst ⟨hd, hsd⟩
    exact ⟨sound_of_step hst hd, stands_of_others hf hst hg (by simp) hd hsd⟩
  have hfresh : (booking sha256).fresh (.inr r.request) = true := rfl
  have hspawn : (booking sha256).machine.step c₁ (.spawn (.inr r.request)) =
      some ⟨c₁.store, c₁.procs ++ [.inr r.request]⟩ := Program.step_spawn_iff.mpr ⟨hfresh, rfl⟩
  have hend := hrun.invariant (I := fun c => Sound c ∧ ∃ stage p,
    c.procs[c₁.procs.length]? = some (.inr p) ∧ r.Step c.store.db stage p) ?_
    ⟨sound_of_step hspawn hc₁, stage, r.request, by simp, hs₁, rfl, hne⟩
  · obtain ⟨hc', stage', p, hp, hst⟩ := hend
    refine ⟨hc', stage', hst.rows, ?_⟩
    rw [Succeeded, hp]
    exact hst.expects.returned_iff
  · rintro d a d' hg hst ⟨hd, stage, p, hp, hsd⟩
    obtain ⟨stage', p', hp', hsd'⟩ := attempt_step hf hst hg hd hp hsd
    exact ⟨sound_of_step hst hd, stage', p', hp', hsd'⟩

/-- Whatever the failures before, the attempt that succeeds leaves the order paid. -/
theorem stands_of_retries (hf : r.Fit) (h : r.Retries sha256 c c') (hc : Sound c)
    (hs : r.Stands stage c.store.db) (hne : stage ≠ .paid) : r.Stands .paid c'.store.db := by
  induction h generalizing stage with
  | success ha hsucc =>
    obtain ⟨_, stage', hs', hiff⟩ := stands_of_attempt hf ha hc hs hne
    rwa [hiff.mp hsucc] at hs'
  | failure ha hfail _ ih =>
    obtain ⟨hc', stage', hs', hiff⟩ := stands_of_attempt hf ha hc hs hne
    exact ih hc' hs' fun he => hfail (hiff.mpr he)

end Runs

/-! ## An attempt that succeeds -/

section Success

variable {r} {sha256 : String → String} {db : Database} {a : Agent} {o : Order}
  {t? : Option BalanceTransaction} {t : BalanceTransaction} {c : Booking} {n : ℕ}
  {p p' : IssueOrder} {w' : World}

theorem Issuable.fit (h : r.Issuable db) (hc : Coupled db) : r.Fit := by
  have hst := hc.standing r.order h.rows.order
  rw [h.rows.payment] at hst
  have hnh : r.payment.map (·.status) ≠ some .held := by
    intro he
    obtain ⟨t, ht, hs⟩ := Option.map_eq_some_iff.mp he
    exact h.notHeld t ht hs
  obtain ⟨hb, hrel⟩ := booked_of_pairing hst.status h.notIssued hnh
  refine ⟨h.owner, hb, fun t ht => ⟨hrel t.status ?_, (hst.payment t ht).1⟩⟩
  rw [ht]
  rfl

theorem Issuable.exists_hold (h : r.Issuable db) {transactionId : String}
    (hid : ∀ u ∈ db.transactions, u.id ≠ transactionId) :
    ∃ debit db', issueOrderHold db r.agent.id r.order.id r.key transactionId =
      .ok (.held r.order.providerBookingId debit, db') := by
  have hw : holdWrites r.order r.agent r.payment r.key = true :=
    holdWrites_iff.mpr ⟨h.notIssued, h.key, Or.inr h.balance⟩
  refine h.rows.exists_hold h.owner hw hid (keyFree_iff.mpr ⟨h.orderKey, fun hn u hu he => ?_⟩)
  exact transactionOf_eq_none.mp (h.rows.payment.trans hn) u hu (h.paymentKey u hu he)

theorem exists_own_step (r : Retry) (sha256 : String → String) {x : IssueChoice}
    (hp : c.procs[n]? = some (.inr p)) (h : p.advance c.store x = some (w', p'))
    (hx : r.honest (.inr p) (.inr x) = true) :
    ∃ c', (booking sha256).machine.step c (.advance n (.inr x)) = some c' ∧
      r.alone (some n) c (.advance n (.inr x)) = true ∧ c'.store = w' ∧
      c'.procs[n]? = some (.inr p') := by
  have hlt : n < c.procs.length := (List.getElem?_eq_some_iff.mp hp).1
  have ha : (booking sha256).advance c.store (.inr p) (.inr x) = some (w', .inr p') := by
    simp [booking, Program.sum, IssueOrder.program, h]
  exact ⟨_, Program.step_advance_iff.mpr ⟨_, _, _, hp, ha, rfl⟩, by simp [alone, hp, hx], rfl,
    List.getElem?_set_self hlt⟩

theorem exists_fresh (l : List String) : ∃ s, s ∉ l := by
  obtain ⟨s, hs⟩ := Infinite.exists_notMem_finset l.toFinset
  exact ⟨s, by simpa using hs⟩

theorem Issuable.exists_blocks (h : r.Issuable db) {kept : ProviderTicket}
    (hk : r.ticket.kept = some kept) (h₁ : OnePayment db) :
    ∃ transactionId debit db₁ result db₂,
      issueOrderHold db r.agent.id r.order.id r.key transactionId =
        .ok (.held r.order.providerBookingId debit, db₁) ∧
      issueOrderCapture db₁ r.agent.id r.order.id r.key r.ticket 0 = .ok (result, db₂) := by
  obtain ⟨transactionId, hnew⟩ := exists_fresh (db.transactions.rows.map (·.id))
  have hid : ∀ u ∈ db.transactions, u.id ≠ transactionId := by
    rintro u hu rfl
    exact hnew (List.mem_map_of_mem hu)
  obtain ⟨debit, db₁, hhold⟩ := h.exists_hold hid
  obtain ⟨t, _, _, hm⟩ := h.rows.hold_moved h.notIssued hhold
  obtain ⟨_, hat⟩ := hm.at h₁ h.rows rfl rfl
  have htk : ∀ p ∈ db₁.orders, p.ticketNumber = some kept.ticketNumber →
      p.id = r.order.id := by
    intro p hp hpt
    rcases hm.mem_orders.mp hp with rfl | ⟨hp, _⟩
    · rfl
    · exact h.ticketNumber kept hk p hp hpt
  obtain ⟨result, db₂, hcap⟩ := hat.exists_capture r.key 0 h.owner
    (by simp [Order.holding]) hk htk
  exact ⟨transactionId, debit, db₁, result, db₂, hhold, hcap⟩

/-- From a state in which the order can be issued, one attempt can succeed. -/
theorem Issuable.exists_attempt (h : r.Issuable c.store.db) {kept : ProviderTicket}
    (hk : r.ticket.kept = some kept) (hc : Sound c) :
    ∃ n c', r.Attempt sha256 c n c' ∧ Succeeded n c' := by
  obtain ⟨transactionId, debit, db₁, result, db₂, hhold, hcap⟩ :=
    h.exists_blocks hk hc.1.onePayment
  -- Hold, call, answer and capture, each from the request that the step before left.
  have hadv₁ : r.request.advance c.store (.hold transactionId) = some
      (c.store.commit db₁ (debit.toList.map (.debited r.agent.id r.order.id)),
      { r.request with phase := .held r.order.providerBookingId }) := by
    simp only [IssueOrder.advance, request, hhold]
  obtain ⟨c₁, hs₁, hg₁, hw₁, hp₁⟩ := exists_own_step r sha256 (n := c.procs.length)
    (c := ⟨c.store, c.procs ++ [.inr r.request]⟩) (by simp) hadv₁ rfl
  have hadv₂ : ({ r.request with phase := .held r.order.providerBookingId } : IssueOrder).advance
      c₁.store .call =
      some (c₁.store.called (.issueCalled r.order.id r.order.providerBookingId r.key),
        { r.request with phase := .issuing r.order.providerBookingId }) := rfl
  obtain ⟨c₂, hs₂, hg₂, hw₂, hp₂⟩ := exists_own_step r sha256 hp₁ hadv₂ rfl
  have hadv₃ : ({ r.request with phase := .issuing r.order.providerBookingId } :
      IssueOrder).advance c₂.store (.answer r.ticket) =
      some (c₂.store, { r.request with phase := .ticketed r.ticket }) := rfl
  obtain ⟨c₃, hs₃, hg₃, hw₃, hp₃⟩ := exists_own_step r sha256 hp₂ hadv₃
    (by simp [honest, ticket, request])
  have hdb : c₃.store.db = db₁ := by
    rw [hw₃, hw₂, hw₁]
    rfl
  have hadv₄ : ({ r.request with phase := .ticketed r.ticket } : IssueOrder).advance c₃.store
      (.capture 0) = some (c₃.store.commit db₂ [], r.request.finish (.ok result)) := by
    simp only [IssueOrder.advance, hdb, request, hcap]
    rfl
  obtain ⟨c₄, hs₄, hg₄, -, hp₄⟩ := exists_own_step r sha256 hp₃ hadv₄ rfl
  have hrun := Machine.RunWhere.cons (G := fun c a => r.alone _ c a = true) hg₁ hs₁
    (.cons hg₂ hs₂ (.cons hg₃ hs₃ (.cons hg₄ hs₄ (.nil c₄))))
  exact ⟨c.procs.length, c₄, ⟨c, [], _, .nil c, rfl, hrun⟩, by rw [Succeeded, hp₄]; rfl⟩

end Success

/-! ## The outcome -/

/-- The same balance, the same order and the same transaction, but for the id of a new one. -/
structure SameOutcome (db db' : Database) : Prop where
  agent : ∃ a, db.agent? r.agent.id = some a ∧ db'.agent? r.agent.id = some a
  order : ∃ o, db.order? r.order.id = some o ∧ db'.order? r.order.id = some o
  payment : ∃ t t', db.transactionOf r.order.id = some t ∧
    db'.transactionOf r.order.id = some t' ∧ t' = { t with id := t'.id } ∧
    (r.payment.isSome → t'.id = t.id)

section Outcome

variable {r} {sha256 : String → String} {db db' : Database} {w : World} {c c' : Booking}
  {as : List (Action Request Choice)}

theorem transaction_id (id id' : String) (s : PaymentStatus) :
    r.transaction id' s = { r.transaction id s with id := (r.transaction id' s).id } ∧
      (r.payment.isSome → (r.transaction id' s).id = (r.transaction id s).id) := by
  unfold transaction
  cases r.payment with
  | none => exact ⟨rfl, by simp⟩
  | some t => exact ⟨rfl, fun _ => rfl⟩

theorem Stands.kept (h : r.Stands .paid db) : ∃ kept, r.ticket.kept = some kept := by
  obtain ⟨_, _, _, hrows, _⟩ := h
  cases hrows with
  | paid _ hk => exact ⟨_, hk⟩

theorem sameOutcome_of_paid (h : r.Stands .paid db) (h' : r.Stands .paid db') :
    r.SameOutcome db db' := by
  obtain ⟨a, o, t?, hrows, hat⟩ := h
  obtain ⟨a', o', t?', hrows', hat'⟩ := h'
  cases hrows with
  | paid id hk =>
    cases hrows' with
    | paid id' hk' =>
      obtain rfl := Option.some.inj (hk.symm.trans hk')
      obtain ⟨ht, hid⟩ := transaction_id (r := r) id id' .captured
      exact ⟨⟨_, Database.agent?_eq_some.mpr ⟨hat.agent, rfl⟩,
          Database.agent?_eq_some.mpr ⟨hat'.agent, rfl⟩⟩,
        ⟨_, Database.order?_eq_some.mpr ⟨hat.order, rfl⟩,
          Database.order?_eq_some.mpr ⟨hat'.order, rfl⟩⟩,
        ⟨_, _, hat.payment, hat'.payment, ht, hid⟩⟩

/-- Any sequence of failed attempts followed by a success leaves what a single success leaves,
and a single attempt can succeed. -/
theorem retry_equivalent (hu : Unpaid w.db)
    (hrun : (booking sha256).machine.Run (Program.start w) as c) (hi : r.Issuable c.store.db)
    (h : r.Retries sha256 c c') :
    (∃ n c₁, r.Attempt sha256 c n c₁ ∧ Succeeded n c₁) ∧
    ∀ n c₁, r.Attempt sha256 c n c₁ → Succeeded n c₁ →
      r.SameOutcome c₁.store.db c'.store.db := by
  have hc := sound_of_run hrun (sound_start hu.coupled)
  have hf := hi.fit hc.1
  have hs : r.Stands .ready c.store.db := ⟨_, _, _, .untouched rfl, hi.rows⟩
  have hend := stands_of_retries hf h hc hs Stage.noConfusion
  obtain ⟨_, hk⟩ := hend.kept
  refine ⟨hi.exists_attempt hk hc, fun n c₁ ha hsucc => ?_⟩
  exact sameOutcome_of_paid (stands_of_retries hf (.success ha hsucc) hc hs Stage.noConfusion) hend

end Outcome

end Retry

/-! ## A timeout, a crash and a success -/

def Example.retry : Retry where
  agent := Example.agent
  order := newOrder "order" "agent" Example.payload Example.offer Example.providerBooking
  payment := none
  key := "key"
  tickets _ _ := Example.ticket

theorem Example.issuable_retry : Example.retry.Issuable Example.booked.db where
  rows := ⟨List.mem_singleton.mpr rfl, List.mem_singleton.mpr rfl, rfl⟩
  owner := rfl
  notIssued := by decide
  notHeld := by simp [Example.retry]
  balance := by decide
  key := rfl
  orderKey p hp hk := by
    rw [List.mem_singleton.mp hp] at hk
    cases hk
  paymentKey t ht := absurd ht (by simp [booked, offered, Table.mem_def, Table.empty])
  ticketNumber _ _ p hp hk := by
    rw [List.mem_singleton.mp hp] at hk
    cases hk

namespace Retry

/-- Run an attempt with no other request in between. -/
def attempt (r : Retry) (c : Booking) (xs : List IssueChoice) : Option Booking :=
  (booking id).machine.execWhere (fun d a => r.alone (some c.procs.length) d a)
    ⟨c.store, c.procs ++ [.inr r.request]⟩ (xs.map fun x => .advance c.procs.length (.inr x))

theorem attempt_of_exec {r : Retry} {c c' : Booking} {xs : List IssueChoice}
    (h : r.attempt c xs = some c') : r.Attempt id c c.procs.length c' :=
  ⟨c, [], _, .nil c, rfl, Machine.runWhere_of_execWhere h⟩

/-- The first attempt times out, the second crashes with its ticket, the third succeeds. -/
theorem retry_equivalent_timeout_crash :
    ∃ c c', Example.retry.Retries id (Program.start Example.booked) c' ∧
      Example.retry.Attempt id (Program.start Example.booked) 0 c ∧ Succeeded 0 c ∧
      Example.retry.SameOutcome c.store.db c'.store.db := by
  have hsingle : (Example.retry.attempt (Program.start Example.booked)
      [.hold "transaction", .call, .answer Example.ticket, .capture 5]).map
        (fun c => c.procs[0]?.any returned) = some true := by decide
  have hretries : ((Example.retry.attempt (Program.start Example.booked)
      [.hold "transaction", .call, .raise ⟨"", "TimeoutError", true⟩, .release]).bind fun c₁ =>
      (Example.retry.attempt c₁ [.hold "unused", .call, .answer Example.ticket]).bind fun c₂ =>
      (Example.retry.attempt c₂ [.hold "unused", .call, .answer Example.ticket, .capture 5]).map
        fun c₃ => (c₁.procs[0]?.any returned, c₂.procs[c₁.procs.length]?.any returned,
          c₃.procs[c₂.procs.length]?.any returned)) = some (false, false, true) := by decide
  obtain ⟨c, hc, hs⟩ := Option.map_eq_some_iff.mp hsingle
  obtain ⟨c₁, h₁, hretries⟩ := Option.bind_eq_some_iff.mp hretries
  obtain ⟨c₂, h₂, hretries⟩ := Option.bind_eq_some_iff.mp hretries
  obtain ⟨c₃, h₃, hends⟩ := Option.map_eq_some_iff.mp hretries
  simp only [Prod.mk.injEq] at hends
  have hretry : Example.retry.Retries id (Program.start Example.booked) c₃ :=
    .failure (attempt_of_exec h₁) (Bool.eq_false_iff.mp hends.1)
      (.failure (attempt_of_exec h₂) (Bool.eq_false_iff.mp hends.2.1)
        (.success (attempt_of_exec h₃) hends.2.2))
  exact ⟨c, c₃, hretry, attempt_of_exec hc, hs,
    (retry_equivalent Example.unpaid_booked (.nil _) Example.issuable_retry hretry).2 0 c
      (attempt_of_exec hc) hs⟩

end Retry

end Ioka
