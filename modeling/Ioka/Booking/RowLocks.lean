import Ioka.Booking.Coupling
import Ioka.Transition.Waiting

/-! # Session blocks statement by statement

Each block of `issue_order` and `_release_hold` locks and reads its order, then
its agent, then the payment of the order, and ends with a commit or a rollback.
A read waits while another session holds the row. Any interleaving of the
statements has the effect of the whole blocks one after another in the order in
which they end, because the lock of the order covers the payment as well, even
where no payment exists yet.
-/

namespace Ioka

open Relational Transition

/-! ## Blocks -/

/-- A session block with its arguments. -/
inductive Block
  | hold (agentId orderId key transactionId : String)
  | capture (agentId orderId key : String) (ticket : ProviderTicket) (durationMs : ℤ)
  | release (agentId orderId error : String)

inductive Outcome
  | hold (result : HoldResult)
  | capture (issued : Issued)
  | release (refund : Option Money)

/-- The rows that a session has read so far. -/
structure Reads where
  order : Option Order
  agent : Option Agent
  payment : Option BalanceTransaction

namespace Block

def agentId : Block → String
  | .hold agentId .. | .capture agentId .. | .release agentId .. => agentId

def orderId : Block → String
  | .hold _ orderId .. | .capture _ orderId .. | .release _ orderId _ => orderId

/-- The row that the first statement matches. -/
def order? (b : Block) (db : Database) : Option Order :=
  match b with
  | .release _ orderId _ => db.order? orderId
  | b => agentOrder db b.agentId b.orderId

/-- What a block does with the rows that it has read. -/
def act (b : Block) (r : Reads) (db : Database) : Except Failure (Outcome × Database) :=
  match b with
  | .hold _ _ key transactionId =>
    match r.order, r.agent with
    | none, _ => .error (.notFound "Order not found")
    | some _, none => .error (.notFound "Agent not found")
    | some order, some agent =>
      (holdRows db order agent r.payment key transactionId).map (Prod.map .hold id)
  | .capture _ _ key ticket durationMs =>
    match r.order, r.agent, r.payment with
    | some order, some agent, some transaction =>
      (captureRows db order agent transaction key ticket durationMs).map (Prod.map .capture id)
    | _, _, _ => .error (.notFound "Issue state not found")
  | .release _ _ error =>
    match r.order, r.agent, r.payment with
    | some order, some agent, some transaction =>
      (releaseRows db order agent transaction error).map fun x => (.release x.2, x.1)
    | _, _, _ => .ok (.release none, db)

/-- The block as one atomic step. -/
def run (b : Block) (db : Database) : Except Failure (Outcome × Database) :=
  match b with
  | .hold agentId orderId key transactionId =>
    (issueOrderHold db agentId orderId key transactionId).map (Prod.map .hold id)
  | .capture agentId orderId key ticket durationMs =>
    (issueOrderCapture db agentId orderId key ticket durationMs).map (Prod.map .capture id)
  | .release agentId orderId error =>
    (releaseHold db agentId orderId error).map fun x => (.release x.2, x.1)

end Block

/-- The reads that decide what a block does: without the order no other row counts, and
without the agent no payment. -/
def Reads.acted (r : Reads) : Reads :=
  match r.order, r.agent with
  | none, _ => ⟨none, none, none⟩
  | some order, none => ⟨some order, none, none⟩
  | some order, some agent => ⟨some order, some agent, r.payment⟩

/-- The reads of a block that runs atomically. -/
def Block.reads (b : Block) (db : Database) : Reads :=
  Reads.acted ⟨b.order? db, db.agent? b.agentId, db.transactionOf b.orderId⟩

/-- A block that has ended, with what it acted on and how it ended. -/
structure Entry where
  block : Block
  reads : Reads
  outcome : Except Failure Outcome

namespace Block

def entry (b : Block) (db : Database) : Entry := ⟨b, b.reads db, (b.run db).map Prod.fst⟩

/-- The database after an atomic block; an error rolls back. -/
def after (b : Block) (db : Database) : Database :=
  match b.run db with
  | .ok (_, db') => db'
  | .error _ => db

/-- Blocks one after another. -/
def serial (db : Database) : List Block → List Entry × Database
  | [] => ([], db)
  | b :: bs => ((b.entry db) :: (serial (b.after db) bs).1, (serial (b.after db) bs).2)

end Block

/-! ## Sessions -/

inductive Row
  | order (id : String)
  | agent (id : String)
  | payment (id : String)
  deriving DecidableEq

def Row.rank : Row → ℕ
  | .order _ => 0
  | .agent _ => 1
  | .payment _ => 2

def Reads.rows (r : Reads) : List Row :=
  r.order.toList.map (.order ·.id) ++ r.agent.toList.map (.agent ·.id) ++
    r.payment.toList.map (.payment ·.id)

inductive Statement
  | lockOrder
  | lockAgent
  | lockPayment
  /-- Write, and commit or roll back. -/
  | finish

/-- How many reads a session has behind it. -/
inductive Stage
  | begun
  | ordered
  | agented
  | read
  | ended

structure Session where
  block : Block
  stage : Stage
  reads : Reads

namespace Session

/-- The next statement. A hold raises at the first row that it misses. -/
def statement? (s : Session) : Option Statement :=
  match s.stage, s.block, s.reads with
  | .begun, _, _ => some .lockOrder
  | .ordered, .hold .., ⟨none, _, _⟩ => some .finish
  | .ordered, _, _ => some .lockAgent
  | .agented, .hold .., ⟨_, none, _⟩ => some .finish
  | .agented, _, _ => some .lockPayment
  | .read, _, _ => some .finish
  | .ended, _, _ => none

/-- The rows whose locks the session holds. -/
def holds (s : Session) : List Row :=
  match s.stage with
  | .ended => []
  | _ => s.reads.rows

/-- The row that the next statement matches and has to lock. -/
def wants (s : Session) (db : Database) : Option Row :=
  match s.statement? with
  | some .lockOrder => (s.block.order? db).map (.order ·.id)
  | some .lockAgent => (db.agent? s.block.agentId).map (.agent ·.id)
  | some .lockPayment => (db.transactionOf s.block.orderId).map (.payment ·.id)
  | _ => none

/-- The next statement, with its reads from the committed rows. -/
def advance (s : Session) (db : Database) : Option (Session × Database × List Entry) :=
  s.statement?.map fun
    | .lockOrder =>
      ({ s with stage := .ordered, reads := { s.reads with order := s.block.order? db } }, db, [])
    | .lockAgent =>
      ({ s with stage := .agented, reads := { s.reads with agent := db.agent? s.block.agentId } },
        db, [])
    | .lockPayment =>
      ({ s with stage := .read,
                reads := { s.reads with payment := db.transactionOf s.block.orderId } }, db, [])
    | .finish =>
      match s.block.act s.reads db with
      | .ok (outcome, db') =>
        ({ s with stage := .ended }, db', [⟨s.block, s.reads.acted, .ok outcome⟩])
      | .error e => ({ s with stage := .ended }, db, [⟨s.block, s.reads.acted, .error e⟩])

end Session

/-- The committed database, the sessions, and the blocks that ended, oldest first. -/
structure Locking where
  db : Database
  sessions : List Session
  log : List Entry

inductive LockAction
  | begin (b : Block)
  | statement (i : ℕ)

namespace Locking

/-- Another session holds the row. -/
def heldByOther (c : Locking) (i : ℕ) (row : Row) : Bool :=
  (List.range c.sessions.length).any fun j =>
    j ≠ i ∧ (c.sessions[j]?.map fun t => decide (row ∈ t.holds)) = some true

/-- Any interleaving of the statements of any blocks. -/
def machine : Machine Locking LockAction where
  step c
    | .begin b => some { c with sessions := c.sessions ++ [⟨b, .begun, ⟨none, none, none⟩⟩] }
    | .statement i => c.sessions[i]?.bind fun s =>
      if ((s.wants c.db).map (c.heldByOther i)) = some true then none
      else (s.advance c.db).map fun r => ⟨r.2.1, c.sessions.set i r.1, c.log ++ r.2.2⟩

def start (db : Database) : Locking := ⟨db, [], []⟩

def claims (c : Locking) : Claims ℕ Row where
  holds i := { row | ∃ s, c.sessions[i]? = some s ∧ row ∈ s.holds }
  wants i := c.sessions[i]?.bind (·.wants c.db)

end Locking

/-! ## Atomic blocks -/

section Blocks

variable {b : Block} {db db' : Database} {bs : List Block} {r : Reads} {out : Outcome}

theorem Block.id_of_order? {o : Order} (h : b.order? db = some o) : o.id = b.orderId := by
  cases b with
  | hold => exact (agentOrder_eq_some.mp h).2.1
  | capture => exact (agentOrder_eq_some.mp h).2.1
  | release => exact (Database.order?_eq_some.mp h).2

theorem Block.act_acted : b.act r.acted db = b.act r db := by
  obtain ⟨_ | o, _ | a, t⟩ := r <;> cases b <;> rfl

/-- An atomic block does what it does with its own reads. -/
theorem Block.run_eq_act : b.run db = b.act (b.reads db) db := by
  rw [reads, act_acted]
  cases b with
  | hold agentId orderId key transactionId =>
    simp only [run, act, order?, Block.agentId, Block.orderId, issueOrderHold]
    cases ho : agentOrder db agentId orderId with
    | none => rfl
    | some o =>
      obtain ⟨_, rfl, _⟩ := agentOrder_eq_some.mp ho
      cases db.agent? agentId <;> rfl
  | capture agentId orderId key ticket durationMs =>
    simp only [run, act, order?, Block.agentId, Block.orderId, issueOrderCapture]
    cases agentOrder db agentId orderId <;> cases db.agent? agentId <;>
      cases db.transactionOf orderId <;> rfl
  | release agentId orderId error =>
    simp only [run, act, order?, Block.agentId, Block.orderId, releaseHold]
    cases db.order? orderId <;> cases db.agent? agentId <;>
      cases db.transactionOf orderId <;> rfl

theorem map_eq_ok {ε α β : Type} {x : Except ε α} {f : α → β} {y : β} :
    x.map f = .ok y ↔ ∃ a, x = .ok a ∧ f a = y := by
  cases x <;> simp [Except.map]

theorem Block.run_written (h : b.run db = .ok (out, db')) :
    db' = db ∨ ∃ o a o' t? t' delta, b.order? db = some o ∧ db.agent? b.agentId = some a ∧
      Written db db' a o o' t? t' delta := by
  cases b with
  | hold agentId orderId key transactionId =>
    obtain ⟨⟨res, db₁⟩, hr, he⟩ := map_eq_ok.mp h
    cases he
    obtain ⟨o, a, ho, hid, haid, hown, ⟨_, _, hdb⟩ | ⟨t', _, _, hm⟩⟩ := issueOrderHold_ok hr
    · exact Or.inl hdb
    · exact Or.inr ⟨o, a, _, _, _, _, agentOrder_eq_some.mpr ⟨ho, hid, hown⟩,
        Database.agent?_eq_some.mpr ⟨hm.agent_mem, haid⟩, hm.toWritten⟩
  | capture agentId orderId key ticket durationMs =>
    obtain ⟨⟨res, db₁⟩, hr, he⟩ := map_eq_ok.mp h
    cases he
    obtain ⟨o, a, t, ho, hid, haid, hown, _, ⟨_, _, hdb⟩ | ⟨_, _, _, hm⟩⟩ := issueOrderCapture_ok hr
    · exact Or.inl hdb
    · exact Or.inr ⟨o, a, _, _, _, _, agentOrder_eq_some.mpr ⟨ho, hid, hown⟩,
        Database.agent?_eq_some.mpr ⟨hm.agent_mem, haid⟩, hm.toWritten⟩
  | release agentId orderId error =>
    obtain ⟨⟨db₁, refund⟩, hr, he⟩ := map_eq_ok.mp h
    cases he
    unfold releaseHold at hr
    split at hr
    · rename_i o a t ho ha ht
      obtain ⟨hmo, rfl⟩ := Database.order?_eq_some.mp ho
      obtain ⟨hma, rfl⟩ := Database.agent?_eq_some.mp ha
      rcases releaseRows_written hmo hma ht hr with ⟨_, hdb, _⟩ | ⟨_, _, hw⟩
      · exact Or.inl hdb
      · exact Or.inr ⟨o, a, _, _, _, _, ho, ha, hw⟩
    · cases hr
      exact Or.inl rfl

theorem Block.after_onePayment (h : OnePayment db) : OnePayment (b.after db) := by
  unfold after
  split
  · rename_i out db' hr
    rcases run_written hr with rfl | ⟨_, _, _, _, _, _, _, _, hw⟩
    · exact h
    · exact hw.onePayment h
  · exact h

theorem Block.serial_append : serial db (bs ++ [b]) =
    ((serial db bs).1 ++ [b.entry (serial db bs).2], b.after (serial db bs).2) := by
  induction bs generalizing db with
  | nil => rfl
  | cons c bs ih => simp only [List.cons_append, serial, ih]

end Blocks

/-! ## Commits of other sessions -/

section Others

variable {db db' : Database} {a : Agent} {o o' : Order} {t? : Option BalanceTransaction}
  {t' : BalanceTransaction} {delta : Money} {b : Block} {id : String}

theorem Written.order?_of_ne (h : Written db db' a o o' t? t' delta) (hne : b.orderId ≠ o.id) :
    b.order? db' = b.order? db := by
  have hfalse : ∀ p ∈ db.orders.rows, decide (p.id = o.id) = true →
      p.id ≠ b.orderId ∧ o'.id ≠ b.orderId := by
    intro p _ hp
    have hpo : p.id = o.id := by simpa using hp
    exact ⟨fun hb => hne (hb.symm.trans hpo), fun hb => hne (hb.symm.trans h.id)⟩
  cases b <;>
    · simp only [Block.order?, agentOrder, Database.order?, Table.select, Block.orderId,
        Block.agentId, h.orders] at hfalse ⊢
      apply find?_amend
      intro p hp hpo
      simp [hfalse p hp hpo]

theorem Written.order?_of_none (h : Written db db' a o o' t? t' delta)
    (hn : b.order? db = none) : b.order? db' = none := by
  have hsame : ∀ p ∈ db.orders.rows, decide (p.id = o.id) = true →
      o'.id = p.id ∧ o'.agentId = p.agentId := by
    intro p hp hpo
    obtain rfl := Database.order_ext hp h.order_mem (by simpa using hpo)
    exact ⟨h.id, h.agentId⟩
  cases b <;>
    · simp only [Block.order?, agentOrder, Database.order?, Table.select, h.orders] at hn ⊢
      refine find?_amend_eq_none ?_ hn
      intro p hp hpo
      simp [hsame p hp hpo]

theorem Written.agent?_of_ne (h : Written db db' a o o' t? t' delta) (hne : id ≠ a.id) :
    db'.agent? id = db.agent? id := by
  simp only [Database.agent?, Table.select, h.agents]
  apply find?_amend
  intro b _ hb
  have hba : b.id = a.id := by simpa using hb
  simp [hba, hne.symm]

theorem Written.agent?_of_none (h : Written db db' a o o' t? t' delta)
    (hn : db.agent? id = none) : db'.agent? id = none := by
  simp only [Database.agent?, Table.select, h.agents] at hn ⊢
  refine find?_amend_eq_none ?_ hn
  intro b _ _
  rfl

end Others

/-! ## The invariant -/

/-- What a session has read is still what is committed. -/
def Session.Current (db : Database) (s : Session) : Prop :=
  match s.stage with
  | .begun => s.reads = ⟨none, none, none⟩
  | .ordered => s.reads = ⟨s.block.order? db, none, none⟩
  | .agented => s.reads = ⟨s.block.order? db, db.agent? s.block.agentId, none⟩
  | .read => s.reads.order = s.block.order? db ∧ s.reads.agent = db.agent? s.block.agentId ∧
      ((s.block.order? db).isSome → s.reads.payment = db.transactionOf s.block.orderId)
  | .ended => True

/-- The reads of every session are current, no row is held twice, and the blocks that ended
ran as if one after another. -/
structure Locking.Sound (db₀ : Database) (c : Locking) : Prop where
  serial : Block.serial db₀ (c.log.map (·.block)) = (c.log, c.db)
  current : ∀ s ∈ c.sessions, s.Current c.db
  exclusive : ∀ (i j : ℕ) (s t : Session) (row : Row), i ≠ j → c.sessions[i]? = some s →
    c.sessions[j]? = some t → row ∈ s.holds → row ∉ t.holds

namespace Session

variable {s s' : Session} {db db' : Database} {a : Agent} {o o' : Order}
  {t? : Option BalanceTransaction} {t' : BalanceTransaction} {delta : Money} {row : Row}
  {es : List Entry}

theorem mem_rows {r : Reads} : row ∈ r.rows ↔ (∃ o, r.order = some o ∧ .order o.id = row) ∨
    (∃ a, r.agent = some a ∧ .agent a.id = row) ∨
    ∃ t, r.payment = some t ∧ .payment t.id = row := by
  simp [Reads.rows]

theorem mem_holds : row ∈ s.holds ↔ s.stage ≠ .ended ∧ row ∈ s.reads.rows := by
  unfold holds
  split
  · rename_i hs
    simp [hs]
  · rename_i hs
    exact (and_iff_right hs).symm

theorem order_mem_holds (hs : s.stage ≠ .ended) (ho : s.reads.order = some o) :
    .order o.id ∈ s.holds :=
  mem_holds.mpr ⟨hs, mem_rows.mpr (Or.inl ⟨o, ho, rfl⟩)⟩

theorem agent_mem_holds (hs : s.stage ≠ .ended) (ha : s.reads.agent = some a) :
    .agent a.id ∈ s.holds :=
  mem_holds.mpr ⟨hs, mem_rows.mpr (Or.inr (Or.inl ⟨a, ha, rfl⟩))⟩

theorem not_ended {st : Statement} (h : s.statement? = some st) : s.stage ≠ .ended := by
  intro he
  obtain ⟨b, stage, r⟩ := s
  obtain rfl : stage = .ended := he
  cases h

/-- A commit of another session leaves the reads of a session current. -/
theorem Current.mono (hc : s.Current db) (hw : Written db db' a o o' t? t' delta)
    (ho : .order o.id ∉ s.holds) (ha : .agent a.id ∉ s.holds) : s.Current db' := by
  by_cases hend : s.stage = .ended
  · simp [Current, hend]
  have horder : s.reads.order = s.block.order? db →
      s.block.order? db' = s.block.order? db := by
    intro hr
    cases hq : s.block.order? db with
    | none => exact hw.order?_of_none hq
    | some q =>
      rw [← hq]
      apply hw.order?_of_ne
      intro hid
      have hm := order_mem_holds hend (hr.trans hq)
      rw [Block.id_of_order? hq, hid] at hm
      exact ho hm
  have hagent : s.reads.agent = db.agent? s.block.agentId →
      db'.agent? s.block.agentId = db.agent? s.block.agentId := by
    intro hr
    cases hq : db.agent? s.block.agentId with
    | none => exact hw.agent?_of_none hq
    | some q =>
      rw [← hq]
      apply hw.agent?_of_ne
      intro hid
      have hm := agent_mem_holds hend (hr.trans hq)
      rw [(Database.agent?_eq_some.mp hq).2, hid] at hm
      exact ha hm
  unfold Current at hc ⊢
  split at hc
  · exact hc
  · rw [horder (by rw [hc]), hc]
  · rw [horder (by rw [hc]), hagent (by rw [hc]), hc]
  · obtain ⟨hr, hra, hp⟩ := hc
    rw [horder hr, hagent hra]
    refine ⟨hr, hra, fun hsome => ?_⟩
    obtain ⟨q, hq⟩ := Option.isSome_iff_exists.mp hsome
    have hne : s.block.orderId ≠ o.id := by
      intro hid
      have hm := order_mem_holds hend (hr.trans hq)
      rw [Block.id_of_order? hq, hid] at hm
      exact ho hm
    rw [hp hsome, hw.transactionOf_of_ne hne]
  · trivial

theorem Current.acted (hc : s.Current db) (hf : s.statement? = some .finish) :
    s.reads.acted = s.block.reads db := by
  obtain ⟨b, stage, ro, ra, rp⟩ := s
  cases stage with
  | begun => cases hf
  | ended => cases hf
  | ordered =>
    cases b with
    | hold =>
      -- The hold has missed its order.
      simp only [Current, Reads.mk.injEq] at hc
      obtain ⟨ho, rfl, rfl⟩ := hc
      cases ro with
      | none => simp [Reads.acted, Block.reads, ← ho]
      | some q => cases hf
    | _ => cases hf
  | agented =>
    cases b with
    | hold =>
      -- The hold has missed its agent.
      simp only [Current, Reads.mk.injEq] at hc
      obtain ⟨ho, ha, rfl⟩ := hc
      cases ra with
      | none => cases ro <;> simp [Reads.acted, Block.reads, ← ho, ← ha]
      | some q => cases hf
    | _ => cases hf
  | read =>
    obtain ⟨ho, ha, hp⟩ := hc
    simp only at ho ha hp
    cases ro with
    | none => simp [Reads.acted, Block.reads, ← ho]
    | some q =>
      rw [hp (by simp [← ho])]
      simp only [Block.reads, ← ho, ← ha]

theorem Current.advance_finish (hc : s.Current db) (hf : s.statement? = some .finish) :
    s.advance db = some ({ s with stage := .ended }, s.block.after db, [s.block.entry db]) := by
  have hact : s.block.act s.reads db = s.block.run db := by
    rw [Block.run_eq_act, ← hc.acted hf, Block.act_acted]
  rw [advance, hf, Option.map_some, Block.after, Block.entry, ← hc.acted hf]
  simp only [hact]
  cases s.block.run db <;> rfl

theorem Current.holds_of_finish (hc : s.Current db) (hf : s.statement? = some .finish)
    (ho : s.block.order? db = some o) (ha : db.agent? s.block.agentId = some a) :
    .order o.id ∈ s.holds ∧ .agent a.id ∈ s.holds := by
  have hacted := hc.acted hf
  have hend := not_ended hf
  obtain ⟨b, stage, ro, ra, rp⟩ := s
  simp only [Block.reads, ho, ha] at hacted
  have hro : ro = some o ∧ ra = some a := by
    cases ro <;> cases ra <;> simp_all [Reads.acted]
  exact ⟨order_mem_holds hend hro.1, agent_mem_holds hend hro.2⟩

theorem holds_of_advance (h : s.advance db = some (s', db', es)) (hr : row ∈ s'.holds) :
    row ∈ s.holds ∨ s.wants db = some row := by
  obtain ⟨st, hst, he⟩ := Option.map_eq_some_iff.mp h
  obtain ⟨hend, hr⟩ := mem_holds.mp hr
  have hkeep : row ∈ s.reads.rows → row ∈ s.holds := fun hm => mem_holds.mpr ⟨not_ended hst, hm⟩
  rw [mem_rows] at hkeep
  cases st with
  | lockOrder =>
    cases he
    rcases mem_rows.mp hr with ⟨o, ho, rfl⟩ | hr | hr
    · right
      rw [wants, hst]
      exact Option.map_eq_some_iff.mpr ⟨o, ho, rfl⟩
    · exact Or.inl (hkeep (Or.inr (Or.inl hr)))
    · exact Or.inl (hkeep (Or.inr (Or.inr hr)))
  | lockAgent =>
    cases he
    rcases mem_rows.mp hr with hr | ⟨a, ha, rfl⟩ | hr
    · exact Or.inl (hkeep (Or.inl hr))
    · right
      rw [wants, hst]
      exact Option.map_eq_some_iff.mpr ⟨a, ha, rfl⟩
    · exact Or.inl (hkeep (Or.inr (Or.inr hr)))
  | lockPayment =>
    cases he
    rcases mem_rows.mp hr with hr | hr | ⟨t, ht, rfl⟩
    · exact Or.inl (hkeep (Or.inl hr))
    · exact Or.inl (hkeep (Or.inr (Or.inl hr)))
    · right
      rw [wants, hst]
      exact Option.map_eq_some_iff.mpr ⟨t, ht, rfl⟩
  | finish =>
    -- The locks are released.
    simp only at he
    split at he <;>
      · cases he
        exact absurd rfl hend

theorem Current.advance_read (hc : s.Current db) (hf : s.statement? ≠ some .finish)
    (h : s.advance db = some (s', db', es)) : db' = db ∧ es = [] ∧ s'.Current db := by
  obtain ⟨st, hst, he⟩ := Option.map_eq_some_iff.mp h
  obtain ⟨b, stage, r⟩ := s
  cases stage with
  | begun =>
    cases hst
    cases he
    obtain rfl : r = ⟨none, none, none⟩ := hc
    exact ⟨rfl, rfl, rfl⟩
  | ordered =>
    have hr : r = ⟨b.order? db, none, none⟩ := hc
    obtain rfl : st = .lockAgent := by
      cases b with
      | hold =>
        simp only [statement?] at hst hf
        split at hst <;> simp_all
      | _ => exact (Option.some.inj hst).symm
    cases he
    subst hr
    exact ⟨rfl, rfl, rfl⟩
  | agented =>
    have hr : r = ⟨b.order? db, db.agent? b.agentId, none⟩ := hc
    obtain rfl : st = .lockPayment := by
      cases b with
      | hold =>
        simp only [statement?] at hst hf
        split at hst <;> simp_all
      | _ => exact (Option.some.inj hst).symm
    cases he
    subst hr
    exact ⟨rfl, rfl, rfl, rfl, fun _ => rfl⟩
  | read => exact absurd rfl hf
  | ended => cases hst

theorem stage_of_wants (hw : s.wants db = some row) :
    (s.stage = .begun ∧ row.rank = 0) ∨ (s.stage = .ordered ∧ row.rank = 1) ∨
      (s.stage = .agented ∧ row.rank = 2) := by
  obtain ⟨b, stage, ro, ra, rp⟩ := s
  cases stage with
  | begun =>
    obtain ⟨o, _, rfl⟩ := Option.map_eq_some_iff.mp hw
    exact Or.inl ⟨rfl, rfl⟩
  | ordered =>
    have hm : (db.agent? b.agentId).map (Row.agent ·.id) = some row := by
      cases b with
      | hold => cases ro with
        | none => cases hw
        | some o => exact hw
      | _ => exact hw
    obtain ⟨a, _, rfl⟩ := Option.map_eq_some_iff.mp hm
    exact Or.inr (Or.inl ⟨rfl, rfl⟩)
  | agented =>
    have hm : (db.transactionOf b.orderId).map (Row.payment ·.id) = some row := by
      cases b with
      | hold => cases ra with
        | none => cases hw
        | some a => exact hw
      | _ => exact hw
    obtain ⟨t, _, rfl⟩ := Option.map_eq_some_iff.mp hm
    exact Or.inr (Or.inr ⟨rfl, rfl⟩)
  | read => cases hw
  | ended => cases hw

/-- A session wants a row of higher rank than all that it holds. -/
theorem Current.ranked (hc : s.Current db) (hw : s.wants db = some row) :
    ∀ held ∈ s.holds, held.rank < row.rank := by
  intro held hh
  have hm := mem_rows.mp (mem_holds.mp hh).2
  rcases stage_of_wants hw with ⟨hs, hr⟩ | ⟨hs, hr⟩ | ⟨hs, hr⟩ <;>
    simp only [Current, hs] at hc <;> simp only [hc, hr, reduceCtorEq, false_and, exists_false,
      or_false] at hm ⊢
  · obtain ⟨o, _, rfl⟩ := hm
    simp [Row.rank]
  · rcases hm with ⟨o, _, rfl⟩ | ⟨a, _, rfl⟩ <;> simp [Row.rank]

end Session

/-! ## Runs -/

namespace Locking

variable {db₀ : Database} {c c' : Locking} {as : List LockAction} {i : ℕ} {row : Row}

theorem heldByOther_eq_true : c.heldByOther i row = true ↔
    ∃ j t, j ≠ i ∧ c.sessions[j]? = some t ∧ row ∈ t.holds := by
  simp only [heldByOther, List.any_eq_true, List.mem_range, decide_eq_true_eq,
    Option.map_eq_some_iff]
  constructor
  · rintro ⟨j, _, hij, t, ht, hr⟩
    exact ⟨j, t, hij, ht, hr⟩
  · rintro ⟨j, t, hij, ht, hr⟩
    exact ⟨j, (List.getElem?_eq_some_iff.mp ht).1, hij, t, ht, hr⟩

theorem step_statement {c'} (h : machine.step c (.statement i) = some c') :
    ∃ s s' db' es, c.sessions[i]? = some s ∧ s.advance c.db = some (s', db', es) ∧
      (∀ row, s.wants c.db = some row → ∀ j t, j ≠ i → c.sessions[j]? = some t →
        row ∉ t.holds) ∧
      c' = ⟨db', c.sessions.set i s', c.log ++ es⟩ := by
  obtain ⟨s, hs, h⟩ := Option.bind_eq_some_iff.mp h
  split at h
  · cases h
  · rename_i hfree
    obtain ⟨⟨s', db', es⟩, ha, rfl⟩ := Option.map_eq_some_iff.mp h
    refine ⟨s, s', db', es, hs, ha, ?_, rfl⟩
    intro row hw j t hij ht hr
    apply hfree
    rw [hw, Option.map_some, heldByOther_eq_true.mpr ⟨j, t, hij, ht, hr⟩]

theorem sound_start : Sound db₀ (start db₀) := by
  refine ⟨rfl, ?_, ?_⟩
  · simp [start]
  · simp [start]

theorem Sound.begin {b : Block} (h : Sound db₀ c) :
    Sound db₀ { c with sessions := c.sessions ++ [⟨b, .begun, ⟨none, none, none⟩⟩] } := by
  have hnew : ∀ {j : ℕ} {t : Session} {row : Row},
      (c.sessions ++ [⟨b, .begun, ⟨none, none, none⟩⟩])[j]? = some t →
      row ∈ t.holds → c.sessions[j]? = some t := by
    intro j t row ht hr
    rcases Program.getElem?_concat ht with ht | ⟨_, rfl⟩
    · exact ht
    · simp [Session.holds, Reads.rows] at hr
  refine ⟨h.serial, fun s hs => ?_, fun i j s t row hij hs ht hr hr' => ?_⟩
  · rcases List.mem_append.mp hs with hs | hs
    · exact h.current s hs
    · rw [List.mem_singleton.mp hs]
      exact rfl
  · exact h.exclusive i j s t row hij (hnew hs hr) (hnew ht hr') hr hr'

theorem Sound.exclusive_set {s s' : Session} {db' : Database} {es : List Entry}
    (h : Sound db₀ c) (hs : c.sessions[i]? = some s) (ha : s.advance c.db = some (s', db', es))
    (hfree : ∀ row, s.wants c.db = some row → ∀ j t, j ≠ i → c.sessions[j]? = some t →
      row ∉ t.holds) (j k : ℕ) (t u : Session) (row : Row) (hjk : j ≠ k)
    (ht : (c.sessions.set i s')[j]? = some t) (hu : (c.sessions.set i s')[k]? = some u)
    (hr : row ∈ t.holds) : row ∉ u.holds := by
  have hlt : i < c.sessions.length := (List.getElem?_eq_some_iff.mp hs).1
  -- What the session holds now it held before, or wanted.
  have hother : ∀ l v, l ≠ i → c.sessions[l]? = some v → row ∈ s'.holds → row ∉ v.holds := by
    intro l v hl hv hrow
    rcases Session.holds_of_advance ha hrow with hrow | hrow
    · exact h.exclusive i l s v row (Ne.symm hl) hs hv hrow
    · exact hfree row hrow l v hl hv
  by_cases hj : i = j
  · subst hj
    rw [List.getElem?_set_self hlt] at ht
    obtain rfl := Option.some.inj ht
    rw [List.getElem?_set_ne hjk] at hu
    exact hother k u (Ne.symm hjk) hu hr
  · rw [List.getElem?_set_ne hj] at ht
    by_cases hk : i = k
    · subst hk
      rw [List.getElem?_set_self hlt] at hu
      obtain rfl := Option.some.inj hu
      exact fun hr' => hother j t (Ne.symm hj) ht hr' hr
    · rw [List.getElem?_set_ne hk] at hu
      exact h.exclusive j k t u row hjk ht hu hr

theorem Sound.statement (h : Sound db₀ c) (hst : machine.step c (.statement i) = some c') :
    Sound db₀ c' := by
  obtain ⟨s, s', db', es, hs, ha, hfree, rfl⟩ := step_statement hst
  have hc := h.current s (List.mem_of_getElem? hs)
  have hexcl := fun j k t u row => h.exclusive_set hs ha hfree j k t u row
  by_cases hf : s.statement? = some .finish
  · rw [hc.advance_finish hf] at ha
    cases ha
    refine ⟨?_, fun t ht => ?_, hexcl⟩
    · rw [List.map_append, List.map_singleton]
      show Block.serial db₀ (c.log.map (·.block) ++ [s.block]) = _
      rw [Block.serial_append, h.serial]
    · obtain ⟨j, hj⟩ := List.mem_iff_getElem?.mp ht
      by_cases hij : i = j
      · subst hij
        rw [List.getElem?_set_self (List.getElem?_eq_some_iff.mp hs).1] at hj
        obtain rfl := Option.some.inj hj
        trivial
      · rw [List.getElem?_set_ne hij] at hj
        have hct := h.current t (List.mem_of_getElem? hj)
        simp only [Block.after]
        split
        · rename_i out db' hrun
          rcases Block.run_written hrun with rfl | ⟨o, a, _, _, _, _, ho, hag, hw⟩
          · exact hct
          · -- The rows that the block wrote are locked by its own session.
            obtain ⟨hso, hsa⟩ := hc.holds_of_finish hf ho hag
            exact hct.mono hw (h.exclusive i j s t _ hij hs hj hso)
              (h.exclusive i j s t _ hij hs hj hsa)
        · exact hct
  · obtain ⟨rfl, rfl, hc'⟩ := hc.advance_read hf ha
    refine ⟨by simpa using h.serial, fun t ht => ?_, hexcl⟩
    rcases List.mem_or_eq_of_mem_set ht with ht | rfl
    · exact h.current t ht
    · exact hc'

theorem sound_of_run (h : machine.Run (start db₀) as c) : Sound db₀ c := by
  refine h.invariant (I := Sound db₀) ?_ sound_start
  intro c a c' _ hst hc
  cases a with
  | begin b =>
    cases hst
    exact hc.begin
  | statement i => exact hc.statement hst

theorem Sound.ranked (h : Sound db₀ c) : c.claims.Ranked Row.rank := by
  rintro i row hw held ⟨s, hs, hh⟩
  obtain ⟨t, ht, hw⟩ := Option.bind_eq_some_iff.mp hw
  obtain rfl : s = t := Option.some.inj (hs.symm.trans ht)
  exact (h.current s (List.mem_of_getElem? hs)).ranked hw held hh

end Locking

theorem Block.serial_onePayment {db : Database} (bs : List Block) (h : OnePayment db) :
    OnePayment (serial db bs).2 := by
  induction bs generalizing db with
  | nil => exact h
  | cons b bs ih => exact ih (after_onePayment h)

/-- Any interleaving of statements is serial in the order in which the blocks end: the committed
database and what every block acted on and returned are those of the atomic blocks. No second
payment of an order is stored, and no set of sessions is deadlocked. -/
theorem rowLocks_serial {db₀ : Database} {as : List LockAction} {c : Locking}
    (h : Locking.machine.Run (Locking.start db₀) as c) :
    Block.serial db₀ (c.log.map (·.block)) = (c.log, c.db) ∧
    (OnePayment db₀ → OnePayment c.db) ∧ ∀ S, ¬ c.claims.Deadlocked S := by
  have hs := Locking.sound_of_run h
  refine ⟨hs.serial, fun h₁ => ?_, hs.ranked.not_deadlocked⟩
  have hone := Block.serial_onePayment (c.log.map (·.block)) h₁
  rwa [hs.serial] at hone

/-- Two holds of one order, of which the second one waits for the first. -/
def twoHolds : List LockAction :=
  [.begin (.hold "agent" "order" "key" "transaction"),
    .begin (.hold "agent" "order" "key" "unused"),
    .statement 0, .statement 0, .statement 0, .statement 0,
    .statement 1, .statement 1, .statement 1, .statement 1]

theorem rowLocks_serial_twoHolds : ∃ c, Locking.machine.Run (Locking.start Example.booked.db)
      twoHolds c ∧ c.db.agents.rows.map (·.balance) = [20000] ∧
    Block.serial Example.booked.db (c.log.map (·.block)) = (c.log, c.db) ∧
    ∀ S, ¬ c.claims.Deadlocked S := by
  have hrun : (Locking.machine.exec (Locking.start Example.booked.db) twoHolds).map
      (fun c => c.db.agents.rows.map (·.balance)) = some [20000] := by decide
  obtain ⟨c, hc, hbal⟩ := Option.map_eq_some_iff.mp hrun
  have h := Machine.exec_eq_some_iff.mp hc
  obtain ⟨hserial, _, hdead⟩ := rowLocks_serial h
  exact ⟨c, h, hbal, hserial, hdead⟩

/-- The second hold cannot read the order while the first one holds it. -/
example : ((Locking.machine.exec (Locking.start Example.booked.db) (twoHolds.take 3)).bind
    fun c => Locking.machine.step c (.statement 1)).isNone = true := by decide

end Ioka
