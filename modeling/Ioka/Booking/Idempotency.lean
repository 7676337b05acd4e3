import Ioka.Booking.Keys

/-! # Idempotent creation of orders

The idempotency records are the commits of the history, entry for entry, so the
unique constraint on the records admits one commit for an agent and a key. A
later call finds the record and ends in its first block.
-/

namespace Ioka

open Relational Transition

/-! ## Commits -/

/-- An order that was committed, with the call that created it. -/
structure Commit where
  agentId : String
  key : String
  payload : OrderCreate
  orderId : String
  deriving DecidableEq

def Event.commit? : Event → Option Commit
  | .orderCommitted agentId key payload orderId => some ⟨agentId, key, payload, orderId⟩
  | _ => none

def commits (history : List Event) : List Commit := history.filterMap Event.commit?

/-- The record stored with the order. -/
def Commit.record (sha256 : String → String) (m : Commit) : IdempotencyRecord :=
  newRecord m.agentId m.key (requestHash sha256 m.payload.modelDump) m.orderId

/-- The commits of an agent under a key. -/
def commitsOf (history : List Event) (agentId key : String) : List Commit :=
  (commits history).filter fun m => m.agentId = agentId ∧ m.key = key

/-- The records and the orders of the database are those of the commits. -/
structure Journal (sha256 : String → String) (w : World) : Prop where
  records : w.db.records.rows = (commits w.history).map (·.record sha256)
  orders : w.db.orders.rows.map (fun o => (o.id, o.agentId)) =
    (commits w.history).map fun m => (m.orderId, m.agentId)

section Step

variable {sha256 : String → String} {w w' : World} {p : Request} {h es : List Event} {m : Commit}

theorem commits_append : commits (h ++ es) = commits h ++ commits es := List.filterMap_append

theorem commits_eq_nil (hes : ∀ e ∈ es, e.commit? = none) : commits es = [] := by
  rw [commits, List.filterMap_eq_nil_iff]
  exact hes

theorem Event.CalledBy.commit? {e : Event} (he : e.CalledBy p) : e.commit? = none := by
  cases e <;> first | rfl | exact he.elim

theorem Move.commits {phase : Phase} {a : Agent} {o o' : Order} {t? : Option BalanceTransaction}
    {t' : BalanceTransaction} (hm : Move phase a o t? o' t' es) : commits es = [] := by
  apply commits_eq_nil
  cases hm <;> simp [Event.commit?]

theorem Effect.journal (he : Effect sha256 w p w') (hj : Journal sha256 w) :
    Journal sha256 w' := by
  obtain ⟨hr, ho⟩ := hj
  cases he with
  | quiet hes =>
    have hn := commits_eq_nil fun e he => (hes e he).commit?
    exact ⟨by rw [World.commit_history, commits_append, hn, List.append_nil, ← hr]; rfl,
      by rw [World.commit_history, commits_append, hn, List.append_nil, ← ho]; rfl⟩
  | @moved r db' phase a o o' t? t' es _ _ _ hm =>
    have hb := hm.move.sameBooking
    constructor
    · rw [World.commit_db, World.commit_history, commits_append, hm.move.commits, List.append_nil,
        hm.records, hr]
    · rw [World.commit_db, World.commit_history, commits_append, hm.move.commits, List.append_nil,
        hm.orders, map_amend, ho]
      intro q hq hid
      obtain rfl := Database.order_ext hq hm.order_mem (by simpa using hid)
      rw [hb.id, hb.agentId]
  | @created r db' orderId offer booking _ _ hc =>
    constructor
    · rw [World.commit_db, World.commit_history, commits_append, hc.records, hr, List.map_append]
      rfl
    · rw [World.commit_db, World.commit_history, commits_append, hc.orders, List.map_append, ho,
        List.map_append]
      rfl

theorem Effect.commits_mem (he : Effect sha256 w p w') (hm : m ∈ commits w.history) :
    m ∈ commits w'.history := by
  cases he <;>
    · rw [World.commit_history, commits_append]
      exact List.mem_append_left _ hm

theorem Blank.journal (hb : Blank w.db) (hh : w.history = []) : Journal sha256 w := by
  constructor
  · rw [hb.records, hh]
    rfl
  · rw [hb.orders, hh]
    rfl

namespace Journal

theorem record_mem (hj : Journal sha256 w) (hm : m ∈ commits w.history) :
    m.record sha256 ∈ w.db.records := by
  rw [Table.mem_def, hj.records]
  exact List.mem_map_of_mem hm

theorem order_mem (hj : Journal sha256 w) (hm : m ∈ commits w.history) :
    ∃ o ∈ w.db.orders, o.id = m.orderId ∧ o.agentId = m.agentId := by
  have hp : (m.orderId, m.agentId) ∈ w.db.orders.rows.map fun o => (o.id, o.agentId) := by
    rw [hj.orders]
    exact List.mem_map_of_mem hm
  obtain ⟨o, ho, he⟩ := List.mem_map.mp hp
  obtain ⟨hid, hown⟩ := Prod.mk.inj he
  exact ⟨o, ho, hid, hown⟩

/-- The unique constraint on the records leaves one commit for an agent and a key. -/
theorem length_commitsOf (hj : Journal sha256 w) (agentId key : String) :
    (commitsOf w.history agentId key).length ≤ 1 := by
  have hp : ((commits w.history).map (·.record sha256)).Pairwise
      (Distinct IdempotencyRecord.uniques) := hj.records ▸ w.db.records.unique
  have hd : (commitsOf w.history agentId key).Pairwise fun m n =>
      Distinct IdempotencyRecord.uniques (m.record sha256) (n.record sha256) :=
    (List.pairwise_map.mp hp).filter _
  have hall : ∀ m ∈ commitsOf w.history agentId key, m.agentId = agentId ∧ m.key = key := by
    intro m hm
    simpa using (List.mem_filter.mp hm).2
  match hl : commitsOf w.history agentId key with
  | [] => exact Nat.zero_le _
  | [m] => exact Nat.le_refl _
  | m :: n :: ms =>
    rw [hl] at hd hall
    obtain ⟨hma, hmk⟩ := hall m (by simp)
    obtain ⟨hna, hnk⟩ := hall n (by simp)
    have hmn := (List.pairwise_cons.mp hd).1 n (by simp)
    simp [Distinct, IdempotencyRecord.uniques, Commit.record, newRecord, hma, hmk, hna, hnk] at hmn

end Journal

end Step

/-! ## Replays -/

section Replay

variable {sha256 : String → String} {w w' : World} {p : Request} {m : Commit} {o : Order}

/-- What a call under an agent and a key that have a commit ends with. -/
def replayResult (m : Commit) (o : Order) (r : CreateOrder) : Except Failure Order :=
  if r.payload = m.payload then .ok o
  else .error (.conflict "Idempotency key was already used with a different request")

/-- After a commit a call ends in its first block, and writes nothing. -/
theorem Journal.replay (hj : Journal sha256 w) (hinj : Function.Injective sha256)
    (hm : m ∈ commits w.history) (ho : o ∈ w.db.orders) (hid : o.id = m.orderId)
    {r : CreateOrder} (ha : r.agentId = m.agentId) (hk : r.idempotencyKey = m.key)
    (missing : CreatePhase) :
    r.replay sha256 w missing = (w, r.finish (replayResult m o r)) := by
  have hhash : (m.record sha256).requestHash = r.payloadHash sha256 ↔ r.payload = m.payload := by
    constructor
    · intro h
      exact (OrderCreate.requestHash_inj hinj h).symm
    · intro h
      rw [CreateOrder.payloadHash, h]
      rfl
  have hstored : w.db.order? (m.record sha256).resourceId = some o :=
    Database.order?_eq_some.mpr ⟨ho, hid⟩
  have hfound := select_newRecord (hj.record_mem hm)
  rw [← Commit.record] at hfound
  unfold CreateOrder.replay idempotentOrder
  rw [ha, hk, hfound]
  by_cases hp : r.payload = m.payload
  · simp [hhash.mpr hp, hstored, replayResult, hp]
  · simp [mt hhash.mp hp, replayResult, hp]

/-- A call that returned did so with the order of the commit for its agent, key and body. -/
def CreateOrder.Returned (history : List Event) (r : CreateOrder) : Prop :=
  ∀ o, r.phase = .done (.ok o) → ⟨r.agentId, r.idempotencyKey, r.payload, o.id⟩ ∈ commits history

theorem CreateStep.returned {r r' : CreateOrder} (h : CreateStep sha256 w r w' r')
    (hj : Journal sha256 w) (hinj : Function.Injective sha256) : r'.Returned w'.history := by
  intro o hd
  cases h with
  | @replayed q record _ hrec ha _ hk hh hq hqid =>
    cases hd
    rw [Table.mem_def, hj.records] at hrec
    obtain ⟨m, hm, rfl⟩ := List.mem_map.mp hrec
    have hp : m.payload = r.payload := OrderCreate.requestHash_inj hinj hh
    have hmr : m = ⟨r.agentId, r.idempotencyKey, r.payload, o.id⟩ := by
      rw [← ha, ← hk, ← hp, hqid]
      rfl
    exact hmr ▸ hm
  | committed =>
    cases hd
    rw [World.commit_history, commits_append]
    exact List.mem_append_right _ (by simp [commits, Event.commit?, CreateOrder.finish, newOrder])
  | failed => cases hd
  | unseen => cases hd
  | offered => cases hd
  | called => cases hd
  | answered => cases hd
  | raised => cases hd
  | audited => cases hd
  | conflicted => cases hd

end Replay

/-! ## Runs -/

section Runs

variable {sha256 : String → String} {w : World} {c : Booking}
  {as : List (Action Request Choice)}

theorem journal_of_run (hb : Blank w.db) (hh : w.history = [])
    (h : (booking sha256).machine.Run (Program.start w) as c) : Journal sha256 c.store :=
  invariant_of_effect (fun _ _ _ _ he hj => he.journal hj) h (sound_start hb.unpaid.coupled)
    (hb.journal hh)

theorem commits_of_run {bs : List (Action Request Choice)} {c' : Booking} {m : Commit}
    (h : (booking sha256).machine.Run c bs c') (hc : Sound c)
    (hm : m ∈ commits c.store.history) : m ∈ commits c'.store.history :=
  invariant_of_effect (I := fun w => m ∈ commits w.history)
    (fun _ _ _ _ he hm => he.commits_mem hm) h hc hm

theorem create_returned_of_run (hinj : Function.Injective sha256) (hb : Blank w.db)
    (hh : w.history = []) (h : (booking sha256).machine.Run (Program.start w) as c) :
    ∀ r, .inl r ∈ c.procs → r.Returned c.store.history := by
  have hret := (requests_of_run (I := Journal sha256)
    (J := fun w p => ∀ r, p = .inl r → r.Returned w.history) ?_ ?_ ?_ h
    (sound_start hb.unpaid.coupled) (hb.journal hh) (by simp [Program.start])).2
  · intro r hr
    exact hret _ hr r rfl
  · rintro w p hf r rfl o hd
    simp [hd] at hf
  · intro w p x w' p' hc hv hj ha
    refine ⟨(booking_effect ha hv hc).1.journal hj, ?_⟩
    rintro r rfl
    rcases booking_step hv.owns ha with ⟨r₀, r₁, rfl, ⟨rfl⟩, hs⟩ | ⟨_, _, _, ⟨⟩, _⟩
    exact hs.returned hj hinj
  · rintro w p w' q _ he hret r rfl o hd
    exact he.commits_mem (hret r rfl o hd)

/-- One commit for each agent and key, which every call under them returns or refuses. -/
theorem create_order_idempotent (hinj : Function.Injective sha256) (hb : Blank w.db)
    (hh : w.history = []) (h : (booking sha256).machine.Run (Program.start w) as c) :
    (∀ agentId key, (commitsOf c.store.history agentId key).length ≤ 1) ∧
    c.store.db.orders.rows.map (·.id) = (commits c.store.history).map (·.orderId) ∧
    (∀ r o, .inl r ∈ c.procs → r.phase = .done (.ok o) →
      ⟨r.agentId, r.idempotencyKey, r.payload, o.id⟩ ∈ commits c.store.history) ∧
    ∀ m ∈ commits c.store.history, ∀ bs c', (booking sha256).machine.Run c bs c' →
      ∃ o ∈ c'.store.db.orders, o.id = m.orderId ∧ ∀ r : CreateOrder, r.phase = .requested →
        r.agentId = m.agentId → r.idempotencyKey = m.key → ∀ x,
        r.advance sha256 c'.store x =
          if x matches .replay then some (c'.store, r.finish (replayResult m o r)) else none := by
  have hj := journal_of_run hb hh h
  have hc := sound_of_run h (sound_start hb.unpaid.coupled)
  refine ⟨hj.length_commitsOf, ?_, fun r o hr => create_returned_of_run hinj hb hh h r hr o, ?_⟩
  · have ho := congrArg (List.map Prod.fst) hj.orders
    simpa [List.map_map, Function.comp_def] using ho
  · intro m hm bs c' hrun
    have hj' := journal_of_run hb hh (h.append hrun)
    have hm' := commits_of_run hrun hc hm
    obtain ⟨o, ho, hid, _⟩ := hj'.order_mem hm'
    refine ⟨o, ho, hid, fun r hph ha hk x => ?_⟩
    unfold CreateOrder.advance
    rw [hph]
    cases x with
    | replay => simp [hj'.replay hinj hm' ho hid ha hk]
    | _ => rfl

/-- The order of a call that books the offer. -/
theorem create_order_idempotent_booked : ∃ c : Booking,
    (booking id).machine.Run (Program.start Example.offered) Example.bookSteps c ∧
    c.store.db.orders.rows.map (·.id) = ["order"] ∧
    ∀ r o, .inl r ∈ c.procs → r.phase = .done (.ok o) →
      ⟨r.agentId, r.idempotencyKey, r.payload, o.id⟩ ∈ commits c.store.history := by
  have hrun : ((booking id).machine.exec (Program.start Example.offered)
      Example.bookSteps).map (fun c => c.store.db.orders.rows.map (·.id)) =
      some ["order"] := by decide
  obtain ⟨c, hc, hids⟩ := Option.map_eq_some_iff.mp hrun
  have h := Machine.exec_eq_some_iff.mp hc
  obtain ⟨_, _, hret, _⟩ :=
    create_order_idempotent Function.injective_id ⟨rfl, rfl, rfl⟩ rfl h
  exact ⟨c, h, hids, hret⟩

end Runs

end Ioka
