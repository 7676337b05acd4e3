import Ioka.Booking.Race
import Ioka.Platform.Holds
import Ioka.Platform.Polls
import Ioka.Search.Interference

/-! # The way to a ticket

From every reachable state, whatever calls have crashed, an agent with enough money gets from a
new search to a ticket in four calls, if the columns take what the provider answers, and its ids
and references are in no row yet.
-/

namespace Ioka

open Relational Transition

/-- What an agent asks for on the way, and what the provider answers. -/
structure Journey where
  agent : Agent
  request : SearchRequest
  stores : request.Stores
  items : List ProviderOffer
  /-- What is stored of the items. -/
  kept : List ProviderOffer
  /-- Which item is bought. -/
  place : ℕ
  /-- What is stored of it. -/
  item : ProviderOffer
  passenger : Passenger
  createKey : String
  booking : ProviderBooking
  issueKey : String
  ticket : ProviderTicket
  searchedAt : Time
  bookedAt : Time

/-- The ids that the four calls draw. -/
structure JourneyIds where
  searchId : String
  offerId : ℕ → String
  orderId : String
  transactionId : String

/-- No row has one of the ids. -/
structure JourneyIds.New (ids : JourneyIds) (db : Database) : Prop where
  injective : Function.Injective ids.offerId
  search : ∀ q ∈ db.searches, q.id ≠ ids.searchId
  offers : ∀ o ∈ db.offers, ∀ i, ids.offerId i ≠ o.id
  order : ∀ o ∈ db.orders, o.id ≠ ids.orderId
  transaction : ∀ t ∈ db.transactions, t.id ≠ ids.transactionId

/-- A call of `start` that returns has dispatched its search. -/
def Deployment.Dispatches (d : Deployment) : Prop :=
  d.settings.searchDispatchMode = .inline ∨ d.settings.broker = true

namespace Journey

variable (j : Journey) (d : Deployment) (ids : JourneyIds)

/-- The price of the item, as it is stored. -/
def price : Money := j.item.totalAmount.hundredths

/-- The balance suffices for the item, and what the booking and the ticket bring fits its columns
and is new. -/
structure Payable (db : Database) : Prop where
  agent_mem : j.agent ∈ db.agents
  item : j.kept[j.place]? = some j.item
  funds : j.price ≤ j.agent.balance
  unexpired : j.bookedAt < j.item.expiresAt
  createKey : ∀ r ∈ db.records, r.agentId = j.agent.id → r.scope = "create_order" →
    r.key ≠ j.createKey
  bookingFits : Fits 128 j.booking.providerBookingId ∧ Fits 32 j.booking.bookingReference
  reference : ∀ o ∈ db.orders, o.bookingReference ≠ j.booking.bookingReference
  issueKey : ∀ o ∈ db.orders, o.issueIdempotencyKey ≠ some j.issueKey
  paymentKey : ∀ t ∈ db.transactions, t.idempotencyKey ≠ j.issueKey
  ticketFits : Fits 64 j.ticket.ticketNumber
  ticket : ∀ o ∈ db.orders, o.ticketNumber ≠ some j.ticket.ticketNumber

/-- The columns take the items of the provider, and these are new as well. -/
structure Possible (provider : String) (db : Database) : Prop extends j.Payable db where
  itemsKept : keptItems j.items = some j.kept
  distinct : (j.kept.map (·.providerOfferId)).Nodup
  offers : ∀ o ∈ db.offers, o.provider = provider → ∀ item ∈ j.kept,
    o.providerOfferId ≠ item.providerOfferId

def search (phase : StartPhase) : StartSearch := ⟨j.agent.id, j.request, j.searchedAt, phase⟩

def payload : OrderCreate := ⟨ids.offerId j.place, j.passenger⟩

def create (phase : CreatePhase) : CreateOrder := ⟨j.agent.id, j.payload ids, j.createKey, phase⟩

def issue (phase : IssuePhase) : IssueOrder := ⟨j.agent.id, ids.orderId, j.issueKey, phase⟩

/-! ## The steps of the four calls -/

def searchChoices : List StartChoice :=
  [.readCache false, .create ids.searchId j.searchedAt, .writeCache true, .dispatch none]

def processChoices : List ProcessChoice :=
  [.start, .call, .answer j.items, .save ids.offerId j.searchedAt 0 ""]

def createChoices : List CreateChoice :=
  [.replay, .checkOffer j.bookedAt, .call, .answer j.booking, .persist ids.orderId 0]

def issueChoices : List IssueChoice :=
  [.hold ids.transactionId, .call, .answer j.ticket, .capture 0]

/-- A call of `start` after `n` other jobs, and a run on its search. -/
def searchSteps (n : ℕ) : List (Action Job JobChoice) :=
  (.spawn (.inl (j.search .requested)) :: ((j.searchChoices ids).map .inl).map (.advance n)) ++
  (.spawn (.inr (.inl ⟨ids.searchId, .requested⟩)) ::
    (((j.processChoices ids).map .inl).map .inr).map (.advance (n + 1)))

/-- Calls of `create_order` and `issue_order` after `n` other jobs. -/
def buySteps (n : ℕ) : List (Action Job JobChoice) :=
  (.spawn (.inr (.inr (.inl (j.create ids .requested)))) ::
    ((((j.createChoices ids).map .inl).map .inr).map .inr).map (.advance n)) ++
  (.spawn (.inr (.inr (.inr (j.issue ids .requested)))) ::
    ownSteps (n + 1) (j.issueChoices ids))

/-! ## What the calls leave -/

def newSearch : FlightSearch :=
  Ioka.newSearch d.settings ids.searchId j.agent.id j.request j.stores j.searchedAt

def offer : Offer := newOffer d.provider ids.searchId (ids.offerId j.place) j.item

def order : Order := newOrder ids.orderId j.agent.id (j.payload ids) (j.offer d ids) j.booking

def issued : Order := ((j.order d ids).holding j.issueKey).ticketed j.ticket

def payment : BalanceTransaction :=
  (newHold (j.order d ids) j.issueKey ids.transactionId).withStatus .captured

def payer : Agent := { j.agent with balance := j.agent.balance - j.price }

/-- The search is dispatched and processed, and no other table has changed. -/
structure Searched (c c' : Serving) : Prop where
  calls : c'.procs = c.procs ++ [
    .inl (j.search (.done (.ok (j.newSearch d ids)))),
    .inr (.inl ⟨ids.searchId, .done (.ok ())⟩)]
  dispatched : ids.searchId ∈ c'.store.queue ∨ ids.searchId ∈ c'.store.tasks
  shown : searchGet c'.store.world.db ids.searchId j.agent.id = .ok
    ({ j.newSearch d ids with status := .completed, completedAt := some j.searchedAt },
      newOffers d.provider ids.searchId ids.offerId j.kept)
  agents : c'.store.world.db.agents = c.store.world.db.agents
  orders : c'.store.world.db.orders = c.store.world.db.orders
  transactions : c'.store.world.db.transactions = c.store.world.db.transactions
  records : c'.store.world.db.records = c.store.world.db.records

/-- The offer is booked and issued, and the money is taken once. -/
structure Bought (c c' : Serving) : Prop where
  calls : c'.procs = c.procs ++ [
    .inr (.inr (.inl (j.create ids (.done (.ok (j.order d ids)))))),
    .inr (.inr (.inr (j.issue ids (.done (.ok (j.issued d ids, j.payer, .captured))))))]
  paid : At c'.store.world.db j.payer (j.issued d ids) (some (j.payment d ids))
  searches : c'.store.world.db.searches = c.store.world.db.searches
  offers : c'.store.world.db.offers = c.store.world.db.offers

end Journey

section Calls

variable {d : Deployment} {s : Platform} {w : World} {agentId : String} {a : Agent} {o : Order}

theorem exists_startCreate {db : Database} (search : FlightSearch)
    (hid : ∀ q ∈ db.searches, q.id ≠ search.id) :
    ∃ db', startCreate db search = .ok db' := by
  have hsome : (db.searches.insert? search).isSome := by
    rw [Table.isSome_insert?]
    intro q hq
    simp [Distinct, FlightSearch.uniques, hid q hq]
  obtain ⟨tab, ht⟩ := Option.isSome_iff_exists.mp hsome
  exact ⟨_, bind_eq_ok.mpr ⟨_, Database.writing_eq_ok.mpr ⟨tab, ht, rfl⟩, rfl⟩⟩

theorem exists_started (hd : d.Dispatches) {r : StartSearch} (hr : r.phase = .requested)
    (hp : r.payload.Stores) {searchId : String} (now : Time)
    (hid : ∀ q ∈ s.world.db.searches, q.id ≠ searchId) :
    ∃ s', (starting d.settings d.sha256).alone.Run (s, r)
        [.readCache false, .create searchId now, .writeCache true, .dispatch none]
        (s', r.finish (.ok (newSearch d.settings searchId r.agentId r.payload hp now))) ∧
      Stored s.world.db s'.world.db (newSearch d.settings searchId r.agentId r.payload hp now) ∧
      (searchId ∈ s'.queue ∨ searchId ∈ s'.tasks) := by
  let search := newSearch d.settings searchId r.agentId r.payload hp now
  obtain ⟨db', hok⟩ := exists_startCreate search hid
  have hread : r.advance d.settings d.sha256 s (.readCache false) =
      some (s, { r with phase := .missed }) := by
    simp [StartSearch.advance, hr]
  have hcreate : StartSearch.advance d.settings d.sha256 s { r with phase := .missed }
      (.create searchId now) =
        some (s.withWorld (s.world.commit db' []), { r with phase := .created search }) := by
    simp only [StartSearch.advance, search, dif_pos hp] at hok ⊢
    rw [hok]
  obtain ⟨s₁, hwrite, hworld⟩ : ∃ s₁, StartSearch.advance d.settings d.sha256
      (s.withWorld (s.world.commit db' [])) { r with phase := .created search } (.writeCache true) =
        some (s₁, { r with phase := .remembered search }) ∧ s₁.world = s.world.commit db' [] := by
    simp only [StartSearch.advance]
    split
    · exact ⟨_, rfl, rfl⟩
    · exact ⟨_, rfl, rfl⟩
  obtain ⟨s₂, hdispatch, hsame, hmem⟩ : ∃ s₂, StartSearch.advance d.settings d.sha256 s₁
      { r with phase := .remembered search } (.dispatch none) = some (s₂, r.finish (.ok search)) ∧
        s₂.world = s₁.world ∧ (searchId ∈ s₂.queue ∨ searchId ∈ s₂.tasks) := by
    simp only [StartSearch.advance]
    cases hmode : d.settings.searchDispatchMode with
    | inline => exact ⟨_, rfl, rfl, Or.inr (List.mem_append_right _ (List.mem_singleton.mpr rfl))⟩
    | rabbitmq =>
      have hbroker : d.settings.broker = true := by
        rcases hd with hd | hd
        · cases hmode.symm.trans hd
        · exact hd
      simp only [hbroker, not_true_eq_false, if_false]
      exact ⟨_, rfl, rfl, Or.inl (List.mem_append_right _ (List.mem_singleton.mpr rfl))⟩
  refine ⟨s₂, .cons trivial hread (.cons trivial hcreate (.cons trivial hwrite
    (.cons trivial hdispatch (.nil _)))), ?_, hmem⟩
  rw [hsame, hworld]
  exact startCreate_ok hok

theorem not_clashes_newOffers {db : Database} {provider searchId : String} {newId : ℕ → String}
    {items : List ProviderOffer} (hnew : Function.Injective newId)
    (hid : ∀ o ∈ db.offers, ∀ i, newId i ≠ o.id)
    (hdistinct : (items.map (·.providerOfferId)).Nodup)
    (hoffers : ∀ o ∈ db.offers, o.provider = provider → ∀ item ∈ items,
      o.providerOfferId ≠ item.providerOfferId) :
    ¬ Clashes db (newOffers provider searchId newId items) := by
  rw [Clashes, not_not]
  refine List.pairwise_append.mpr ⟨db.offers.unique, ?_, ?_⟩
  · rw [List.pairwise_iff_getElem]
    intro i k hi hk hik
    simp only [newOffers, List.length_mapIdx] at hi hk
    have hne :=
      List.pairwise_iff_getElem.mp hdistinct i k (by simpa using hi) (by simpa using hk) hik
    simp only [List.getElem_map] at hne
    simp only [newOffers, List.getElem_mapIdx, Offer.distinct_iff]
    exact ⟨fun he => absurd (hnew he) (by omega), fun _ => hne⟩
  · intro o ho p hp
    obtain ⟨i, hi, rfl⟩ := List.mem_mapIdx.mp hp
    exact Offer.distinct_iff.mpr
      ⟨fun he => hid o ho i he.symm, fun hpr => hoffers o ho hpr _ (List.getElem_mem hi)⟩

/-- Alone, a run on an unfinished search stores an answer that its columns take and that breaks no
constraint. -/
theorem exists_processed {provider : String} {q : FlightSearch} {items kept : List ProviderOffer}
    {newId : ℕ → String} (now : Time) (hq : q ∈ w.db.searches) (hf : ¬ q.status.Final)
    (hk : keptItems items = some kept)
    (hclash : ¬ Clashes w.db (newOffers provider q.id newId kept)) :
    ∃ w' db₁, (processing provider).alone.Run (w, ⟨q.id, .requested⟩)
        [.start, .call, .answer items, .save newId now 0 ""] (w', ⟨q.id, .done (.ok ())⟩) ∧
      Rewritten w.db db₁ q { q with status := .inProgress } [] ∧
      Rewritten db₁ w'.db { q with status := .inProgress }
        { q with status := .completed, completedAt := some now }
        (newOffers provider q.id newId kept) := by
  have hread : w.db.search? q.id = some q := Database.search?_eq_some.mpr ⟨hq, rfl⟩
  rcases processStart_eq w.db q.id with ⟨hfinal, _⟩ | ⟨p, db₁, hp, _, hstart, hw₁, _⟩
  · exact absurd (hfinal q hread) hf
  obtain rfl : q = p := Option.some.inj (hread.symm.trans hp)
  have hread₁ : db₁.search? q.id = some { q with status := .inProgress } :=
    Database.search?_eq_some.mpr ⟨hw₁.mem_searches.mpr (Or.inl rfl), rfl⟩
  rcases processSave_eq db₁ provider q.id q.providerRequest items newId now 0 with
    ⟨hnone, _⟩ | ⟨p, hp, ⟨href, _⟩ | ⟨kept', db₂, hk', _, hsave, hw₂, _⟩⟩
  · cases hnone.symm.trans hread₁
  · obtain rfl := Option.some.inj (hp.symm.trans hread₁)
    refine absurd ?_ hclash
    have hclash₁ := href kept hk
    rwa [Clashes, hw₁.offers, List.append_nil] at hclash₁
  obtain rfl := Option.some.inj (hp.symm.trans hread₁)
  obtain rfl := Option.some.inj (hk.symm.trans hk')
  let called := (w.commit db₁ []).called (.searchCalled q.id)
  have hadvance : ProcessSearch.advance provider w ⟨q.id, .requested⟩ .start =
      some (w.commit db₁ [], ⟨q.id, .started q.providerRequest⟩) := by
    simp only [ProcessSearch.advance, hstart]
  have hsaved : ProcessSearch.advance provider called ⟨q.id, .answered q.providerRequest items⟩
      (.save newId now 0 "") = some (called.commit db₂ [], ⟨q.id, .done (.ok ())⟩) := by
    simp only [ProcessSearch.advance, called, World.called_db, World.commit_db, hsave]
    rfl
  exact ⟨_, db₁, .cons trivial hadvance (.cons trivial rfl (.cons trivial rfl
    (.cons trivial hsaved (.nil _)))), hw₁, hw₂⟩

/-- Alone, a call with a new key books an offer of its agent that has not expired. -/
theorem exists_created (sha256 : String → String) {r : CreateOrder} (hr : r.phase = .requested)
    {offer : Offer} {booking : ProviderBooking} {now : Time} {orderId : String}
    (hoffer : agentOffer w.db r.agentId r.payload.offerId = some offer)
    (hnow : now < offer.expiresAt) (hk : booking.kept = some booking)
    (hid : ∀ p ∈ w.db.orders, p.id ≠ orderId) (href : ∀ p ∈ w.db.orders,
      p.bookingReference ≠ booking.bookingReference) (hkey : ∀ q ∈ w.db.records,
      q.agentId = r.agentId → q.scope = "create_order" → q.key ≠ r.idempotencyKey) :
    ∃ w', (CreateOrder.program sha256).alone.Run (w, r)
        [.replay, .checkOffer now, .call, .answer booking, .persist orderId 0]
        (w', r.finish (.ok (newOrder orderId r.agentId r.payload offer booking))) ∧
      Created w.db w'.db (newOrder orderId r.agentId r.payload offer booking)
        (newRecord r.agentId r.idempotencyKey (r.payloadHash sha256) orderId) := by
  obtain ⟨db', hpersist⟩ :=
    createOrderPersist_of_unstored r.payload (r.payloadHash sha256) offer 0 hk
    hid href hkey
  have hreplay : CreateOrder.advance sha256 w r .replay =
      some (w, { r with phase := .unseen }) := by
    simp only [CreateOrder.advance, hr, CreateOrder.replay, idempotentOrder_none hkey]
  have hcheck : CreateOrder.advance sha256 w { r with phase := .unseen } (.checkOffer now) =
      some (w, { r with phase := .offered offer }) := by
    simp only [CreateOrder.advance, createOrderOffer, hoffer, if_neg (not_le.mpr hnow)]
  let called := w.called (.bookCalled offer.providerOfferId r.idempotencyKey)
  have hstored : CreateOrder.advance sha256 called { r with phase := .booked offer booking }
      (.persist orderId 0) = some (called.commit db'
        [.orderCommitted r.agentId r.idempotencyKey r.payload orderId],
        r.finish (.ok (newOrder orderId r.agentId r.payload offer booking))) := by
    have hhash : CreateOrder.payloadHash sha256 { r with phase := .booked offer booking } =
        r.payloadHash sha256 := rfl
    simp only [CreateOrder.advance, called, World.called_db, hhash, hpersist]
    rfl
  refine ⟨_, .cons trivial hreplay (.cons trivial hcheck (.cons trivial rfl (.cons trivial rfl
    (.cons trivial hstored (.nil _))))), ?_⟩
  obtain ⟨kept, hk', _, hcr⟩ := createOrderPersist_committed hpersist
  obtain rfl := Option.some.inj (hk.symm.trans hk')
  exact hcr

/-- Alone, a call with a new key issues a new order if the balance suffices. -/
theorem At.exists_issued (hat : At w.db a o none) (hc : Coupled w.db) (hown : o.agentId = a.id)
    (hnew : o.New) (hfunds : o.amount ≤ a.balance) {key transactionId : String}
    {ticket : ProviderTicket} (hfits : Fits 64 ticket.ticketNumber)
    (hid : ∀ u ∈ w.db.transactions, u.id ≠ transactionId)
    (hpay : ∀ u ∈ w.db.transactions, u.idempotencyKey ≠ key)
    (hkey : ∀ p ∈ w.db.orders, p.issueIdempotencyKey ≠ some key)
    (htk : ∀ p ∈ w.db.orders, p.ticketNumber ≠ some ticket.ticketNumber) :
    ∃ w', IssueOrder.program.alone.Run (w, ⟨a.id, o.id, key, .requested⟩)
        [.hold transactionId, .call, .answer ticket, .capture 0]
        (w', ⟨a.id, o.id, key, .done (.ok ((o.holding key).ticketed ticket,
          { a with balance := a.balance - o.amount }, .captured))⟩) ∧
      At w'.db { a with balance := a.balance - o.amount } ((o.holding key).ticketed ticket)
        (some ((newHold o key transactionId).withStatus .captured)) := by
  have hissued : o.status ≠ .issued := by simp [hnew.status]
  have hw : holdWrites o a none key = true :=
    holdWrites_iff.mpr ⟨hissued, by simp [Order.otherKey, hnew.key], Or.inr hfunds⟩
  have hfree : keyFree w.db.orders.rows w.db.transactions.rows o none key = true :=
    keyFree_iff.mpr ⟨fun p hp hpk => absurd hpk (hkey p hp), fun _ => hpay⟩
  obtain ⟨debit, db', hhold⟩ := hat.exists_hold hown hw hid hfree
  obtain ⟨t, debit', hr, hm⟩ := hat.hold_moved hissued hhold
  obtain rfl : debit = debit' := (HoldResult.held.inj hr).2
  obtain ⟨hmove, hat'⟩ := hm.at hc.onePayment hat rfl rfl
  have htid := hat.hold_id hissued hhold hm hc.onePayment
  have hdebit : t = newHold o key transactionId ∧ debit = some o.amount := by
    generalize hes : debit.toList.map (Event.debited a.id o.id) = es at hmove
    cases hmove with
    | debit _ _ _ =>
      cases debit with
      | none => cases hes
      | some amount =>
        simp only [Option.toList_some, List.map_cons, List.map_nil, List.cons.injEq,
          Event.debited.injEq] at hes
        exact ⟨by rw [← htid]; rfl, by simp [hes]⟩
  obtain ⟨rfl, rfl⟩ := hdebit
  have hbalance : a.balance + (((some o.amount).toList.map
      (Event.debited a.id o.id)).map Event.delta).sum = a.balance - o.amount := by
    simp [Event.delta, sub_eq_add_neg]
  rw [hbalance] at hat'
  have hstart : IssueOrder.advance w ⟨a.id, o.id, key, .requested⟩ (.hold transactionId) =
      some (w.commit db' [.debited a.id o.id o.amount],
        ⟨a.id, o.id, key, .held o.providerBookingId⟩) := by
    simp only [IssueOrder.advance, hhold]
    rfl
  have htk' : ∀ p ∈ db'.orders, p.ticketNumber = some ticket.ticketNumber → p.id = o.id := by
    intro p hp hpt
    rcases hm.mem_orders.mp hp with rfl | ⟨hp, _⟩
    · rfl
    · exact absurd hpt (htk p hp)
  obtain ⟨w', hrun, hat''⟩ := At.exists_ticketed (w := w.commit db' [.debited a.id o.id o.amount])
    hat' (hm.coupled hc).onePayment hown (by simp [Order.holding]) key o.providerBookingId
    hfits htk'
  exact ⟨w', .cons trivial hstart hrun, hat''⟩

end Calls

section Runs

variable {d : Deployment} {w : World} {c : Serving} {as : List (Action Job JobChoice)}
  {G : Serving → Action Job JobChoice → Prop} {j : Journey}

/-- A new search and a run on it store the offers of the answer. -/
theorem exists_searched (hd : d.Dispatches) (hI : Recorded c.store.world.db)
    (hj : j.Possible d.provider c.store.world.db) {ids : JourneyIds}
    (hids : ids.New c.store.world.db) :
    ∃ c', (serving d).machine.Run c (j.searchSteps ids c.procs.length) c' ∧
      j.Searched d ids c c' := by
  obtain ⟨s₁, hrun₁, hst, hdispatched⟩ :=
    exists_started hd (r := j.search .requested) rfl j.stores j.searchedAt hids.search
  have hq : j.newSearch d ids ∈ s₁.world.db.searches := hst.mem_searches.mpr (Or.inr rfl)
  have hclash : ¬ Clashes s₁.world.db
      (newOffers d.provider ids.searchId ids.offerId j.kept) := by
    apply not_clashes_newOffers hids.injective
    · rw [hst.offers]
      exact hids.offers
    · exact hj.distinct
    · rw [hst.offers]
      exact hj.offers
  have hf : ¬ (j.newSearch d ids).status.Final := by
    change ¬ SearchStatus.pending.Final
    decide
  obtain ⟨w₂, db₁, hrun₂, hw₁, hw₂⟩ := exists_processed j.searchedAt hq hf hj.itemsKept hclash
  let c₁ : Serving := ⟨s₁, c.procs ++ [.inl (j.search (.done (.ok (j.newSearch d ids))))]⟩
  have h₁ : (serving d).machine.Run c (.spawn (.inl (j.search .requested)) ::
      ((j.searchChoices ids).map .inl).map (.advance c.procs.length)) c₁ :=
    Program.run_of_fresh rfl (serving_fresh_start.mpr rfl) (Program.alone_inl hrun₁)
  have h₂ := Program.run_of_fresh (P := serving d) (c := c₁) (n := c.procs.length + 1)
    List.length_append (serving_fresh_process.mpr rfl) (serving_alone_process hrun₂)
  have hnil : c.store.world.db.offersOf ids.searchId = [] := by
    rw [List.eq_nil_iff_forall_not_mem]
    intro o ho
    obtain ⟨hmem, hid⟩ := mem_offersOf.mp ho
    obtain ⟨q, hq, hqid⟩ := hI.owned o hmem
    exact hids.search q hq (hqid.trans hid)
  have hoffersOf : w₂.db.offersOf ids.searchId =
      newOffers d.provider ids.searchId ids.offerId j.kept := by
    have hstored : s₁.world.db.offersOf ids.searchId = [] := by
      rw [← hnil, Database.offersOf, hst.offers, Database.offersOf]
    have hstarted : db₁.offersOf ids.searchId = s₁.world.db.offersOf ids.searchId ++ [] :=
      hw₁.offersOf_self
    have hsaved : w₂.db.offersOf ids.searchId = db₁.offersOf ids.searchId ++ _ :=
      hw₂.offersOf_self
    rw [hsaved, hstarted, hstored]
    rfl
  refine ⟨_, h₁.append h₂, ?_⟩
  constructor
  · exact List.append_assoc c.procs _ _
  · exact hdispatched
  · exact searchGet_eq_ok.mpr
      ⟨hw₂.mem_searches.mpr (Or.inl rfl), rfl, rfl, congrArg _ hoffersOf.symm⟩
  · exact hw₂.agents.trans (hw₁.agents.trans hst.agents)
  · exact hw₂.orders.trans (hw₁.orders.trans hst.orders)
  · exact hw₂.transactions.trans (hw₁.transactions.trans hst.transactions)
  · exact hw₂.records.trans (hw₁.records.trans hst.records)

/-- An offer that is shown to its agent can be bought. -/
theorem exists_bought (hc : Coupled c.store.world.db) (hj : j.Payable c.store.world.db)
    {ids : JourneyIds} {q : FlightSearch}
    (hshown : searchGet c.store.world.db ids.searchId j.agent.id =
      .ok (q, newOffers d.provider ids.searchId ids.offerId j.kept))
    (horder : ∀ o ∈ c.store.world.db.orders, o.id ≠ ids.orderId)
    (htransaction : ∀ t ∈ c.store.world.db.transactions, t.id ≠ ids.transactionId) :
    ∃ c', (serving d).machine.Run c (j.buySteps ids c.procs.length) c' ∧ j.Bought d ids c c' := by
  have hoffer : agentOffer c.store.world.db j.agent.id (ids.offerId j.place) =
      some (j.offer d ids) := by
    obtain ⟨hq, hid, hag, hof⟩ := searchGet_eq_ok.mp hshown
    obtain ⟨hlt, hitem⟩ := List.getElem?_eq_some_iff.mp hj.item
    have hnew : j.offer d ids ∈ newOffers d.provider ids.searchId ids.offerId j.kept := by
      rw [Journey.offer, ← hitem]
      exact List.mem_mapIdx.mpr ⟨j.place, hlt, rfl⟩
    have hmem : j.offer d ids ∈ c.store.world.db.offersOf q.id :=
      (Multiset.coe_eq_coe.mp hof).subset hnew
    exact agentOffer_iff.mpr ⟨(mem_offersOf.mp hmem).1, rfl, offerOwned_iff.mpr ⟨q, hq, hid, hag⟩⟩
  obtain ⟨w₁, hrun₁, hcr⟩ := exists_created d.sha256 (r := j.create ids .requested) rfl hoffer
    hj.unexpired (ProviderBooking.kept_of_fits hj.bookingFits.1 hj.bookingFits.2) horder
    hj.reference hj.createKey
  have hnew : (j.order d ids).New := newOrder_new ..
  have hold (p : Order) (hp : p ∈ w₁.db.orders) :
      p ∈ c.store.world.db.orders ∨ p = j.order d ids := hcr.mem_orders.mp hp
  have hat : At w₁.db j.agent (j.order d ids) none := by
    constructor
    · rw [hcr.agents]
      exact hj.agent_mem
    · exact hcr.mem_orders.mpr (Or.inr rfl)
    · exact hcr.transactionOf.trans (hcr.transactionOf_self hc)
  have hkey : ∀ p ∈ w₁.db.orders, p.issueIdempotencyKey ≠ some j.issueKey := by
    intro p hp
    rcases hold p hp with hp | rfl
    · exact hj.issueKey p hp
    · simp [hnew.key]
  have hticket : ∀ p ∈ w₁.db.orders, p.ticketNumber ≠ some j.ticket.ticketNumber := by
    intro p hp
    rcases hold p hp with hp | rfl
    · exact hj.ticket p hp
    · simp [hnew.ticket]
  rw [← hcr.transactions] at htransaction
  obtain ⟨w₂, hrun₂, hpaid⟩ := hat.exists_issued (hcr.coupled hnew hc) rfl hnew hj.funds
    hj.ticketFits htransaction (hcr.transactions ▸ hj.paymentKey) hkey hticket
  have hkept : SearchesKept w₁.db w₂.db := by
    refine hrun₂.invariant (I := fun s => SearchesKept w₁.db s.1.db) ?_ ⟨rfl, rfl⟩
    intro s x s' _ hs hk
    obtain ⟨hsearches, hoffers⟩ := IssueOrder.searchesKept hs
    exact ⟨hsearches.trans hk.searches, hoffers.trans hk.offers⟩
  let c₁ : Serving := ⟨c.store.withWorld w₁,
    c.procs ++ [.inr (.inr (.inl (j.create ids (.done (.ok (j.order d ids))))))]⟩
  have h₁ : (serving d).machine.Run c (.spawn (.inr (.inr (.inl (j.create ids .requested)))) ::
      ((((j.createChoices ids).map .inl).map .inr).map .inr).map (.advance c.procs.length)) c₁ :=
    Program.run_of_fresh rfl rfl (serving_alone_book (Program.alone_inl hrun₁))
  have h₂ := Program.run_of_fresh (P := serving d) (c := c₁) (n := c.procs.length + 1)
    List.length_append rfl (serving_alone_book (Program.alone_inr hrun₂))
  refine ⟨_, h₁.append h₂, ?_⟩
  constructor
  · exact List.append_assoc c.procs _ _
  · exact hpaid
  · exact hkept.searches.trans hcr.searches
  · exact hkept.offers.trans hcr.offers

/-- From every reachable state, whatever calls have crashed, four new calls take an agent from a
search to a ticket, if the balance suffices and the provider answers with what the columns take and
what is new. -/
theorem journey_can_complete (hd : d.Dispatches) (ha : OnlyAgents w.db)
    (h : (serving d).machine.RunWhere G (Program.start (Platform.start w)) as c)
    (hj : j.Possible d.provider c.store.world.db) {ids : JourneyIds}
    (hids : ids.New c.store.world.db) :
    ∃ c₁ c₂, (serving d).machine.Run c (j.searchSteps ids c.procs.length) c₁ ∧
      j.Searched d ids c c₁ ∧
      (serving d).machine.Run c₁ (j.buySteps ids c₁.procs.length) c₂ ∧ j.Bought d ids c₁ c₂ := by
  have hc := (steady_of_run h (steady_start (s := Platform.start w) ha.unpaid.coupled)).1
  obtain ⟨c₁, hrun₁, hsearched⟩ := exists_searched hd (recorded_of_run ha h) hj hids
  have hpayable : j.Payable c₁.store.world.db := by
    constructor
    · rw [hsearched.agents]
      exact hj.agent_mem
    · exact hj.item
    · exact hj.funds
    · exact hj.unexpired
    · rw [hsearched.records]
      exact hj.createKey
    · exact hj.bookingFits
    · rw [hsearched.orders]
      exact hj.reference
    · rw [hsearched.orders]
      exact hj.issueKey
    · rw [hsearched.transactions]
      exact hj.paymentKey
    · exact hj.ticketFits
    · rw [hsearched.orders]
      exact hj.ticket
  obtain ⟨c₂, hrun₂, hbought⟩ := exists_bought
    (hc.congr hsearched.orders hsearched.transactions) hpayable hsearched.shown
    (hsearched.orders ▸ hids.order) (hsearched.transactions ▸ hids.transaction)
  exact ⟨c₁, c₂, hrun₁, hsearched, hrun₂, hbought⟩

end Runs

def Example.journey : Journey where
  agent := agent
  request := searchRequest
  stores := stores_searchRequest
  items := [item]
  kept := [{ item with totalAmount := ⟨10000, -2⟩ }]
  place := 0
  item := { item with totalAmount := ⟨10000, -2⟩ }
  passenger := payload.passenger
  createKey := "create"
  booking := providerBooking
  issueKey := "issue"
  ticket := ticket
  searchedAt := 200
  bookedAt := 300

theorem Example.possible_journey {db : Database} (hagents : db.agents.rows = [agent])
    (hoffers : db.offers.rows = []) (horders : db.orders.rows = [])
    (htransactions : db.transactions.rows = []) (hrecords : db.records.rows = []) :
    journey.Possible "mock-air" db where
  agent_mem := by simp [Table.mem_def, hagents, journey]
  item := rfl
  funds := by decide
  unexpired := by decide
  createKey := by simp [Table.mem_def, hrecords]
  bookingFits := by decide
  reference := by simp [Table.mem_def, horders]
  issueKey := by simp [Table.mem_def, horders]
  paymentKey := by simp [Table.mem_def, htransactions]
  ticketFits := by decide
  ticket := by simp [Table.mem_def, horders]
  itemsKept := rfl
  distinct := by decide
  offers := by simp [Table.mem_def, hoffers]

def Example.journeyIds : JourneyIds where
  searchId := "second"
  offerId i := String.ofList (List.replicate i '0')
  orderId := "order"
  transactionId := "transaction"

theorem Example.journeyIds_new {db : Database}
    (hsearches : db.searches.rows.map (·.id) = ["search"]) (hoffers : db.offers.rows = [])
    (horders : db.orders.rows = []) (htransactions : db.transactions.rows = []) :
    journeyIds.New db where
  injective i k h := by
    have hlen := congrArg (fun s : String => s.toList.length) h
    simpa [journeyIds] using hlen
  search q hq := by
    have hid : q.id ∈ db.searches.rows.map (·.id) := List.mem_map_of_mem hq
    rw [hsearches, List.mem_singleton] at hid
    rw [hid]
    decide
  offers := by simp [Table.mem_def, hoffers]
  order := by simp [Table.mem_def, horders]
  transaction := by simp [Table.mem_def, htransactions]

/-- After a call of `start` has crashed before its dispatch the agent still gets to a ticket. -/
theorem journey_can_complete_crashedStart : ∃ (c c' : Serving) (o : Order),
    c.procs.length = 1 ∧ c.store.queue = [] ∧ o ∈ c'.store.world.db.orders ∧
    o.ticketNumber = some "250-0000000001" ∧ o.status = .issued ∧
    { Example.agent with balance := 20000 } ∈ c'.store.world.db.agents := by
  have hrun : ((serving Example.deployment).machine.exec
      (Program.start (Platform.start Example.bare))
      (.spawn (Example.startCall 100) :: Example.startSteps 0)).any (fun c =>
        c.procs.length = 1 ∧ c.store.queue = [] ∧ c.store.world.db.agents.rows = [Example.agent] ∧
          c.store.world.db.searches.rows.map (·.id) = ["search"] ∧
          c.store.world.db.offers.rows.length = 0 ∧ c.store.world.db.orders.rows.length = 0 ∧
          c.store.world.db.transactions.rows.length = 0 ∧
          c.store.world.db.records.rows.length = 0) = true := by
    decide +kernel
  obtain ⟨c, hc, hst⟩ := (Option.any_eq_true ..).mp hrun
  simp only [decide_eq_true_eq, List.length_eq_zero_iff] at hst
  obtain ⟨hprocs, hqueue, hagents, hsearches, hoffers, horders, htransactions, hrecords⟩ := hst
  obtain ⟨c₁, c₂, _, _, _, hbought⟩ := journey_can_complete (Or.inr rfl)
    ⟨rfl, rfl, rfl, rfl, rfl, rfl⟩ (Machine.exec_eq_some_iff.mp hc)
    (Example.possible_journey hagents hoffers horders htransactions hrecords)
    (Example.journeyIds_new hsearches hoffers horders htransactions)
  exact ⟨c, c₂, _, hprocs, hqueue, hbought.paid.order, rfl, rfl, hbought.paid.agent⟩

end Ioka
