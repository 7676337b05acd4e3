import Ioka.Platform.Reads
import Ioka.Platform.StatusAudit
import Ioka.Search.CachedAnswers

/-! # Isolation of agents

Some blocks read a row by its id alone. What they find is still the agent's own:
a cache entry names a search of the agent in its key, a record an order of its own
agent, and a request past its hold an order of its agent. So no request returns or
writes a row of another agent.
-/

namespace Ioka

open Relational Transition

/-- The offer belongs to a search of the agent. -/
def Database.offerOwned (db : Database) (agentId : String) (offer : Offer) : Bool :=
  db.searches.rows.any fun s => s.id = offer.searchId ∧ s.agentId = agentId

/-- All rows but the agent's are the same, so every row written is the agent's. -/
structure Untouched (agentId : String) (db db' : Database) : Prop where
  agents : db'.agents.rows.filter (fun a => a.id ≠ agentId) =
    db.agents.rows.filter fun a => a.id ≠ agentId
  searches : db'.searches.rows.filter (fun s => s.agentId ≠ agentId) =
    db.searches.rows.filter fun s => s.agentId ≠ agentId
  offers : db'.offers.rows.filter (fun o => !db'.offerOwned agentId o) =
    db.offers.rows.filter fun o => !db.offerOwned agentId o
  orders : db'.orders.rows.filter (fun o => o.agentId ≠ agentId) =
    db.orders.rows.filter fun o => o.agentId ≠ agentId
  transactions : db'.transactions.rows.filter (fun t => t.agentId ≠ agentId) =
    db.transactions.rows.filter fun t => t.agentId ≠ agentId
  records : db'.records.rows.filter (fun r => r.agentId ≠ agentId) =
    db.records.rows.filter fun r => r.agentId ≠ agentId

/-- Offers have searches, orders have offers of their agents, and records name orders of theirs. -/
structure Owners (db : Database) : Prop where
  offers : ∀ o ∈ db.offers, ∃ s ∈ db.searches, s.id = o.searchId
  orders : ∀ o ∈ db.orders, ∃ offer ∈ db.offers, offer.id = o.offerId ∧
    db.offerOwned o.agentId offer = true
  records : ∀ r ∈ db.records, ∃ o ∈ db.orders, o.id = r.resourceId ∧ o.agentId = r.agentId

/-- The agent that a job works for: the caller, or the agent of the search that is processed. -/
def Job.agentId? (db : Database) : Job → Option String
  | .inl r => some r.agentId
  | .inr (.inl r) => (db.search? r.searchId).map (·.agentId)
  | .inr (.inr p) => some p.agentId

/-- What a call returned is the agent's own. -/
def Job.ReturnsOwn (db : Database) : Job → Prop
  | .inl r => ∀ search, r.phase = .done (.ok search) → search.agentId = r.agentId
  | .inr (.inl _) => True
  | .inr (.inr (.inl r)) => ∀ o, r.phase = .done (.ok o) → o.agentId = r.agentId
  | .inr (.inr (.inr r)) => ∀ o a status, r.phase = .done (.ok (o, a, status)) →
      o.agentId = r.agentId ∧ a.id = r.agentId ∧
        ∃ t ∈ db.transactions, t.orderId = o.id ∧ t.agentId = r.agentId

/-- What a call holds between two blocks is the agent's own. -/
def Job.HoldsOwn (db : Database) : Job → Prop
  | .inl r => r.Known db
  | .inr (.inr (.inl r)) =>
    match r.phase with
    | .offered offer | .booking offer | .booked offer _ | .refused offer _ =>
      db.offerOwned r.agentId offer = true
    | _ => True
  | _ => True

/-- What the reading requests of an agent return is the agent's own. -/
structure ReadsOwn (isoformat : Time → String) (db : Database) (agentId : String) : Prop where
  search : ∀ searchId s offers, searchGet db searchId agentId = .ok (s, offers) →
    s.agentId = agentId ∧ ∀ o ∈ offers, db.offerOwned agentId o = true
  offer : ∀ offerId detail, offerDetails db agentId offerId = .ok detail →
    ∃ offer ∈ db.offers, db.offerOwned agentId offer = true ∧ detail = offer.detail
  order : ∀ orderId o, getOrder db agentId orderId = .ok o → o.agentId = agentId
  ticket : ∀ orderId rows, getTicket isoformat db agentId orderId = .ok rows →
    ∃ o offer, o ∈ db.orders ∧ o.agentId = agentId ∧ offer ∈ db.offers ∧
      db.offerOwned agentId offer = true ∧ rows = some (ticketRows isoformat o offer)

section Owned

variable {db db' : Database} {agentId : String} {offer : Offer} {q : FlightSearch}

theorem offerOwned_iff : db.offerOwned agentId offer = true ↔
    ∃ s ∈ db.searches, s.id = offer.searchId ∧ s.agentId = agentId := by
  simp [Database.offerOwned, Table.mem_def]

theorem offerOwned_mono (hx : Grows db db') (h : db.offerOwned agentId offer = true) :
    db'.offerOwned agentId offer = true := by
  obtain ⟨s, hs, hid, ha⟩ := offerOwned_iff.mp h
  obtain ⟨s', hs', hss⟩ := hx.searches s hs
  exact offerOwned_iff.mpr ⟨s', hs', hss.id.trans hid, hss.agentId.trans ha⟩

theorem offerOwned_eq (hx : Grows db db') (hq : q ∈ db.searches) (hid : q.id = offer.searchId) :
    db'.offerOwned agentId offer = db.offerOwned agentId offer := by
  rw [Bool.eq_iff_iff]
  refine ⟨fun h => ?_, offerOwned_mono hx⟩
  obtain ⟨s', hs', hid', ha⟩ := offerOwned_iff.mp h
  obtain ⟨q', hq', hqq⟩ := hx.searches q hq
  obtain rfl := Database.search_ext hs' hq' (hid'.trans (hqq.id.trans hid).symm)
  exact offerOwned_iff.mpr ⟨q, hq, hid, hqq.agentId.symm.trans ha⟩

theorem agentOffer_eq_some {offerId : String} (h : agentOffer db agentId offerId = some offer) :
    offer ∈ db.offers ∧ offer.id = offerId ∧ db.offerOwned agentId offer = true := by
  obtain ⟨hm, hp⟩ := Table.mem_of_select h
  simp only [Bool.decide_and, Bool.and_eq_true, decide_eq_true_eq] at hp
  exact ⟨hm, hp.1, by simpa [Database.offerOwned] using hp.2⟩

theorem offers_untouched (offers : List Offer) (hx : Grows db db') (ho : Owners db)
    (hr : db'.offers.rows = db.offers.rows ++ offers)
    (hnew : ∀ o ∈ offers, db'.offerOwned agentId o = true) :
    db'.offers.rows.filter (fun o => !db'.offerOwned agentId o) =
      db.offers.rows.filter fun o => !db.offerOwned agentId o := by
  have hnil : offers.filter (fun o => !db'.offerOwned agentId o) = [] :=
    List.filter_eq_nil_iff.mpr fun o hmem => by simp [hnew o hmem]
  rw [hr, List.filter_append, hnil, List.append_nil]
  apply List.filter_congr
  intro o hmem
  obtain ⟨q, hq, hid⟩ := ho.offers o hmem
  rw [offerOwned_eq hx hq hid]

theorem filter_append_own {α : Type} {p : α → Bool} {l : List α} {a : α} (h : p a = false) :
    (l ++ [a]).filter p = l.filter p := by
  simp [h]

end Owned

section Writes

variable {db db' : Database} {agentId : String} {s s' : FlightSearch} {offers : List Offer}
  {a : Agent} {o o' : Order} {t? : Option BalanceTransaction} {t' : BalanceTransaction}
  {r : IdempotencyRecord} {es : List Event} {phase : Phase}

theorem Untouched.refl (agentId : String) (db : Database) : Untouched agentId db db :=
  ⟨rfl, rfl, rfl, rfl, rfl, rfl⟩

theorem Stored.untouched (h : Stored db db' s) (ho : Owners db) (hs : s.agentId = agentId) :
    Untouched agentId db db' where
  agents := by rw [h.agents]
  searches := by
    rw [h.searches]
    exact filter_append_own (by simp [hs])
  offers := offers_untouched [] h.grows ho (by rw [h.offers, List.append_nil])
    (by simp)
  orders := by rw [h.orders]
  transactions := by rw [h.transactions]
  records := by rw [h.records]

theorem Rewritten.untouched (h : Rewritten db db' s s' offers) (hss : SameSearch s s')
    (ho : Owners db) (hs : s.agentId = agentId) : Untouched agentId db db' where
  agents := by rw [h.agents]
  searches := by
    rw [h.searches]
    apply filter_amend
    intro q hq hid
    obtain rfl := Database.search_ext hq h.search_mem (by simpa using hid)
    simp [hs, hss.agentId]
  offers := by
    refine offers_untouched offers (h.grows hss) ho h.offers fun o hmem => ?_
    exact offerOwned_iff.mpr ⟨s', h.mem_searches.mpr (Or.inl rfl),
      hss.id.trans (h.owners o hmem).symm, hss.agentId.trans hs⟩
  orders := by rw [h.orders]
  transactions := by rw [h.transactions]
  records := by rw [h.records]

theorem Created.untouched (h : Created db db' o r) (ho : Owners db) (hown : o.agentId = agentId)
    (hr : r.agentId = agentId) : Untouched agentId db db' where
  agents := by rw [h.agents]
  searches := by rw [h.searches]
  offers := offers_untouched [] h.extends.grows ho (by rw [h.offers, List.append_nil])
    (by simp)
  orders := by
    rw [h.orders]
    exact filter_append_own (by simp [hown])
  transactions := by rw [h.transactions]
  records := by
    rw [h.records]
    exact filter_append_own (by simp [hr])

theorem Move.payment_agentId (h : Move phase a o t? o' t' es)
    (ht : ∀ t, t? = some t → t.agentId = o.agentId) : t'.agentId = o.agentId := by
  cases h with
  | debit => rfl
  | @debitAgain _ _ _ t | @capture _ _ _ t | @release _ _ t => exact ht t rfl
  | join => exact ht t' rfl

theorem Moved.untouched (h : Moved phase db db' a o o' t? t' es) (hc : Coupled db)
    (ho : Owners db) (ha : a.id = agentId) : Untouched agentId db db' where
  agents := by
    rw [h.agents]
    apply filter_amend
    intro b _ hid
    have hb : b.id = agentId := by simpa [ha] using hid
    simp [hb]
  searches := by rw [h.searches]
  offers := offers_untouched [] (h.extends hc.onePayment).grows ho
    (by rw [h.offers, List.append_nil]) (by simp)
  orders := by
    rw [h.orders]
    apply filter_amend
    intro p hp hid
    obtain rfl := Database.order_ext hp h.order_mem (by simpa using hid)
    simp [h.agentId, h.owner, ha]
  transactions := by
    have hpay : ∀ t, t? = some t → t.agentId = o.agentId := by
      rintro t rfl
      exact ((hc.standing o h.order_mem).payment t h.payment).2.2.1
    have hown : t'.agentId = agentId :=
      (h.move.payment_agentId hpay).trans (h.owner.trans ha)
    rcases h.transactions with ⟨_, hr⟩ | ⟨u, rfl, hr⟩
    · rw [hr]
      exact filter_append_own (by simp [hown])
    · rw [hr]
      apply filter_amend
      intro v hv hid
      obtain rfl := Database.transaction_ext hv (mem_of_transactionOf h.payment).1
        (by simpa using hid)
      simp [hown, (hpay v rfl).trans (h.owner.trans ha)]
  records := by rw [h.records]

theorem Effect.untouched {sha256 : String → String} {w w' : World} {p : Request}
    (h : Effect sha256 w p w') (hc : Coupled w.db) (ho : Owners w.db) :
    Untouched p.agentId w.db w'.db := by
  cases h with
  | quiet => exact ⟨rfl, rfl, rfl, rfl, rfl, rfl⟩
  | moved _ _ ha hm => exact hm.untouched hc ho ha
  | created _ _ hcr => exact hcr.untouched ho rfl rfl

/-! What owns a row goes on to own it, so only new rows have to be looked at. -/

theorem Owners.stored (ho : Owners db) (h : Stored db db' s) : Owners db' where
  offers o hmem := by
    rw [h.offers] at hmem
    obtain ⟨q, hq, hid⟩ := ho.offers o hmem
    exact ⟨q, h.mem_searches.mpr (Or.inl hq), hid⟩
  orders o hmem := by
    rw [h.orders] at hmem
    obtain ⟨offer, hof, hid, hown⟩ := ho.orders o hmem
    exact ⟨offer, h.grows.offers offer hof, hid, offerOwned_mono h.grows hown⟩
  records r hmem := by
    rw [h.records] at hmem
    rw [h.orders]
    exact ho.records r hmem

theorem Owners.rewritten (ho : Owners db) (h : Rewritten db db' s s' offers)
    (hss : SameSearch s s') : Owners db' where
  offers o hmem := by
    rcases h.mem_offers.mp hmem with hold | hnew
    · obtain ⟨q, hq, hid⟩ := ho.offers o hold
      obtain ⟨q', hq', hqq⟩ := (h.grows hss).searches q hq
      exact ⟨q', hq', hqq.id.trans hid⟩
    · exact ⟨s', h.mem_searches.mpr (Or.inl rfl), hss.id.trans (h.owners o hnew).symm⟩
  orders o hmem := by
    rw [h.orders] at hmem
    obtain ⟨offer, hof, hid, hown⟩ := ho.orders o hmem
    exact ⟨offer, h.mem_offers.mpr (Or.inl hof), hid, offerOwned_mono (h.grows hss) hown⟩
  records r hmem := by
    rw [h.records] at hmem
    rw [h.orders]
    exact ho.records r hmem

theorem Owners.moved (ho : Owners db) (h : Moved phase db db' a o o' t? t' es)
    (hc : Coupled db) : Owners db' where
  offers p hmem := by
    rw [h.offers] at hmem
    rw [h.searches]
    exact ho.offers p hmem
  orders p hmem := by
    have hx := (h.extends hc.onePayment).grows
    rcases h.mem_orders.mp hmem with rfl | ⟨hp, _⟩
    · obtain ⟨offer, hof, hid, hown⟩ := ho.orders o h.order_mem
      have hs := h.move.sameBooking
      exact ⟨offer, hx.offers offer hof, hid.trans hs.offerId.symm,
        hs.agentId ▸ offerOwned_mono hx hown⟩
    · obtain ⟨offer, hof, hid, hown⟩ := ho.orders p hp
      exact ⟨offer, hx.offers offer hof, hid, offerOwned_mono hx hown⟩
  records r hmem := by
    rw [h.records] at hmem
    obtain ⟨p, hp, hid, hag⟩ := ho.records r hmem
    obtain ⟨q, hq, hs⟩ := (h.extends hc.onePayment).orders p hp
    exact ⟨q, hq, hs.id.trans hid, hs.agentId.trans hag⟩

theorem Owners.created {offer : Offer} (ho : Owners db) (h : Created db db' o r)
    (hof : offer ∈ db.offers) (hid : offer.id = o.offerId)
    (hown : db.offerOwned o.agentId offer = true) (hr : o.id = r.resourceId)
    (hag : o.agentId = r.agentId) : Owners db' where
  offers p hmem := by
    rw [h.offers] at hmem
    rw [h.searches]
    exact ho.offers p hmem
  orders p hmem := by
    have hx := h.extends.grows
    rcases h.mem_orders.mp hmem with hp | rfl
    · obtain ⟨offer', hof', hid', hown'⟩ := ho.orders p hp
      exact ⟨offer', hx.offers offer' hof', hid', offerOwned_mono hx hown'⟩
    · exact ⟨offer, hx.offers offer hof, hid, offerOwned_mono hx hown⟩
  records q hmem := by
    rw [Table.mem_def, h.records, List.mem_append, List.mem_singleton] at hmem
    rcases hmem with hq | rfl
    · obtain ⟨p, hp, hpid, hpag⟩ := ho.records q hq
      exact ⟨p, h.mem_orders.mpr (Or.inl hp), hpid, hpag⟩
    · exact ⟨o, h.mem_orders.mpr (Or.inr rfl), hr, hag⟩

end Writes

section Jobs

variable {sha256 : String → String} {w w' : World} {db db' : Database} {j j' : Job}
  {d : Deployment} {s s' : Platform} {x : JobChoice}

theorem Job.HoldsOwn.mono (h : j.HoldsOwn db) (hx : Grows db db') : j.HoldsOwn db' := by
  rcases j with r | r | r | r
  · exact StartSearch.Known.mono (r := r) h hx.searches
  · trivial
  · obtain ⟨_, _, _, phase⟩ := r
    cases phase with
    | offered offer | booking offer | booked offer | refused offer => exact offerOwned_mono hx h
    | _ => trivial
  · trivial

theorem Job.ReturnsOwn.mono (h : j.ReturnsOwn db) (hx : Grows db db') : j.ReturnsOwn db' := by
  rcases j with r | r | r | r
  · exact h
  · trivial
  · exact h
  · intro o a status hp
    obtain ⟨ho, ha, t, ht, hto, hta⟩ := h o a status hp
    obtain ⟨u, hu, htu⟩ := hx.transactions t ht
    exact ⟨ho, ha, u, hu, htu.orderId.trans hto, htu.agentId.trans hta⟩

theorem Effect.owners {p : Request} (h : Effect sha256 w p w') (hc : Coupled w.db)
    (ho : Owners w.db) (hp : Job.HoldsOwn w.db (.inr (.inr p))) : Owners w'.db := by
  cases h with
  | quiet => exact ⟨ho.offers, ho.orders, ho.records⟩
  | moved _ _ _ hm => exact ho.moved hm hc
  | @created r db' orderId offer booking hph hof hcr =>
    obtain ⟨given, hph, _⟩ := hph
    have hown : w.db.offerOwned r.agentId offer = true := by
      simpa [Job.HoldsOwn, hph] using hp
    exact ho.created hcr hof rfl hown rfl rfl

theorem IssueOrder.advance_agent {r r' : IssueOrder} {y : IssueChoice} {o : Order} {a : Agent}
    {status : PaymentStatus} (h : r.advance w y = some (w', r'))
    (hr : r'.phase = .done (.ok (o, a, status))) : a.id = r.agentId := by
  unfold IssueOrder.advance at h
  split at h
  case h_1 =>
    split at h <;> cases h
    · cases hr
    · rename_i hh
      obtain ⟨_, _, _, _, haid, _, ⟨_, he, _⟩ | ⟨_, _, he, _⟩⟩ := issueOrderHold_ok hh
      · cases he
        cases hr
        exact haid
      · cases he
    · cases hr
  case h_2 | h_3 | h_4 | h_5 =>
    cases h
    cases hr
  case h_6 =>
    split at h <;> cases h <;> cases hr
  case h_7 =>
    split at h <;> cases h
    · cases hr
    · rename_i hh
      obtain ⟨_, _, _, _, _, haid, _, _, ⟨_, he, _⟩ | ⟨_, _, he, _⟩⟩ :=
        issueOrderCapture_ok hh <;>
        · cases he
          cases hr
          exact haid
  case h_8 => cases h

theorem IssueStep.returnsOwn {r r' : IssueOrder} (h : IssueStep w r w' r') (hc : Coupled w.db)
    {o : Order} {a : Agent} {status : PaymentStatus} (hr : r'.phase = .done (.ok (o, a, status))) :
    o.agentId = r.agentId ∧ ∃ t ∈ w'.db.transactions, t.orderId = o.id ∧ t.agentId = r.agentId := by
  cases h with
  | failed | unreleased | released => cases hr
  | held | called | answered | raised => cases hr
  | found _ ho _ hown hs =>
    cases hr
    obtain ⟨t, ht, _⟩ := hc.exists_captured ho hs
    obtain ⟨hmem, hto, hta⟩ := hc.payment_own ho ht
    exact ⟨hown, t, hmem, hto, hta.trans hown⟩
  | recaptured _ ho _ hown _ ht =>
    cases hr
    obtain ⟨hmem, hto, hta⟩ := hc.payment_own ho (by assumption)
    exact ⟨hown, _, hmem, hto, hta.trans hown⟩
  | @captured ticket _ db' b q t _ _ hid hb hm =>
    cases hr
    obtain ⟨_, _, hta⟩ := hc.payment_own hm.order_mem hm.payment
    have hown : q.agentId = r.agentId := hm.owner.trans hb
    exact ⟨hown, _, (hm.mem_transactions hc.onePayment).mpr (Or.inl rfl), hm.orderId,
      hta.trans hown⟩

theorem CreateStep.own {r r' : CreateOrder} (h : CreateStep sha256 w r w' r') (ho : Owners w.db)
    (hr : Job.HoldsOwn w.db (.inr (.inr (.inl r)))) :
    Job.HoldsOwn w'.db (.inr (.inr (.inl r'))) ∧ Job.ReturnsOwn w'.db (.inr (.inr (.inl r'))) := by
  have hhold : ∀ offer, r.phase = .offered offer ∨ r.phase = .booking offer →
      w.db.offerOwned r.agentId offer = true := by
    rintro offer (hp | hp) <;> simpa [Job.HoldsOwn, hp] using hr
  cases h with
  | @replayed o record _ hm hag _ _ _ hmo hid =>
    refine ⟨trivial, fun p hp => ?_⟩
    cases hp
    obtain ⟨q, hq, hqid, hqag⟩ := ho.records record hm
    obtain rfl := Database.order_ext hmo hq (hid.trans hqid.symm)
    exact hqag.trans hag
  | failed | audited | conflicted => exact ⟨trivial, fun p hp => by cases hp⟩
  | unseen => exact ⟨trivial, fun p hp => by cases hp⟩
  | @offered offer now _ hof =>
    refine ⟨?_, fun p hp => by cases hp⟩
    unfold createOrderOffer at hof
    split at hof
    · cases hof
    · rename_i offer' hsel
      split at hof
      · cases hof
      · cases hof
        exact (agentOffer_eq_some hsel).2.2
  | called hp => exact ⟨hhold _ (Or.inl hp), fun p hp => by cases hp⟩
  | answered hp | raised hp => exact ⟨hhold _ (Or.inr hp), fun p hp => by cases hp⟩
  | committed hp hcr =>
    refine ⟨trivial, fun p hp => ?_⟩
    cases hp
    rfl

theorem JobStep.untouched {agentId : String} (h : JobStep d s j x s' j')
    (hc : Coupled s.world.db) (hv : Job.Valid s.world.db j) (ho : Owners s.world.db)
    (hj : j.agentId? s.world.db = some agentId) :
    Untouched agentId s.world.db s'.world.db := by
  cases h with
  | start ha =>
    cases hj
    rcases (StartSearch.advance_step ha).db with he | ⟨db', _, _, _, he, hst⟩
    · rw [he]
      exact .refl ..
    · rw [he]
      exact hst.untouched ho rfl
  | process ha =>
    rw [Platform.withWorld_world]
    rcases (ProcessSearch.advance_step ha).db with he | ⟨q, q', offers, hid, hq, hw⟩
    · rw [he]
      exact .refl ..
    · obtain ⟨q₁, hq₁, rfl⟩ := Option.map_eq_some_iff.mp hj
      obtain ⟨hmem, hid₁⟩ := Database.search?_eq_some.mp hq₁
      obtain rfl := Database.search_ext hmem hw.search_mem (hid₁.trans hid.symm)
      exact hw.untouched hq ho rfl
  | book ha =>
    cases hj
    exact (booking_effect ha hv hc).1.untouched hc ho

/-- What a job holds and returns stays the agent's own. -/
theorem JobStep.own (hs : Function.Injective d.sha256) (h : JobStep d s j x s' j')
    (hc : Coupled s.world.db) (hv : Job.Valid s.world.db j)
    (hI : CacheSound d.sha256 s ∧ Owners s.world.db)
    (hJ : j.HoldsOwn s.world.db ∧ j.ReturnsOwn s.world.db) :
    (CacheSound d.sha256 s' ∧ Owners s'.world.db) ∧
      j'.HoldsOwn s'.world.db ∧ j'.ReturnsOwn s'.world.db := by
  have hp := h.searchesPersist
  cases h with
  | @start r r' y s' ha =>
    have hstep := StartSearch.advance_step ha
    obtain ⟨hI', hK⟩ := hstep.known hs hI.1 hJ.1
    refine ⟨⟨hI', ?_⟩, hK, fun search hd => ?_⟩
    · rcases hstep.db with he | ⟨db', _, _, _, he, hst⟩
      · rw [he]
        exact hI.2
      · rw [he]
        exact hI.2.stored hst
    · rw [StartSearch.Known, hd] at hK
      exact hK.agentId
  | process ha =>
    refine ⟨⟨hI.1.mono rfl hp, ?_⟩, trivial, trivial⟩
    rcases (ProcessSearch.advance_step ha).db with he | ⟨q, q', offers, _, hq, hw⟩
    · rw [Platform.withWorld_world, he]
      exact hI.2
    · exact hI.2.rewritten hw hq
  | @book p p' y w ha =>
    have he := (booking_effect ha hv hc).1
    refine ⟨⟨hI.1.mono rfl hp, he.owners hc hI.2 hJ.1⟩, ?_⟩
    rcases booking_step (Request.Valid.owns hv) ha with
      ⟨r, r', rfl, rfl, hb⟩ | ⟨r, r', rfl, rfl, hb⟩
    · exact hb.own hI.2 hJ.1
    · refine ⟨trivial, fun o a status hd => ?_⟩
      obtain ⟨hown, t, ht⟩ := hb.returnsOwn hc hd
      have hag : r'.agentId = r.agentId := by
        cases hb <;> rfl
      rw [hag]
      rcases Program.sum_advance ha with ⟨_, _, _, hf, _⟩ | ⟨_, _, z, hq, _, hq', hadv⟩
      · cases hf
      · cases hq
        cases hq'
        exact ⟨hown, IssueOrder.advance_agent hadv hd, t, ht⟩

theorem Job.own_of_fresh (h : (serving d).fresh j = true) : j.HoldsOwn db ∧ j.ReturnsOwn db := by
  rcases j with r | r | r | r
  · have hp : r.phase = .requested := serving_fresh_start.mp h
    exact ⟨by simp [HoldsOwn, StartSearch.Known, hp], by simp [ReturnsOwn, hp]⟩
  · exact ⟨trivial, trivial⟩
  · have hp : r.phase = .requested := (booking_fresh_create d.sha256).mp h
    exact ⟨by simp [HoldsOwn, hp], by simp [ReturnsOwn, hp]⟩
  · have hp : r.phase = .requested := (booking_fresh_issue d.sha256).mp h
    exact ⟨trivial, by simp [ReturnsOwn, hp]⟩

end Jobs

section Reads

variable {db : Database} {isoformat : Time → String} {agentId : String}

theorem Owners.readsOwn (ho : Owners db) : ReadsOwn isoformat db agentId where
  search searchId s offers h := by
    unfold searchGet at h
    split at h
    · cases h
    · rename_i q hq
      cases h
      obtain ⟨hm, hp⟩ := Table.mem_of_select hq
      simp only [Bool.decide_and, Bool.and_eq_true, decide_eq_true_eq] at hp
      refine ⟨hp.2, fun o hmem => offerOwned_iff.mpr ⟨s, hm, ?_, hp.2⟩⟩
      have hid : o.searchId = s.id := by simpa using List.of_mem_filter hmem
      exact hid.symm
  offer offerId detail h := by
    unfold offerDetails at h
    split at h
    · cases h
    · rename_i offer hsel
      cases h
      obtain ⟨hm, _, hown⟩ := agentOffer_eq_some hsel
      exact ⟨offer, hm, hown, rfl⟩
  order orderId o h := by
    unfold getOrder at h
    split at h
    · cases h
    · rename_i order hsel
      cases h
      exact (agentOrder_eq_some.mp hsel).2.2
  ticket orderId rows h := by
    obtain ⟨o, hget, h⟩ := bind_eq_ok.mp h
    split at h
    · cases h
    · cases h
      unfold getOrder at hget
      split at hget
      · cases hget
      · rename_i order hsel
        cases hget
        obtain ⟨hmo, _, hag⟩ := agentOrder_eq_some.mp hsel
        obtain ⟨offer, hof, hid, hown⟩ := ho.orders _ hmo
        have hfind : (db.offers.select fun q => q.id = o.offerId) = some offer := by
          rw [Table.select_eq_some]
          · exact ⟨hof, by simpa using hid⟩
          · intro p hp q hq h₁ h₂
            simp only [decide_eq_true_eq] at h₁ h₂
            exact Table.eq_of_col (c := fun o => some [o.id]) (by simp [Offer.uniques]) hp hq rfl
              (by simp [h₁, h₂])
        rw [hag] at hown
        exact ⟨o, offer, hmo, hag, hof, hown, by rw [hfind]; rfl⟩

end Reads

/-- No request returns or writes anything of another agent, from this state on by one step. -/
structure Isolated (d : Deployment) (isoformat : Time → String) (c : Serving) : Prop where
  writes : ∀ i x c' j agentId, (serving d).machine.step c (.advance i x) = some c' →
    c.procs[i]? = some j → j.agentId? c.store.world.db = some agentId →
    Untouched agentId c.store.world.db c'.store.world.db
  returns : ∀ j ∈ c.procs, j.ReturnsOwn c.store.world.db
  reads : ∀ agentId, ReadsOwn isoformat c.store.world.db agentId
  offers : ∀ o ∈ c.store.world.db.orders, ∃ offer ∈ c.store.world.db.offers,
    offer.id = o.offerId ∧ c.store.world.db.offerOwned o.agentId offer = true

section Runs

variable {d : Deployment} {w : World} {c : Serving} {as : List (Action Job JobChoice)}

theorem OnlyAgents.unpaid {db : Database} (h : OnlyAgents db) : Unpaid db := by
  refine ⟨h.transactions, fun o ho => ?_⟩
  simp [Table.mem_def, h.orders] at ho

theorem OnlyAgents.owners {db : Database} (h : OnlyAgents db) : Owners db := by
  refine ⟨fun o ho => ?_, fun o ho => ?_, fun r hr => ?_⟩
  · simp [Table.mem_def, h.offers] at ho
  · simp [Table.mem_def, h.orders] at ho
  · simp [Table.mem_def, h.records] at hr

/-- In every reachable state no request returns or writes a row of another agent. -/
theorem agent_isolation (hs : Function.Injective d.sha256) (ha : OnlyAgents w.db)
    (isoformat : Time → String)
    (h : (serving d).machine.Run (Program.start (Platform.start w)) as c) :
    Isolated d isoformat c := by
  have hsteady := steady_start (s := Platform.start w) ha.unpaid.coupled
  have hown : (CacheSound d.sha256 c.store ∧ Owners c.store.world.db) ∧
      ∀ j ∈ c.procs, j.HoldsOwn c.store.world.db ∧ j.ReturnsOwn c.store.world.db := by
    refine jobs_of_run (I := fun s => CacheSound d.sha256 s ∧ Owners s.world.db)
      (J := fun s j => j.HoldsOwn s.world.db ∧ j.ReturnsOwn s.world.db) ?_ ?_ h hsteady ?_ ?_
    · intro c j _ hf
      exact Job.own_of_fresh hf
    · intro c i x s j s' j' _ _ _ hc hv hI hJ hstep
      obtain ⟨hI', hJ'⟩ := hstep.own hs hc hv hI hJ
      have hx := (hstep.steady hc hv).2.2
      exact ⟨hI', hJ', fun q _ hq => ⟨hq.1.mono hx, hq.2.mono hx⟩⟩
    · refine ⟨?_, ha.owners⟩
      intro key cached searchId hget
      cases hget
    · simp [Program.start]
  obtain ⟨⟨_, ho⟩, hJ⟩ := hown
  obtain ⟨hc, hv⟩ := steady_of_run h hsteady
  refine ⟨?_, fun j hj => (hJ j hj).2, fun agentId => ho.readsOwn, ho.orders⟩
  intro i x c' j agentId hstep hj hag
  obtain ⟨q, s', q', hq, hadv, rfl⟩ := Program.step_advance_iff.mp hstep
  obtain rfl : q = j := Option.some.inj (hq.symm.trans hj)
  exact (serving_step hadv).untouched hc (hv q (List.mem_of_getElem? hq)) ho hag

/-- An agent searches, books and issues, and reads the ticket. -/
theorem agent_isolation_issued : ∃ c : Serving,
    (serving Example.deployment).machine.Run (Program.start (Platform.start Example.bare))
      Example.fullSteps c ∧
    (getTicket (fun _ => "") c.store.world.db "agent" "order").isOk = true ∧
    Isolated Example.deployment (fun _ => "") c := by
  have hrun : ((serving Example.deployment).machine.exec
      (Program.start (Platform.start Example.bare)) Example.fullSteps).map
      (fun c => (getTicket (fun _ => "") c.store.world.db "agent" "order").isOk) = some true := by
    decide +kernel
  obtain ⟨c, hc, hok⟩ := Option.map_eq_some_iff.mp hrun
  have h := Machine.exec_eq_some_iff.mp hc
  exact ⟨c, h, hok, agent_isolation Function.injective_id ⟨rfl, rfl, rfl, rfl, rfl, rfl⟩ _ h⟩

end Runs

end Ioka
