import Ioka.Booking.Keys
import Ioka.Platform.Currency
import Ioka.Provider.Mock
import Ioka.Search.Interference

/-! # What agents pay

An offer is stored as its columns keep the provider's quote, an order takes over the price of its
offer and a payment that of its order. So what the provider guarantees of its quotes holds of every
payment. With the mock airline the price is a function of the route, the date, the fare and the
number of passengers that the agent has searched for.
-/

namespace Ioka

open Relational Transition

/-- The provider's answers are of the contract, item by item. -/
def Keeps (Q : ProviderSearchRequest → ProviderOffer → Prop) (c : Serving) :
    Action Job JobChoice → Prop
  | .advance i (.inr (.inl (.answer items))) => ∀ r request, c.procs[i]? = some (.inr (.inl r)) →
      r.phase = .searching request → ∀ item ∈ items, Q request item
  | _ => True

/-- A stored offer is an item that the provider has quoted for the search of the offer, as the
columns keep it. -/
def Offer.QuotedBy (Q : ProviderSearchRequest → ProviderOffer → Prop) (db : Database)
    (offer : Offer) : Prop :=
  ∃ s ∈ db.searches, ∃ item kept provider, Q s.providerRequest item ∧ item.kept = some kept ∧
    offer = newOffer provider s.id offer.id kept

/-- The offers are quoted, and the orders have the prices of their offers. -/
structure Priced (Q : ProviderSearchRequest → ProviderOffer → Prop) (db : Database) : Prop where
  offers : ∀ offer ∈ db.offers, offer.QuotedBy Q db
  orders : PricesAgree db

/-- A run asks for a stored search, and the items that it holds are of the contract. -/
def ProcessSearch.HoldsItems (Q : ProviderSearchRequest → ProviderOffer → Prop) (db : Database)
    (r : ProcessSearch) : Prop :=
  match r.phase with
  | .started request | .searching request =>
    ∃ s ∈ db.searches, s.id = r.searchId ∧ s.providerRequest = request
  | .answered request items => (∃ s ∈ db.searches, s.id = r.searchId ∧
      s.providerRequest = request) ∧ ∀ item ∈ items, Q request item
  | _ => True

def Job.HoldsItems (Q : ProviderSearchRequest → ProviderOffer → Prop) (db : Database) : Job → Prop
  | .inr (.inl r) => r.HoldsItems Q db
  | _ => True

section Steps

variable {Q : ProviderSearchRequest → ProviderOffer → Prop} {db db' : Database}
  {offers : List Offer} {offer : Offer} {sha256 : String → String}
  {provider : String} {w w' : World} {p : Request} {r r' : ProcessSearch} {x : ProcessChoice}

theorem Offer.QuotedBy.mono (h : offer.QuotedBy Q db) (hx : Grows db db') :
    offer.QuotedBy Q db' := by
  obtain ⟨s, hs, item, kept, provider, hq, hk, he⟩ := h
  obtain ⟨s', hs', hss⟩ := hx.searches s hs
  refine ⟨s', hs', item, kept, provider, ?_, hk, ?_⟩
  · rwa [hss.providerRequest]
  · rwa [hss.id]

theorem Priced.congr (h : Priced Q db) (hx : Grows db db') (ho : db'.orders = db.orders)
    (hnew : ∀ offer ∈ db'.offers, offer ∈ db.offers ∨ offer.QuotedBy Q db') : Priced Q db' := by
  constructor
  · intro offer hof
    rcases hnew offer hof with hold | hq
    · exact (h.offers offer hold).mono hx
    · exact hq
  · intro o hmem
    rw [ho] at hmem
    obtain ⟨offer, hof, hprice⟩ := h.orders o hmem
    exact ⟨offer, hx.offers offer hof, hprice⟩

theorem ProcessSearch.HoldsItems.mono (h : r.HoldsItems Q db) (hx : Grows db db') :
    r.HoldsItems Q db' := by
  have hsearch {request : ProviderSearchRequest} :
      (∃ s ∈ db.searches, s.id = r.searchId ∧ s.providerRequest = request) →
      ∃ s ∈ db'.searches, s.id = r.searchId ∧ s.providerRequest = request := by
    rintro ⟨s, hs, hid, rfl⟩
    obtain ⟨s', hs', hss⟩ := hx.searches s hs
    exact ⟨s', hs', hss.id.trans hid, hss.providerRequest⟩
  obtain ⟨searchId, phase⟩ := r
  cases phase with
  | started | searching => exact hsearch h
  | answered request items => exact ⟨hsearch h.1, h.2⟩
  | _ => trivial

theorem ProcessStep.priced (h : ProcessStep provider w r x w' r') (hI : Priced Q w.db)
    (hr : r.HoldsItems Q w.db)
    (hx : ∀ request items, r.phase = .searching request → x = .answer items →
      ∀ item ∈ items, Q request item) :
    Priced Q w'.db ∧ r'.HoldsItems Q w'.db := by
  cases h with
  | skipped | lost | cancelled | refused | unrecorded => exact ⟨hI, trivial⟩
  | @started _ s db' hp hs _ hw =>
    have hgrows := hw.grows (.update _ _ _ _ _)
    refine ⟨hI.congr hgrows hw.orders ?_, ?_⟩
    · intro offer hof
      exact (hw.mem_offers.mp hof).imp_right (by simp)
    · obtain ⟨hm, hid⟩ := Database.search?_eq_some.mp hs
      exact ⟨_, hw.mem_searches.mpr (Or.inl rfl), hid, rfl⟩
  | called hp => exact ⟨hI, by simpa [ProcessSearch.HoldsItems, hp] using hr⟩
  | @answered request items hp =>
    refine ⟨hI, ?_, hx request items hp rfl⟩
    simpa [ProcessSearch.HoldsItems, hp] using hr
  | raised => exact ⟨hI, trivial⟩
  | @saved request items kept s newId now durationMs errorText db' hp hs hk _ hw =>
    have hgrows := hw.grows (.update _ _ _ _ _)
    obtain ⟨hm, hid⟩ := Database.search?_eq_some.mp hs
    rw [ProcessSearch.HoldsItems, hp] at hr
    obtain ⟨⟨s₀, hs₀, hid₀, rfl⟩, hitems⟩ := hr
    obtain rfl := Database.search_ext hs₀ hm (hid₀.trans hid.symm)
    refine ⟨hI.congr hgrows hw.orders ?_, trivial⟩
    intro offer hof
    refine (hw.mem_offers.mp hof).imp_right fun hnew => ?_
    obtain ⟨i, hi, rfl⟩ := List.mem_mapIdx.mp hnew
    obtain ⟨item, hitem, hik⟩ := exists_of_mem_keptItems hk (List.getElem_mem hi)
    exact ⟨_, hw.mem_searches.mpr (Or.inl rfl), item, kept[i], provider, hitems _ hitem, hik, rfl⟩
  | failed _ _ _ hw =>
    refine ⟨hI.congr (hw.grows (.update _ _ _ _ _)) hw.orders ?_, trivial⟩
    intro offer hof
    exact (hw.mem_offers.mp hof).imp_right (by simp)

theorem Effect.priced (h : Effect sha256 w p w') (hc : Coupled w.db) (hI : Priced Q w.db) :
    Priced Q w'.db := by
  have hx := h.extends hc
  constructor
  · intro offer hof
    rw [hx.offers] at hof
    exact (hI.offers offer hof).mono hx.grows
  · exact h.pricesAgree hI.orders

end Steps

section Runs

variable {Q : ProviderSearchRequest → ProviderOffer → Prop} {d : Deployment} {w : World}
  {c : Serving} {as : List (Action Job JobChoice)} {s s' : Platform} {j j' : Job} {x : JobChoice}
  {i : ℕ} {db : Database}

theorem OnlyAgents.priced (h : OnlyAgents db) : Priced Q db := by
  constructor
  · intro offer hof
    simp [Table.mem_def, h.offers] at hof
  · intro o ho
    simp [Table.mem_def, h.orders] at ho

theorem Job.HoldsItems.mono {db' : Database} (h : j.HoldsItems Q db) (hx : Grows db db') :
    j.HoldsItems Q db' := by
  rcases j with r | r | p
  · trivial
  · exact ProcessSearch.HoldsItems.mono (r := r) h hx
  · trivial

theorem Job.items_of_fresh (h : (serving d).fresh j = true) : j.HoldsItems Q db := by
  rcases j with r | r | p
  · trivial
  · have hp : r.phase = .requested := serving_fresh_process.mp h
    simp [HoldsItems, ProcessSearch.HoldsItems, hp]
  · trivial

theorem JobStep.priced (h : JobStep d c.store j x s' j') (hj : c.procs[i]? = some j)
    (hg : Keeps Q c (.advance i x)) (hc : Coupled c.store.world.db)
    (hv : Job.Valid c.store.world.db j) (hI : Priced Q c.store.world.db)
    (hJ : j.HoldsItems Q c.store.world.db) :
    Priced Q s'.world.db ∧ j'.HoldsItems Q s'.world.db := by
  cases h with
  | start ha =>
    refine ⟨?_, trivial⟩
    rcases (StartSearch.advance_step ha).db with he | ⟨db', _, _, _, he, hst⟩
    · rw [he]
      exact hI
    · rw [he]
      refine hI.congr hst.grows hst.orders fun offer hof => Or.inl ?_
      rwa [World.commit_db, hst.offers] at hof
  | @process r r' y w ha =>
    refine (ProcessSearch.advance_step ha).priced hI hJ ?_
    rintro request items hp rfl
    exact hg r request hj hp
  | book ha => exact ⟨(booking_effect ha hv hc).1.priced hc hI, trivial⟩

theorem priced_of_run (ha : OnlyAgents w.db)
    (h : (serving d).machine.RunWhere (Keeps Q) (Program.start (Platform.start w)) as c) :
    Priced Q c.store.world.db := by
  refine (jobs_of_run (I := fun s => Priced Q s.world.db)
    (J := fun s j => j.HoldsItems Q s.world.db) ?_ ?_ h (steady_start ha.unpaid.coupled) ha.priced
    (by simp [Program.start])).1
  · intro c j _ hf
    exact Job.items_of_fresh hf
  · rintro c i x s j s' j' hg rfl hj hc hv hI hJ hstep
    obtain ⟨hI', hJ'⟩ := hstep.priced hj hg hc hv hI hJ
    exact ⟨hI', hJ', fun q _ hq => hq.mono (hstep.steady hc hv).2.2⟩

/-- In every reachable state a payment is for an order of the agent who pays, at the price that the
provider has quoted for a search of that agent, as the columns keep it. -/
theorem payment_quoted (ha : OnlyAgents w.db)
    (h : (serving d).machine.RunWhere (Keeps Q) (Program.start (Platform.start w)) as c) :
    ∀ t ∈ c.store.world.db.transactions, ∃ o ∈ c.store.world.db.orders,
      ∃ offer ∈ c.store.world.db.offers, ∃ s ∈ c.store.world.db.searches, ∃ item kept,
        o.id = t.orderId ∧ o.offerId = offer.id ∧ offer.searchId = s.id ∧
        o.agentId = t.agentId ∧ s.agentId = t.agentId ∧
        Q s.providerRequest item ∧ item.kept = some kept ∧ offer.fareFamily = kept.fareFamily ∧
        t.amount = kept.totalAmount.hundredths ∧ t.currency = kept.currency := by
  intro t ht
  have hpriced := priced_of_run ha h
  obtain ⟨ho, _⟩ := traced_of_run ha h.run
  have hc := (steady_of_run h (steady_start ha.unpaid.coupled)).1
  obtain ⟨o, hmo, hid⟩ := hc.orderOf t ht
  have hpay := (hc.standing o hmo).payment t
    (hc.onePayment.transactionOf_eq_some.mpr ⟨ht, hid.symm⟩)
  obtain ⟨offer, hof, hoid, hamount, hcur⟩ := hpriced.orders o hmo
  obtain ⟨offer', hof', hoid', hown⟩ := ho.orders o hmo
  obtain rfl := Table.eq_of_col (c := fun o => some [o.id]) (by simp [Offer.uniques]) hof hof' rfl
    (by simp [hoid, hoid'])
  obtain ⟨s, hs, item, kept, provider, hq, hk, he⟩ := hpriced.offers offer hof
  obtain ⟨s', hs', hsid, hsag⟩ := offerOwned_iff.mp hown
  have hsearch : offer.searchId = s.id := by
    rw [he]
    rfl
  obtain rfl := Database.search_ext hs' hs (hsid.trans hsearch)
  refine ⟨o, hmo, offer, hof, s', hs, item, kept, hid, hoid.symm, hsearch, hpay.2.2.1.symm,
    hsag.trans hpay.2.2.1.symm, hq, hk, ?_, ?_, ?_⟩
  · rw [he]
    rfl
  · rw [hpay.1, hamount, he]
    rfl
  · rw [hpay.2.1, hcur, he]
    rfl

end Runs

/-! ## The prices of the mock airline -/

namespace MockAirlineProvider

variable (sha256 : String → String)

/-- The airline's answer to the request has the item, at some time. -/
def Quotes (request : ProviderSearchRequest) (item : ProviderOffer) : Prop :=
  ∃ now, item ∈ search sha256 request now

theorem Quotes.fare {request : ProviderSearchRequest} {item : ProviderOffer}
    (h : Quotes sha256 request item) : ∃ v ∈ variants, item.fareFamily = v.1 ∧
      item.totalAmount = ⟨basePrice sha256 request * v.2.2 * request.adults, -2⟩ ∧
      item.currency = "UZS" := by
  obtain ⟨now, hitem⟩ := h
  obtain ⟨i, hi, rfl⟩ := List.mem_mapIdx.mp hitem
  exact ⟨variants[i], List.getElem_mem hi, rfl, rfl, rfl⟩

end MockAirlineProvider

section Mock

variable {d : Deployment} {w : World} {c : Serving} {as : List (Action Job JobChoice)}
  {s s' : Platform} {j j' : Job} {x : JobChoice} {G : Serving → Action Job JobChoice → Prop}

theorem JobStep.covered (h : JobStep d s j x s' j') (hc : Coupled s.world.db)
    (hv : Job.Valid s.world.db j) {agentId : String} (hI : Covered agentId s.world) :
    Covered agentId s'.world := by
  cases h with
  | start ha =>
    rcases (StartSearch.advance_step ha).db with he | ⟨db', _, _, _, he, hst⟩
    · rw [he]
      exact hI
    · rw [he]
      intro hamt
      rw [World.commit_db, hst.agents]
      rw [World.commit_db, hst.orders] at hamt
      exact hI hamt
  | @process _ _ _ w ha =>
    rcases (ProcessSearch.advance_step ha).db with he | ⟨q, q', offers, _, _, hw⟩
    · intro hamt
      rw [Platform.withWorld_world, he] at hamt ⊢
      exact hI hamt
    · intro hamt
      rw [Platform.withWorld_world, hw.agents]
      rw [Platform.withWorld_world, hw.orders] at hamt
      exact hI hamt
  | book ha => exact (booking_effect ha hv hc).1.covered hc hI

theorem covered_of_run (ha : OnlyAgents w.db) {agentId : String}
    (hbal : ∀ a ∈ w.db.agents, a.id = agentId → 0 ≤ a.balance)
    (h : (serving d).machine.RunWhere G (Program.start (Platform.start w)) as c) :
    Covered agentId c.store.world := by
  refine (jobs_of_run (I := fun s => Covered agentId s.world) (J := fun _ _ => True)
    (fun _ _ _ _ => trivial) ?_ h (steady_start ha.unpaid.coupled) (fun _ => hbal) (by simp)).1
  intro c i x s j s' j' _ _ _ hc hv hI _ hstep
  exact ⟨hstep.covered hc hv hI, trivial, fun _ _ _ => trivial⟩

theorem MockAirlineProvider.Quotes.priced {q : FlightSearch} {item kept : ProviderOffer}
    (h : Quotes d.sha256 q.providerRequest item) (hk : item.kept = some kept) :
    ∃ v ∈ variants, kept.fareFamily = v.1 ∧ kept.currency = "UZS" ∧
      kept.totalAmount.hundredths = basePrice d.sha256 q.providerRequest * v.2.2 * q.adults ∧
      65000000 ≤ kept.totalAmount.hundredths ∧ kept.totalAmount.hundredths < 1890000000 := by
  have hadults : 1 ≤ q.adults ∧ q.adults ≤ 9 := q.adults_bounds
  have hsame : item.kept = some item := by
    obtain ⟨now, hitem⟩ := h
    exact kept_search d.sha256 q.origin_fits q.destination_fits hadults hitem
  obtain rfl := Option.some.inj (hsame.symm.trans hk)
  obtain ⟨v, hv, hfare, hamount, hcur⟩ := h.fare
  have hprice : item.totalAmount.hundredths =
      basePrice d.sha256 q.providerRequest * v.2.2 * q.adults := by
    rw [hamount, Decimal.hundredths_mk]
    rfl
  exact ⟨v, hv, hfare, hcur, hprice, hprice ▸ price_bounds d.sha256 q.providerRequest hv hadults⟩

/-- With the mock airline every payment is positive and is the price of the route, the date, the
fare and the passengers that the paying agent has searched for; and a balance that was not negative
at the start never becomes negative. -/
theorem mock_price (ha : OnlyAgents w.db)
    (h : (serving d).machine.RunWhere (Keeps (MockAirlineProvider.Quotes d.sha256))
      (Program.start (Platform.start w)) as c) :
    (∀ t ∈ c.store.world.db.transactions, ∃ o ∈ c.store.world.db.orders,
      ∃ offer ∈ c.store.world.db.offers, ∃ s ∈ c.store.world.db.searches,
      ∃ v ∈ MockAirlineProvider.variants, o.id = t.orderId ∧ o.offerId = offer.id ∧
        offer.searchId = s.id ∧ s.agentId = t.agentId ∧ offer.fareFamily = v.1 ∧
        t.amount = MockAirlineProvider.basePrice d.sha256 s.providerRequest * v.2.2 * s.adults ∧
        t.currency = "UZS" ∧ 65000000 ≤ t.amount ∧ t.amount < 1890000000) ∧
    ∀ a ∈ c.store.world.db.agents, ∀ a₀ ∈ w.db.agents, a₀.id = a.id → 0 ≤ a₀.balance →
      0 ≤ a.balance := by
  constructor
  · intro t ht
    obtain ⟨o, ho, offer, hof, s, hs, item, kept, hid, hoid, hsid, _, hag, hq, hk, hfare, hamount,
      hcur⟩ := payment_quoted ha h t ht
    obtain ⟨v, hv, hvfare, hvcur, hprice, hlo, hhi⟩ := hq.priced hk
    rw [← hamount] at hprice hlo hhi
    exact ⟨o, ho, offer, hof, s, hs, v, hv, hid, hoid, hsid, hag, hfare.trans hvfare, hprice,
      hcur.trans hvcur, hlo, hhi⟩
  · intro a hmem a₀ ha₀ hid hbal
    have hstart : ∀ b ∈ w.db.agents, b.id = a.id → 0 ≤ b.balance := by
      intro b hb hbid
      rwa [Database.agent_ext hb ha₀ (hbid.trans hid.symm)]
    refine covered_of_run ha hstart h (fun o ho => ?_) a hmem rfl
    have hpriced := priced_of_run ha h
    obtain ⟨offer, hof, _, hamount, _⟩ := hpriced.orders o ho
    obtain ⟨s, hs, item, kept, provider, hq, hk, he⟩ := hpriced.offers offer hof
    obtain ⟨_, _, _, _, _, hlo, _⟩ := hq.priced hk
    have htotal : offer.totalAmount = kept.totalAmount.hundredths := by
      rw [he]
      rfl
    rw [hamount, htotal]
    exact le_trans (by norm_num) hlo

end Mock

namespace Example

def asking : ProviderSearchRequest :=
  (newSearch settings "search" "agent" searchRequest stores_searchRequest 100).providerRequest

/-- A run of `process` gets the three offers of the mock airline, and stores them. -/
def mockSteps : List (Action Job JobChoice) :=
  [.advance 1 (.inr (.inl (.answer (MockAirlineProvider.search id asking 0)))),
    .advance 1 (.inr (.inl (.save (fun i => if i = 0 then "offer" else "offer-" ++ toString i) 300
      5 "")))]

/-- The agent, with a million sums, searches, books and issues. -/
def rich : World where
  db := { bare.db with agents := ⟨[{ agent with balance := 100000000 }], by simp⟩ }
  history := []

def boughtSteps : List (Action Job JobChoice) :=
  .spawn (startCall 100) :: startSteps 0 ++ [.advance 0 (.inl (.dispatch none)),
    .spawn processRun] ++ callSteps 1 ++ mockSteps ++
  bookJobs 2 (bookSteps ++ .spawn (issueRequest "issue") :: issueSteps 1)

/-- The airline is asked for the route and the date of the search. -/
def asked (c : Serving) : Action Job JobChoice → Bool
  | .advance i (.inr (.inl (.answer _))) => match c.procs[i]? with
    | some (.inr (.inl r)) => match r.phase with
      | .searching request => request = asking
      | _ => true
    | _ => true
  | _ => true

theorem keeps_of_asked {c : Serving} {a : Action Job JobChoice} (h : asked c a = true)
    (ha : a ∈ boughtSteps) : Keeps (MockAirlineProvider.Quotes id) c a := by
  unfold Keeps
  split
  · rename_i i items
    intro r request hi hp item hitem
    have hreq : request = asking := by simpa [asked, hi, hp] using h
    have hitems : i = 1 ∧ items = MockAirlineProvider.search id asking 0 := by
      simpa [boughtSteps, startSteps, callSteps, mockSteps, bookJobs, bookSteps, issueSteps,
        processRun, startCall] using ha
    rw [hreq]
    exact ⟨0, hitems.2 ▸ hitem⟩
  · trivial

end Example

/-- The agent pays the price of the cheapest fare. -/
theorem mock_price_bought : ∃ (c : Serving) (t : BalanceTransaction),
    c.store.world.db.transactions.rows = [t] ∧ 65000000 ≤ t.amount ∧
    ∀ a ∈ c.store.world.db.agents, a.id = "agent" → 0 ≤ a.balance := by
  have hrun : ((serving Example.deployment).machine.execWhere (fun c a => Example.asked c a)
      (Program.start (Platform.start Example.rich)) Example.boughtSteps).map
        (fun c => c.store.world.db.transactions.rows.length) = some 1 := by
    decide +kernel
  obtain ⟨c, hc, hlen⟩ := Option.map_eq_some_iff.mp hrun
  have h := (Machine.runWhere_of_execWhere hc).mono_of_mem fun _ _ => Example.keeps_of_asked
  obtain ⟨t, ht⟩ := List.length_eq_one_iff.mp hlen
  obtain ⟨hpaid, hbal⟩ := mock_price ⟨rfl, rfl, rfl, rfl, rfl, rfl⟩ h
  obtain ⟨_, _, _, _, _, _, _, _, _, _, _, _, _, _, _, hlo, _⟩ :=
    hpaid t (by rw [Table.mem_def, ht]; exact List.mem_singleton_self t)
  refine ⟨c, t, ht, hlo, fun a ha hid => ?_⟩
  exact hbal a ha _ (List.mem_singleton_self _) hid.symm (by decide)

end Ioka
