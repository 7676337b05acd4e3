import Ioka.Platform.Isolation
import Ioka.Search.Redelivery

/-! # The currency of payments

No block compares currencies: an offer is stored as an item of an answer of the
provider, an order takes the currency of its offer and a payment that of its order,
while the balance is in the currency of the agent. So a payment is in the agent's
currency if every quote for the agent's searches was.
-/

namespace Ioka

open Relational Transition

/-- Every balance transaction is in the currency of the agent whose balance it debited. -/
def OneCurrency (db : Database) : Prop :=
  ∀ t ∈ db.transactions, ∃ a ∈ db.agents, a.id = t.agentId ∧ t.currency = a.currency

/-- A quote for the search is in the currency of the agent who searches. -/
def Database.quotedFor (db : Database) (searchId currency : String) : Bool :=
  db.searches.rows.all fun s => s.id ≠ searchId ∨
    db.agents.rows.all fun a => a.id ≠ s.agentId ∨ currency = a.currency

/-- The provider quotes in the currency of the agent whose search it answers. -/
def quotedForAgent (c : Serving) : Action Job JobChoice → Bool
  | .advance i (.inr (.inl (.answer items))) =>
    match c.procs[i]? with
    | some (.inr (.inl r)) => items.all fun item => item.kept.all fun kept =>
        c.store.world.db.quotedFor r.searchId kept.currency
    | _ => true
  | _ => true

/-- The offer is an item of an answer that the provider gave to a run on its search, as the
columns keep it. -/
def Offer.AnsweredBy (provider : String) (as : List (Action Job JobChoice)) (c : Serving)
    (offer : Offer) : Prop :=
  ∃ items, Answered as c offer.searchId items ∧ ∃ item ∈ items, ∃ kept, item.kept = some kept ∧
    offer = newOffer provider offer.searchId offer.id kept

/-- The items that a run holds are an answer of the provider. -/
def ProcessSearch.HoldsAnswer (as : List (Action Job JobChoice)) (c : Serving)
    (r : ProcessSearch) : Prop :=
  match r.phase with
  | .answered _ items => Answered as c r.searchId items
  | _ => True

/-- Orders are in the currency of their offers, and payments are by agents. -/
structure Traced (db : Database) : Prop where
  orders : ∀ o ∈ db.orders, ∃ offer ∈ db.offers, offer.id = o.offerId ∧ o.currency = offer.currency
  agents : ∀ t ∈ db.transactions, ∃ a ∈ db.agents, a.id = t.agentId

/-- The offers were quoted in the currency of the agent who searched. -/
def Quoted (db : Database) : Prop :=
  ∀ offer ∈ db.offers, db.quotedFor offer.searchId offer.currency = true

/-- A run past its first block is about a stored search, and the quotes that it holds are in
the currency of the search's agent. -/
def ProcessSearch.HoldsQuotes (db : Database) (r : ProcessSearch) : Prop :=
  match r.phase with
  | .started _ | .searching _ => ∃ q ∈ db.searches, q.id = r.searchId
  | .answered _ items => (∃ q ∈ db.searches, q.id = r.searchId) ∧
    ∀ item ∈ items, ∀ kept, item.kept = some kept →
      db.quotedFor r.searchId kept.currency = true
  | _ => True

def Job.HoldsQuotes (db : Database) : Job → Prop
  | .inr (.inl r) => r.HoldsQuotes db
  | _ => True

/-- A booking request holds an offer of its agent. -/
def Job.HoldsOffer (db : Database) : Job → Prop
  | .inr j => Job.HoldsOwn db (.inr j)
  | _ => True

/-- The agents with their currencies. -/
def Database.accounts (db : Database) : List (String × String) :=
  db.agents.rows.map fun a => (a.id, a.currency)

section Accounts

variable {db db' : Database} {a b : Agent} {q : FlightSearch} {searchId currency : String}

theorem mem_accounts {id : String} :
    (id, currency) ∈ db.accounts ↔ ∃ a ∈ db.agents, a.id = id ∧ a.currency = currency := by
  simp [Database.accounts, Table.mem_def]

theorem quotedFor_iff : db.quotedFor searchId currency = true ↔
    ∀ s ∈ db.searches, s.id = searchId → ∀ c, (s.agentId, c) ∈ db.accounts → currency = c := by
  simp only [Database.quotedFor, List.all_eq_true, decide_eq_true_eq, Table.mem_def, mem_accounts,
    ne_eq]
  constructor
  · rintro h s hs hid c ⟨a, ha, haid, rfl⟩
    exact ((h s hs).resolve_left (not_not.mpr hid) a ha).resolve_left (not_not.mpr haid)
  · intro h s hs
    by_cases hid : s.id = searchId
    · right
      intro a ha
      by_cases haid : a.id = s.agentId
      · exact Or.inr (h s hs hid _ ⟨a, ha, haid, rfl⟩)
      · exact Or.inl haid
    · exact Or.inl hid

theorem quotedFor_mono (hx : Grows db db') (hacc : db'.accounts = db.accounts)
    (hq : q ∈ db.searches) (hid : q.id = searchId) (h : db.quotedFor searchId currency = true) :
    db'.quotedFor searchId currency = true := by
  rw [quotedFor_iff] at h ⊢
  intro s hs hsid c hc
  obtain ⟨q', hq', hss⟩ := hx.searches q hq
  obtain rfl := Database.search_ext hs hq' (hsid.trans (hss.id.trans hid).symm)
  rw [hacc, hss.agentId] at hc
  exact h q hq hid c hc

theorem Job.HoldsQuotes.mono {j : Job} (h : j.HoldsQuotes db) (hx : Grows db db')
    (hacc : db'.accounts = db.accounts) : j.HoldsQuotes db' := by
  have hsearch {id : String} : (∃ q ∈ db.searches, q.id = id) → ∃ q ∈ db'.searches, q.id = id := by
    rintro ⟨q, hq, rfl⟩
    obtain ⟨q', hq', hss⟩ := hx.searches q hq
    exact ⟨q', hq', hss.id⟩
  rcases j with r | ⟨searchId, phase⟩ | p
  · trivial
  · cases phase with
    | started | searching => exact hsearch h
    | answered request items =>
      obtain ⟨⟨q, hq, hid⟩, hitems⟩ := h
      refine ⟨hsearch ⟨q, hq, hid⟩, fun item hmem kept hk => ?_⟩
      exact quotedFor_mono hx hacc hq hid (hitems item hmem kept hk)
    | _ => trivial
  · trivial

theorem Moved.accounts {phase : Phase} {o o' : Order} {t? : Option BalanceTransaction}
    {t' : BalanceTransaction} {es : List Event} (h : Moved phase db db' a o o' t? t' es) :
    db'.accounts = db.accounts := by
  rw [Database.accounts, h.agents]
  apply map_amend
  intro b _ _
  rfl

theorem Effect.accounts {sha256 : String → String} {w w' : World} {p : Request}
    (h : Effect sha256 w p w') : w'.db.accounts = w.db.accounts := by
  cases h with
  | quiet => rfl
  | moved _ _ _ hm => exact hm.accounts
  | created _ _ hcr => rw [World.commit_db, Database.accounts, hcr.agents, Database.accounts]

end Accounts

section Steps

variable {sha256 : String → String} {provider : String} {w w' : World} {p : Request}
  {r r' : ProcessSearch} {x : ProcessChoice} {db db' : Database} {s s' : FlightSearch}
  {offers : List Offer}

theorem Traced.congr (h : Traced db) (ho : db'.orders = db.orders)
    (hf : ∀ offer ∈ db.offers, offer ∈ db'.offers) (ht : db'.transactions = db.transactions)
    (ha : db'.agents = db.agents) : Traced db' := by
  refine ⟨fun o hmem => ?_, ?_⟩
  · rw [ho] at hmem
    obtain ⟨offer, hof, hid, hcur⟩ := h.orders o hmem
    exact ⟨offer, hf offer hof, hid, hcur⟩
  · rw [ht, ha]
    exact h.agents

theorem Moved.traced {phase : Phase} {a : Agent} {o o' : Order} {t? : Option BalanceTransaction}
    {t' : BalanceTransaction} {es : List Event} (h : Moved phase db db' a o o' t? t' es)
    (hc : Coupled db) (htr : Traced db) : Traced db' := by
  have hx := h.extends hc.onePayment
  refine ⟨fun p hp => ?_, fun t ht => ?_⟩
  · rw [h.offers]
    rcases h.mem_orders.mp hp with rfl | ⟨hp, _⟩
    · obtain ⟨offer, hof, hid, hcur⟩ := htr.orders o h.order_mem
      have hs := h.move.sameBooking
      exact ⟨offer, hof, hid.trans hs.offerId.symm, hs.currency.trans hcur⟩
    · exact htr.orders p hp
  · rcases (h.mem_transactions hc.onePayment).mp ht with rfl | ⟨ht, _⟩
    · have hpay := (hc.standing o h.order_mem).payment
      rw [h.payment] at hpay
      obtain ⟨b, hb, hid, _⟩ := hx.agents a h.agent_mem
      have hown := h.move.payment_agentId fun u hu => (hpay u hu).2.2.1
      exact ⟨b, hb, hid.trans (h.owner.symm.trans hown.symm)⟩
    · obtain ⟨b, hb, hid⟩ := htr.agents t ht
      obtain ⟨b', hb', hid', _⟩ := hx.agents b hb
      exact ⟨b', hb', hid'.trans hid⟩

theorem Effect.traced (h : Effect sha256 w p w') (hc : Coupled w.db) (htr : Traced w.db) :
    Traced w'.db := by
  cases h with
  | quiet => exact ⟨htr.orders, htr.agents⟩
  | moved _ _ _ hm => exact hm.traced hc htr
  | @created r db' orderId offer booking hph hof hcr =>
    rw [World.commit_db]
    refine ⟨fun o ho => ?_, ?_⟩
    · rw [hcr.offers]
      rcases hcr.mem_orders.mp ho with ho | rfl
      · exact htr.orders o ho
      · exact ⟨offer, hof, rfl, rfl⟩
    · rw [hcr.transactions, hcr.agents]
      exact htr.agents

theorem Stored.quoted (h : Stored db db' s) (ho : Owners db) (hq : Quoted db) : Quoted db' := by
  intro offer hof
  rw [h.offers] at hof
  obtain ⟨q, hqm, hid⟩ := ho.offers offer hof
  exact quotedFor_mono h.grows (by rw [Database.accounts, h.agents, Database.accounts]) hqm hid
    (hq offer hof)

theorem Rewritten.quoted (h : Rewritten db db' s s' offers) (hss : SameSearch s s')
    (ho : Owners db) (hq : Quoted db)
    (hnew : ∀ offer ∈ offers, db.quotedFor s.id offer.currency = true) : Quoted db' := by
  have hacc : db'.accounts = db.accounts := by rw [Database.accounts, h.agents, Database.accounts]
  intro offer hof
  rcases h.mem_offers.mp hof with hof | hof
  · obtain ⟨q, hqm, hid⟩ := ho.offers offer hof
    exact quotedFor_mono (h.grows hss) hacc hqm hid (hq offer hof)
  · rw [h.owners offer hof]
    exact quotedFor_mono (h.grows hss) hacc h.search_mem rfl (hnew offer hof)

theorem newOffers_quoted {searchId : String} {newId : ℕ → String} {items : List ProviderOffer}
    (h : ∀ item ∈ items, db.quotedFor searchId item.currency = true) :
    ∀ offer ∈ newOffers provider searchId newId items,
      db.quotedFor searchId offer.currency = true := by
  intro offer hof
  obtain ⟨i, hi, rfl⟩ := List.mem_mapIdx.mp hof
  exact h items[i] (List.getElem_mem hi)

theorem ProcessStep.quoted (h : ProcessStep provider w r x w' r') (ho : Owners w.db)
    (hq : Quoted w.db) (hr : r.HoldsQuotes w.db)
    (hx : ∀ items, x = .answer items → ∀ item ∈ items, ∀ kept, item.kept = some kept →
      w.db.quotedFor r.searchId kept.currency = true) :
    Quoted w'.db ∧ r'.HoldsQuotes w'.db := by
  cases h with
  | skipped | cancelled | lost | refused | unrecorded => exact ⟨hq, trivial⟩
  | @started _ s db' hp hs _ hw =>
    obtain ⟨hm, hid⟩ := Database.search?_eq_some.mp hs
    refine ⟨hw.quoted (.update _ _ _ _ _) ho hq (by simp), ?_⟩
    exact ⟨_, hw.mem_searches.mpr (Or.inl rfl), hid⟩
  | called hp => exact ⟨hq, by simpa [ProcessSearch.HoldsQuotes, hp] using hr⟩
  | @answered request items hp =>
    refine ⟨hq, ?_, hx items rfl⟩
    simpa [ProcessSearch.HoldsQuotes, hp] using hr
  | raised => exact ⟨hq, trivial⟩
  | @saved request items kept s newId now durationMs errorText db' hp hs hk _ hw =>
    obtain ⟨hm, hid⟩ := Database.search?_eq_some.mp hs
    have hitems : ∀ k ∈ kept, w.db.quotedFor s.id k.currency = true := by
      intro k hmem
      obtain ⟨item, hitem, hik⟩ := exists_of_mem_keptItems hk hmem
      rw [ProcessSearch.HoldsQuotes, hp] at hr
      rw [hid]
      exact hr.2 item hitem k hik
    exact ⟨hw.quoted (.update _ _ _ _ _) ho hq (newOffers_quoted hitems), trivial⟩
  | failed _ _ _ hw => exact ⟨hw.quoted (.update _ _ _ _ _) ho hq (by simp), trivial⟩

end Steps

section Jobs

variable {d : Deployment} {s s' : Platform} {j j' : Job} {x : JobChoice} {c : Serving} {i : ℕ}

theorem JobStep.accounts (h : JobStep d s j x s' j') (hc : Coupled s.world.db)
    (hv : Job.Valid s.world.db j) : s'.world.db.accounts = s.world.db.accounts := by
  cases h with
  | start ha =>
    rcases (StartSearch.advance_step ha).db with he | ⟨db', _, _, _, he, hst⟩
    · rw [he]
    · rw [he, World.commit_db, Database.accounts, hst.agents, Database.accounts]
  | process ha =>
    rcases (ProcessSearch.advance_step ha).db with he | ⟨q, q', offers, _, _, hw⟩
    · rw [Platform.withWorld_world, he]
    · rw [Platform.withWorld_world, Database.accounts, hw.agents, Database.accounts]
  | book ha => exact (booking_effect ha hv hc).1.accounts

theorem JobStep.traced (h : JobStep d s j x s' j') (hc : Coupled s.world.db)
    (hv : Job.Valid s.world.db j) (hI : Owners s.world.db ∧ Traced s.world.db)
    (hJ : j.HoldsOffer s.world.db) :
    (Owners s'.world.db ∧ Traced s'.world.db) ∧ j'.HoldsOffer s'.world.db := by
  obtain ⟨ho, htr⟩ := hI
  cases h with
  | start ha =>
    refine ⟨?_, trivial⟩
    rcases (StartSearch.advance_step ha).db with he | ⟨db', _, _, _, he, hst⟩
    · rw [he]
      exact ⟨ho, htr⟩
    · rw [he]
      exact ⟨ho.stored hst,
        htr.congr hst.orders hst.grows.offers hst.transactions hst.agents⟩
  | process ha =>
    refine ⟨?_, trivial⟩
    rcases (ProcessSearch.advance_step ha).db with he | ⟨q, q', offers, _, hss, hw⟩
    · rw [Platform.withWorld_world, he]
      exact ⟨ho, htr⟩
    · exact ⟨ho.rewritten hw hss,
        htr.congr hw.orders (hw.grows hss).offers hw.transactions hw.agents⟩
  | book ha =>
    have he := (booking_effect ha hv hc).1
    refine ⟨⟨he.owners hc ho hJ, he.traced hc htr⟩, ?_⟩
    rcases booking_step (Request.Valid.owns hv) ha with ⟨r, r', rfl, rfl, hb⟩ | ⟨r, r', rfl, rfl, _⟩
    · exact (hb.own ho hJ).1
    · trivial

/-- Quotes that are in the currency of their agent stay so, and so do new ones under the guard. -/
theorem JobStep.quoted (h : JobStep d c.store j x s' j') (hj : c.procs[i]? = some j)
    (hg : quotedForAgent c (.advance i x) = true) (ho : Owners c.store.world.db)
    (hc : Coupled c.store.world.db) (hv : Job.Valid c.store.world.db j)
    (hq : Quoted c.store.world.db) (hJ : j.HoldsQuotes c.store.world.db) :
    Quoted s'.world.db ∧ j'.HoldsQuotes s'.world.db := by
  have hacc := h.accounts hc hv
  cases h with
  | start ha =>
    refine ⟨?_, trivial⟩
    rcases (StartSearch.advance_step ha).db with he | ⟨db', _, _, _, he, hst⟩
    · rw [he]
      exact hq
    · rw [he]
      exact hst.quoted ho hq
  | @process r r' y w ha =>
    refine (ProcessSearch.advance_step ha).quoted ho hq hJ ?_
    rintro items rfl item hmem kept hk
    simp only [quotedForAgent, hj, List.all_eq_true, Option.all_eq_true] at hg
    exact hg item hmem kept hk
  | @book p p' y w ha =>
    have hx := ((booking_effect ha hv hc).1.extends hc).grows
    have hk := booking_searchesKept ha
    refine ⟨fun offer hof => ?_, trivial⟩
    have hmem : offer ∈ c.store.world.db.offers := hk.offers ▸ hof
    obtain ⟨q, hqm, hid⟩ := ho.offers offer hmem
    exact quotedFor_mono hx hacc hqm hid (hq offer hmem)

theorem Job.HoldsOffer.mono {db db' : Database} (h : j.HoldsOffer db) (hx : Grows db db') :
    j.HoldsOffer db' := by
  rcases j with r | j
  · trivial
  · exact Job.HoldsOwn.mono (j := .inr j) h hx

theorem Job.currency_of_fresh {db : Database} (h : (serving d).fresh j = true) :
    j.HoldsOffer db ∧ j.HoldsQuotes db := by
  rcases j with r | r | p
  · exact ⟨trivial, trivial⟩
  · have hp : r.phase = .requested := serving_fresh_process.mp h
    exact ⟨trivial, by simp [HoldsQuotes, ProcessSearch.HoldsQuotes, hp]⟩
  · exact ⟨(Job.own_of_fresh h).1, trivial⟩

end Jobs

/-! ## The answers that the offers come from -/

/-- Every stored offer comes from an answer, and every run that is about to store one has it. -/
structure Sourced (provider : String) (as : List (Action Job JobChoice)) (c : Serving) : Prop where
  offers : ∀ offer ∈ c.store.world.db.offers, offer.AnsweredBy provider as c
  holds : ∀ r, .inr (.inl r) ∈ c.procs → r.HoldsAnswer as c

section Answers

variable {d : Deployment} {c c' : Serving} {as : List (Action Job JobChoice)}
  {a : Action Job JobChoice} {provider : String} {w' : World} {r r' : ProcessSearch}
  {x : ProcessChoice} {i : ℕ} {offer : Offer}

theorem Offer.AnsweredBy.mono (h : offer.AnsweredBy provider as c) (hf : Follows c c') :
    offer.AnsweredBy provider (as ++ [a]) c' := by
  obtain ⟨items, ha, hitem⟩ := h
  exact ⟨items, ha.mono hf, hitem⟩

theorem ProcessSearch.HoldsAnswer.mono (h : r.HoldsAnswer as c) (hf : Follows c c') :
    r.HoldsAnswer (as ++ [a]) c' := by
  obtain ⟨_, phase⟩ := r
  cases phase with
  | answered => exact Answered.mono h hf
  | _ => trivial

theorem ProcessStep.sourced (h : ProcessStep provider c.store.world r x w' r')
    (hi : c.procs[i]? = some (.inr (.inl r))) (hf : Follows c c') (hr : r.HoldsAnswer as c) :
    (∀ offer ∈ w'.db.offers, offer ∈ c.store.world.db.offers ∨
      offer.AnsweredBy provider (as ++ [.advance i (.inr (.inl x))]) c') ∧
    r'.HoldsAnswer (as ++ [.advance i (.inr (.inl x))]) c' := by
  cases h with
  | skipped | called | raised | cancelled | lost | refused | unrecorded =>
    exact ⟨fun _ hof => Or.inl hof, trivial⟩
  | answered =>
    obtain ⟨j', hj', hid⟩ := hf i _ hi
    exact ⟨fun _ hof => Or.inl hof, i, j', by simp, hj', hid⟩
  | started _ _ _ hw =>
    exact ⟨fun offer hof => (hw.mem_offers.mp hof).imp_right (by simp), trivial⟩
  | failed _ _ _ hw =>
    exact ⟨fun offer hof => (hw.mem_offers.mp hof).imp_right (by simp), trivial⟩
  | @saved request items kept s newId _ _ _ _ hp hs hk _ hw =>
    refine ⟨fun offer hof => (hw.mem_offers.mp hof).imp_right fun hnew => ?_, trivial⟩
    obtain ⟨k, hlt, rfl⟩ := List.mem_mapIdx.mp hnew
    obtain ⟨item, hitem, hik⟩ := exists_of_mem_keptItems hk (List.getElem_mem hlt)
    rw [ProcessSearch.HoldsAnswer, hp] at hr
    refine ⟨items, ?_, item, hitem, kept[k], hik, rfl⟩
    change Answered _ c' s.id items
    rw [(Database.search?_eq_some.mp hs).2]
    exact hr.mono hf

theorem Sourced.step (hs : (serving d).machine.step c a = some c')
    (h : Sourced d.provider as c) : Sourced d.provider (as ++ [a]) c' := by
  have hf := follows_of_step hs
  cases a with
  | spawn j =>
    obtain ⟨hfresh, rfl⟩ := Program.step_spawn_iff.mp hs
    refine ⟨fun offer hof => (h.offers offer hof).mono hf, fun r hr => ?_⟩
    rcases List.mem_append.mp hr with hr | hr
    · exact (h.holds r hr).mono hf
    · obtain rfl := List.mem_singleton.mp hr
      have hp : r.phase = .requested := serving_fresh_process.mp hfresh
      simp [ProcessSearch.HoldsAnswer, hp]
  | advance i x =>
    obtain ⟨j, s', j', hj, ha, rfl⟩ := Program.step_advance_iff.mp hs
    have hsame : (∀ r, j' ≠ .inr (.inl r)) → s'.world.db.offers = c.store.world.db.offers →
        Sourced d.provider (as ++ [.advance i x]) ⟨s', c.procs.set i j'⟩ := by
      refine fun hne hof => ⟨fun offer hmem => ?_, fun r hr => ?_⟩
      · exact (h.offers offer (hof ▸ hmem)).mono hf
      · exact (h.holds r ((List.mem_or_eq_of_mem_set hr).resolve_right fun he =>
          hne r he.symm)).mono hf
    cases serving_step ha with
    | start hb =>
      refine hsame (by simp) ?_
      rcases (StartSearch.advance_step hb).db with he | ⟨db', _, _, _, he, hst⟩
      · rw [he]
      · rw [he]
        exact hst.offers
    | @process r r' y w' hb =>
      obtain ⟨hoffers, hr'⟩ := (ProcessSearch.advance_step hb).sourced hj hf
        (h.holds r (List.mem_of_getElem? hj))
      refine ⟨fun offer hmem => ?_, fun q hq => ?_⟩
      · exact (hoffers offer hmem).elim (fun hold => (h.offers offer hold).mono hf) id
      · rcases List.mem_or_eq_of_mem_set hq with hq | hq
        · exact (h.holds q hq).mono hf
        · cases hq
          exact hr'
    | book hb => exact hsame (by simp) (booking_searchesKept hb).offers

theorem sourced_of_run {w : World} (ha : OnlyAgents w.db)
    (h : (serving d).machine.Run (Program.start (Platform.start w)) as c) :
    Sourced d.provider as c := by
  refine h.trace (I := fun as c => Sourced d.provider as c)
    (fun as c a c' _ hs h => h.step hs) ⟨?_, ?_⟩
  · intro offer hof
    simp [Program.start, Platform.start, Table.mem_def, ha.offers] at hof
  · simp [Program.start]

end Answers

section Runs

variable {d : Deployment} {w : World} {c : Serving} {as : List (Action Job JobChoice)}
  {db : Database}

theorem OnlyAgents.traced (h : OnlyAgents db) : Traced db := by
  refine ⟨fun o ho => ?_, fun t ht => ?_⟩
  · simp [Table.mem_def, h.orders] at ho
  · simp [Table.mem_def, h.transactions] at ht

theorem OnlyAgents.quoted (h : OnlyAgents db) : Quoted db := by
  intro o ho
  simp [Table.mem_def, h.offers] at ho

theorem traced_of_run (ha : OnlyAgents w.db)
    (h : (serving d).machine.Run (Program.start (Platform.start w)) as c) :
    Owners c.store.world.db ∧ Traced c.store.world.db := by
  refine (jobs_of_run (I := fun s => Owners s.world.db ∧ Traced s.world.db)
    (J := fun s j => j.HoldsOffer s.world.db) ?_ ?_ h (steady_start ha.unpaid.coupled)
    ⟨ha.owners, ha.traced⟩ (by simp [Program.start])).1
  · intro c j _ hf
    exact (Job.currency_of_fresh hf).1
  · intro c i x s j s' j' _ _ _ hc hv hI hJ hstep
    obtain ⟨hI', hJ'⟩ := hstep.traced hc hv hI hJ
    exact ⟨hI', hJ', fun q _ hq => hq.mono (hstep.steady hc hv).2.2⟩

theorem quoted_of_run (ha : OnlyAgents w.db)
    (h : (serving d).machine.RunWhere (fun c a => quotedForAgent c a)
      (Program.start (Platform.start w)) as c) : Quoted c.store.world.db := by
  refine (jobs_of_run
    (I := fun s => (Owners s.world.db ∧ Traced s.world.db) ∧ Quoted s.world.db)
    (J := fun s j => j.HoldsOffer s.world.db ∧ j.HoldsQuotes s.world.db) ?_ ?_ h
    (steady_start ha.unpaid.coupled) ⟨⟨ha.owners, ha.traced⟩, ha.quoted⟩
    (by simp [Program.start])).1.2
  · intro c j _ hf
    exact Job.currency_of_fresh hf
  · rintro c i x s j s' j' hg rfl hj hc hv ⟨hI, hq⟩ ⟨hJ, hK⟩ hstep
    obtain ⟨hI', hJ'⟩ := hstep.traced hc hv hI hJ
    obtain ⟨hq', hK'⟩ := hstep.quoted hj hg hI.1 hc hv hq hK
    have hx := (hstep.steady hc hv).2.2
    have hacc := hstep.accounts hc hv
    exact ⟨⟨hI', hq'⟩, ⟨hJ', hK'⟩, fun q _ hq => ⟨hq.1.mono hx, hq.2.mono hx hacc⟩⟩

/-- A payment is in the currency of its order's offer, which is an offer of the debited agent. -/
theorem Traced.payment {t : BalanceTransaction} (htr : Traced db) (ho : Owners db)
    (hc : Coupled db) (ht : t ∈ db.transactions) :
    ∃ o ∈ db.orders, o.id = t.orderId ∧ ∃ offer ∈ db.offers, offer.id = o.offerId ∧
      t.currency = offer.currency ∧ db.offerOwned t.agentId offer = true := by
  obtain ⟨o, hmo, hid⟩ := hc.orderOf t ht
  have hpay : db.transactionOf o.id = some t :=
    hc.onePayment.transactionOf_eq_some.mpr ⟨ht, hid.symm⟩
  obtain ⟨_, hcur, hag, _⟩ := (hc.standing o hmo).payment t hpay
  obtain ⟨offer, hof, hoid, hocur⟩ := htr.orders o hmo
  obtain ⟨offer', hof', hoid', hown⟩ := ho.orders o hmo
  obtain rfl := Table.eq_of_col (c := fun o => some [o.id]) (by simp [Offer.uniques]) hof hof' rfl
    (by simp [hoid, hoid'])
  exact ⟨o, hmo, hid, offer, hof, hoid, hcur.trans hocur, hag ▸ hown⟩

/-- In every reachable state a payment is in the currency in which the provider quoted its offer.
It is the agent's currency as long as the provider quotes each agent in its own. -/
theorem currency_of_quote (ha : OnlyAgents w.db)
    (h : (serving d).machine.Run (Program.start (Platform.start w)) as c) :
    (∀ t ∈ c.store.world.db.transactions, ∃ o ∈ c.store.world.db.orders, o.id = t.orderId ∧
      ∃ offer ∈ c.store.world.db.offers, offer.id = o.offerId ∧ t.currency = offer.currency ∧
        c.store.world.db.offerOwned t.agentId offer = true ∧ offer.AnsweredBy d.provider as c) ∧
    ((serving d).machine.RunWhere (fun c a => quotedForAgent c a)
      (Program.start (Platform.start w)) as c → OneCurrency c.store.world.db) := by
  obtain ⟨ho, htr⟩ := traced_of_run ha h
  have hc := (steady_of_run h (steady_start ha.unpaid.coupled)).1
  refine ⟨fun t ht => ?_, fun hg t ht => ?_⟩
  · obtain ⟨o, hmo, hid, offer, hof, hoid, hcur, hown⟩ := htr.payment ho hc ht
    exact ⟨o, hmo, hid, offer, hof, hoid, hcur, hown, (sourced_of_run ha h).offers offer hof⟩
  obtain ⟨o, _, _, offer, hof, _, hcur, hown⟩ := htr.payment ho hc ht
  obtain ⟨s, hs, hsid, hsag⟩ := offerOwned_iff.mp hown
  obtain ⟨a, hmem, haid⟩ := htr.agents t ht
  have hquote := quotedFor_iff.mp (quoted_of_run ha hg offer hof) s hs hsid a.currency
    (mem_accounts.mpr ⟨a, hmem, haid.trans hsag.symm, rfl⟩)
  exact ⟨a, hmem, haid, hcur.trans hquote⟩

end Runs

namespace Example

/-- A run of `process` gets one offer with a total in the given currency, and stores it. -/
def quoteSteps (currency : String) : List (Action Job JobChoice) :=
  [.advance 1 (.inr (.inl (.answer [{ item with currency := currency }]))),
    .advance 1 (.inr (.inl (.save (fun _ => "offer") 300 5 "")))]

/-- The agent, whose balance is in `UZS`, searches, books and issues. -/
def paidSteps (currency : String) : List (Action Job JobChoice) :=
  .spawn (startCall 100) :: startSteps 0 ++ [.advance 0 (.inl (.dispatch none)),
    .spawn processRun] ++ callSteps 1 ++ quoteSteps currency ++
  bookJobs 2 (bookSteps ++ .spawn (issueRequest "issue") :: issueSteps 1)

end Example

/-- A quote in dollars is subtracted from a balance in another currency. -/
theorem not_oneCurrency_dollars : ¬ ∀ (d : Deployment) (w : World)
    (as : List (Action Job JobChoice)) (c : Serving), OnlyAgents w.db →
    (serving d).machine.Run (Program.start (Platform.start w)) as c →
    OneCurrency c.store.world.db := by
  intro hall
  have hrun : ((serving Example.deployment).machine.exec
      (Program.start (Platform.start Example.bare)) (Example.paidSteps "USD")).map
        (fun c => (c.store.world.db.agents.rows.map (·.currency),
          c.store.world.db.transactions.rows.map (·.currency))) = some (["UZS"], ["USD"]) := by
    decide +kernel
  obtain ⟨c, hc, hrows⟩ := Option.map_eq_some_iff.mp hrun
  simp only [Prod.mk.injEq] at hrows
  obtain ⟨hagents, hpaid⟩ := hrows
  obtain ⟨t, ht, hcur⟩ := List.mem_map.mp (hpaid ▸ List.mem_singleton_self "USD")
  obtain ⟨a, ha, _, hta⟩ :=
    hall _ _ _ c ⟨rfl, rfl, rfl, rfl, rfl, rfl⟩ (Machine.exec_eq_some_iff.mp hc) t ht
  have hmem : a.currency ∈ ["UZS"] := hagents ▸ List.mem_map_of_mem ha
  rw [← hta, hcur] at hmem
  simp at hmem

theorem currency_of_quote_paid : ∃ c : Serving,
    (serving Example.deployment).machine.RunWhere (fun c a => quotedForAgent c a)
      (Program.start (Platform.start Example.bare)) (Example.paidSteps "UZS") c ∧
    c.store.world.db.transactions.rows.length = 1 ∧ OneCurrency c.store.world.db := by
  have hrun : ((serving Example.deployment).machine.execWhere (fun c a => quotedForAgent c a)
      (Program.start (Platform.start Example.bare)) (Example.paidSteps "UZS")).map
        (fun c => c.store.world.db.transactions.rows.length) = some 1 := by
    decide +kernel
  obtain ⟨c, hc, hlen⟩ := Option.map_eq_some_iff.mp hrun
  have h := Machine.runWhere_of_execWhere hc
  exact ⟨c, h, hlen, (currency_of_quote ⟨rfl, rfl, rfl, rfl, rfl, rfl⟩ h.run).2 h⟩

end Ioka
