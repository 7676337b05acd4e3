import Ioka.Booking.Finality
import Ioka.Platform.Isolation

/-! # What an agent is shown

The reading requests show what the agent's calls have returned, and what they have shown once they
show ever after: a search with the same offers among others, an offer as it is, which can be booked
until it expires, and an order with the same booking, or with everything once it is issued.
-/

namespace Ioka

open Relational Transition

/-- What the reads of a database show goes on to be shown. -/
structure Lasting (db db' : Database) : Prop extends Grows db db' where
  listed : db.offers.rows.Sublist db'.offers.rows
  issued : ∀ o ∈ db.orders, o.status = .issued → o ∈ db'.orders

/-- What the later database shows the agent of what the earlier one has shown. -/
structure StillShown (db db' : Database) (agentId : String) : Prop where
  search : ∀ searchId s offers, searchGet db searchId agentId = .ok (s, offers) →
    ∃ s' offers', searchGet db' searchId agentId = .ok (s', offers') ∧ SameSearch s s' ∧
      offers ≤ offers'
  /-- The offers of a search can be looked up, and booked until they expire. -/
  bookable : ∀ searchId s offers, searchGet db searchId agentId = .ok (s, offers) →
    ∀ o ∈ offers, offerDetails db' agentId o.id = .ok o.detail ∧
      ∀ payload now, payload.offerId = o.id → createOrderOffer db' agentId payload now =
        if o.expiresAt ≤ now then .error (.conflict "Offer has expired") else .ok o
  offer : ∀ offerId detail, offerDetails db agentId offerId = .ok detail →
    offerDetails db' agentId offerId = .ok detail
  order : ∀ orderId o, getOrder db agentId orderId = .ok o →
    ∃ o', getOrder db' agentId orderId = .ok o' ∧ SameBooking o o' ∧ (o.status = .issued → o' = o)

/-- What the call has returned is shown to its agent. -/
def Job.Shown (db : Database) : Job → Prop
  | .inl r => ∀ search, r.phase = .done (.ok search) →
      ∃ s offers, searchGet db search.id r.agentId = .ok (s, offers) ∧ SameSearch search s
  | .inr (.inl _) => True
  | .inr (.inr (.inl r)) => ∀ o, r.phase = .done (.ok o) →
      ∃ o', getOrder db r.agentId o.id = .ok o' ∧ SameBooking o o'
  | .inr (.inr (.inr r)) => ∀ o a status, r.phase = .done (.ok (o, a, status)) →
      getOrder db r.agentId o.id = .ok o

/-- What the call has returned is stored. -/
def Job.ReturnsStored (db : Database) : Job → Prop
  | .inl r => ∀ search, r.phase = .done (.ok search) → ∃ s ∈ db.searches, SameSearch search s
  | .inr (.inl _) => True
  | .inr (.inr (.inl r)) => ∀ o, r.phase = .done (.ok o) → ∃ o' ∈ db.orders, SameBooking o o'
  | .inr (.inr (.inr r)) => r.Returned db

section Reads

variable {db db' db'' : Database} {agentId searchId offerId orderId : String} {s : FlightSearch}
  {offers : Multiset Offer} {offer : Offer} {o : Order} {detail : OfferDetail}

theorem Lasting.refl (db : Database) : Lasting db db :=
  ⟨.refl db, List.Sublist.refl _, fun _ ho _ => ho⟩

theorem Lasting.trans (h : Lasting db db') (h' : Lasting db' db'') : Lasting db db'' := by
  refine ⟨h.toGrows.trans h'.toGrows, h.listed.trans h'.listed, ?_⟩
  intro o ho hi
  exact h'.issued o (h.issued o ho hi) hi

theorem searchGet_eq_ok : searchGet db searchId agentId = .ok (s, offers) ↔
    s ∈ db.searches ∧ s.id = searchId ∧ s.agentId = agentId ∧ offers = db.offersOf s.id := by
  have hselect : (db.searches.select fun s => s.id = searchId ∧ s.agentId = agentId) = some s ↔
      s ∈ db.searches ∧ s.id = searchId ∧ s.agentId = agentId := by
    rw [Table.select_eq_some]
    · simp
    · intro q hq p hp h₁ h₂
      simp only [Bool.decide_and, Bool.and_eq_true, decide_eq_true_eq] at h₁ h₂
      exact Database.search_ext hq hp (h₁.1.trans h₂.1.symm)
  unfold searchGet
  constructor
  · intro h
    split at h
    · cases h
    · rename_i q hq
      cases h
      obtain ⟨hm, hp⟩ := Table.mem_of_select hq
      simp only [Bool.decide_and, Bool.and_eq_true, decide_eq_true_eq] at hp
      exact ⟨hm, hp.1, hp.2, rfl⟩
  · rintro ⟨hm, hid, hag, rfl⟩
    rw [hselect.mpr ⟨hm, hid, hag⟩]

theorem agentOffer_iff : agentOffer db agentId offerId = some offer ↔
    offer ∈ db.offers ∧ offer.id = offerId ∧ db.offerOwned agentId offer = true := by
  constructor
  · intro h
    exact agentOffer_eq_some h
  · rintro ⟨hm, hid, hown⟩
    rw [agentOffer, Table.select_eq_some]
    · exact ⟨hm, by simpa [Database.offerOwned, hid] using hown⟩
    · intro q hq p hp h₁ h₂
      simp only [Bool.decide_and, Bool.and_eq_true, decide_eq_true_eq] at h₁ h₂
      exact Table.eq_of_col (c := fun o => some [o.id]) (by simp [Offer.uniques]) hq hp rfl
        (by simp [h₁.1, h₂.1])

theorem getOrder_eq_ok : getOrder db agentId orderId = .ok o ↔
    o ∈ db.orders ∧ o.id = orderId ∧ o.agentId = agentId := by
  rw [← agentOrder_eq_some, getOrder]
  cases agentOrder db agentId orderId <;> simp

theorem offerDetails_eq_ok : offerDetails db agentId offerId = .ok detail ↔
    ∃ offer, agentOffer db agentId offerId = some offer ∧ offer.detail = detail := by
  rw [offerDetails]
  cases agentOffer db agentId offerId <;> simp

theorem Lasting.agentOffer (h : Lasting db db') (ho : agentOffer db agentId offerId = some offer) :
    Ioka.agentOffer db' agentId offerId = some offer := by
  obtain ⟨hm, hid, hown⟩ := agentOffer_iff.mp ho
  exact agentOffer_iff.mpr ⟨h.offers offer hm, hid, offerOwned_mono h.toGrows hown⟩

theorem agentOffer_of_offersOf (hs : s ∈ db.searches) (ho : offer ∈ db.offersOf s.id) :
    agentOffer db s.agentId offer.id = some offer := by
  obtain ⟨hm, hid⟩ := List.mem_filter.mp ho
  rw [decide_eq_true_eq] at hid
  exact agentOffer_iff.mpr ⟨hm, rfl, offerOwned_iff.mpr ⟨s, hs, hid.symm, rfl⟩⟩

theorem Lasting.stillShown (h : Lasting db db') (agentId : String) : StillShown db db' agentId := by
  constructor
  · intro searchId s offers hget
    obtain ⟨hm, rfl, rfl, rfl⟩ := searchGet_eq_ok.mp hget
    obtain ⟨s', hm', hss⟩ := h.searches s hm
    refine ⟨s', db'.offersOf s'.id, searchGet_eq_ok.mpr ⟨hm', hss.id, hss.agentId, rfl⟩, hss, ?_⟩
    rw [hss.id]
    exact (h.listed.filter _).subperm
  · intro searchId s offers hget o ho
    obtain ⟨hm, rfl, rfl, rfl⟩ := searchGet_eq_ok.mp hget
    have hfound := h.agentOffer (agentOffer_of_offersOf hm ho)
    refine ⟨offerDetails_eq_ok.mpr ⟨o, hfound, rfl⟩, ?_⟩
    intro payload now hid
    rw [createOrderOffer, hid, hfound]
  · intro offerId detail hget
    obtain ⟨offer, hfound, rfl⟩ := offerDetails_eq_ok.mp hget
    exact offerDetails_eq_ok.mpr ⟨offer, h.agentOffer hfound, rfl⟩
  · intro orderId o hget
    obtain ⟨hm, rfl, rfl⟩ := getOrder_eq_ok.mp hget
    by_cases hi : o.status = .issued
    · exact ⟨o, getOrder_eq_ok.mpr ⟨h.issued o hm hi, rfl, rfl⟩, .refl o, fun _ => rfl⟩
    · obtain ⟨o', hm', hoo⟩ := h.orders o hm
      exact ⟨o', getOrder_eq_ok.mpr ⟨hm', hoo.id, hoo.agentId⟩, hoo, fun h => absurd h hi⟩

end Reads

section Steps

variable {d : Deployment} {s s' : Platform} {j j' : Job} {x : JobChoice} {db db' : Database}

theorem JobStep.issued (h : JobStep d s j x s' j') (hc : Coupled s.world.db)
    (hv : Job.Valid s.world.db j) {o : Order} (ho : o ∈ s.world.db.orders)
    (hi : o.status = .issued) : o ∈ s'.world.db.orders := by
  cases h with
  | start ha =>
    rcases (StartSearch.advance_step ha).db with he | ⟨db', _, _, _, he, hst⟩
    · rwa [he]
    · rwa [he, World.commit_db, hst.orders]
  | process ha =>
    rcases (ProcessSearch.advance_step ha).db with he | ⟨q, q', offers, _, _, hw⟩
    · rwa [Platform.withWorld_world, he]
    · rwa [Platform.withWorld_world, hw.orders]
  | book ha => exact ((booking_effect ha hv hc).1.sameIssued hc ho hi).order

theorem JobStep.lasting (h : JobStep d s j x s' j') (hc : Coupled s.world.db)
    (hv : Job.Valid s.world.db j) : Lasting s.world.db s'.world.db := by
  refine ⟨(h.steady hc hv).2.2, ?_, ?_⟩
  · cases h with
    | start ha =>
      rcases (StartSearch.advance_step ha).db with he | ⟨db', _, _, _, he, hst⟩
      · rw [he]
      · rw [he, World.commit_db, hst.offers]
    | process ha =>
      rcases (ProcessSearch.advance_step ha).db with he | ⟨q, q', offers, _, _, hw⟩
      · rw [Platform.withWorld_world, he]
      · rw [Platform.withWorld_world, hw.offers]
        exact List.sublist_append_left _ _
    | book ha =>
      have he := ((booking_effect ha hv hc).1.extends hc).offers
      rw [Platform.withWorld_world, he]
  · intro o ho hi
    exact h.issued hc hv ho hi

theorem Job.ReturnsStored.mono (h : j.ReturnsStored db) (hl : Lasting db db') :
    j.ReturnsStored db' := by
  rcases j with r | r | r | r
  · intro search hd
    obtain ⟨q, hq, hs⟩ := h search hd
    obtain ⟨q', hq', hs'⟩ := hl.searches q hq
    exact ⟨q', hq', hs.trans hs'⟩
  · trivial
  · intro o hd
    obtain ⟨p, hp, hs⟩ := h o hd
    obtain ⟨p', hp', hs'⟩ := hl.orders p hp
    exact ⟨p', hp', hs.trans hs'⟩
  · intro o a status hd
    obtain ⟨ho, hid, hi, hst⟩ := h o a status hd
    exact ⟨hl.issued o ho hi, hid, hi, hst⟩

theorem Job.stored_of_fresh (h : (serving d).fresh j = true) : j.ReturnsStored db := by
  rcases j with r | r | r | r
  · have hp : r.phase = .requested := serving_fresh_start.mp h
    simp [ReturnsStored, hp]
  · trivial
  · have hp : r.phase = .requested := (booking_fresh_create d.sha256).mp h
    simp [ReturnsStored, hp]
  · have hp : r.phase = .requested := (booking_fresh_issue d.sha256).mp h
    simp [ReturnsStored, IssueOrder.Returned, hp]

theorem CreateStep.returnsStored {sha256 : String → String} {w w' : World} {r r' : CreateOrder}
    (h : CreateStep sha256 w r w' r') :
    Job.ReturnsStored w'.db (.inr (.inr (.inl r'))) := by
  intro o hd
  cases h with
  | replayed _ _ _ _ _ _ ho =>
    cases hd
    exact ⟨o, ho, .refl o⟩
  | committed _ _ hcr =>
    cases hd
    exact ⟨_, hcr.mem_orders.mpr (Or.inr rfl), .refl _⟩
  | failed | unseen | offered | called | answered | raised | audited | conflicted => cases hd

theorem StartStep.returnsStored {r r' : StartSearch} {y : StartChoice}
    (h : StartStep d s r y s' r') (hr : r.Known s.world.db) :
    Job.ReturnsStored s'.world.db (.inl r') := by
  intro search hd
  cases h with
  | cached | unlisted | expired | created | remembered => cases hd
  | refused | undispatched => cases hd
  | found _ hfound =>
    cases hd
    exact ⟨search, (Database.search?_eq_some.mp hfound).1, .refl search⟩
  | started hp | published hp =>
    cases hd
    rw [StartSearch.Known, hp] at hr
    exact hr.2

theorem JobStep.returnsStored (h : JobStep d s j x s' j') (hc : Coupled s.world.db)
    (hv : Job.Valid s.world.db j) (hj : j.HoldsOwn s.world.db) :
    j'.ReturnsStored s'.world.db := by
  cases h with
  | start ha => exact (StartSearch.advance_step ha).returnsStored hj
  | process => trivial
  | book ha =>
    rcases booking_step (Request.Valid.owns hv) ha with
      ⟨r, r', rfl, rfl, hb⟩ | ⟨r, r', rfl, rfl, hb⟩
    · exact hb.returnsStored
    · exact hb.returned hc

theorem Job.ReturnsStored.shown (h : j.ReturnsStored db) (hown : j.ReturnsOwn db) :
    j.Shown db := by
  rcases j with r | r | r | r
  · intro search hd
    obtain ⟨q, hq, hs⟩ := h search hd
    exact ⟨q, _, searchGet_eq_ok.mpr ⟨hq, hs.id, hs.agentId.trans (hown search hd), rfl⟩, hs⟩
  · trivial
  · intro o hd
    obtain ⟨p, hp, hs⟩ := h o hd
    exact ⟨p, getOrder_eq_ok.mpr ⟨hp, hs.id, hs.agentId.trans (hown o hd)⟩, hs⟩
  · intro o a status hd
    exact getOrder_eq_ok.mpr ⟨(h o a status hd).1, rfl, (hown o a status hd).1⟩

end Steps

section Runs

variable {d : Deployment} {w : World} {c c' : Serving} {as bs : List (Action Job JobChoice)}

theorem lasting_of_run (h : (serving d).machine.Run c bs c') (hc : Steady c) :
    Lasting c.store.world.db c'.store.world.db := by
  have hinv := h.invariant
    (I := fun t => Steady t ∧ Lasting c.store.world.db t.store.world.db) ?_ ⟨hc, .refl _⟩
  · exact hinv.2
  rintro t a t' _ hs ⟨ht, hl⟩
  refine ⟨steady_of_run (G := fun _ _ => True) (.cons trivial hs (.nil t')) ht, hl.trans ?_⟩
  cases a with
  | spawn j =>
    obtain ⟨_, rfl⟩ := Program.step_spawn_iff.mp hs
    exact .refl _
  | advance i x =>
    obtain ⟨j, s', j', hj, ha, rfl⟩ := Program.step_advance_iff.mp hs
    exact (serving_step ha).lasting ht.1 (ht.2 j (List.mem_of_getElem? hj))

/-- What calls have returned is shown to their agents, at once and in every later state, and what
was shown to an agent is shown in every later state. -/
theorem shown_for_ever (hs : Function.Injective d.sha256) (ha : OnlyAgents w.db)
    (h : (serving d).machine.Run (Program.start (Platform.start w)) as c)
    (h' : (serving d).machine.Run c bs c') :
    (∀ j ∈ c.procs, j.Shown c'.store.world.db) ∧
      ∀ agentId, StillShown c.store.world.db c'.store.world.db agentId := by
  have hsteady := steady_start (s := Platform.start w) ha.unpaid.coupled
  have hlasting := lasting_of_run h' (steady_of_run h hsteady)
  have hown : (CacheSound d.sha256 c.store ∧ Owners c.store.world.db) ∧
      ∀ j ∈ c.procs, (j.HoldsOwn c.store.world.db ∧ j.ReturnsOwn c.store.world.db) ∧
        j.ReturnsStored c.store.world.db := by
    refine jobs_of_run (I := fun s => CacheSound d.sha256 s ∧ Owners s.world.db)
      (J := fun s j => (j.HoldsOwn s.world.db ∧ j.ReturnsOwn s.world.db) ∧
        j.ReturnsStored s.world.db) ?_ ?_ h hsteady ⟨?_, ha.owners⟩ (by simp [Program.start])
    · intro c j _ hf
      exact ⟨Job.own_of_fresh hf, Job.stored_of_fresh hf⟩
    · intro c i x s j s' j' _ _ _ hc hv hI hJ hstep
      obtain ⟨hI', hJ'⟩ := hstep.own hs hc hv hI hJ.1
      have hl := hstep.lasting hc hv
      refine ⟨hI', ⟨hJ', hstep.returnsStored hc hv hJ.1.1⟩, ?_⟩
      rintro q _ ⟨⟨hhold, hret⟩, hstored⟩
      exact ⟨⟨hhold.mono hl.toGrows, hret.mono hl.toGrows⟩, hstored.mono hl⟩
    · intro key cached searchId hget
      cases hget
  constructor
  · intro j hj
    obtain ⟨⟨_, hret⟩, hstored⟩ := hown.2 j hj
    exact (hstored.mono hlasting).shown (hret.mono hlasting.toGrows)
  · exact hlasting.stillShown

end Runs

/-- An agent is shown one offer, and then the issued order. -/
theorem shown_for_ever_full : ∃ c c' : Serving,
    (searchGet c.store.world.db "search" "agent").toOption.map (·.2.card) = some 1 ∧
    (getOrder c'.store.world.db "agent" "order").toOption.map (·.status) = some .issued ∧
    (∀ j ∈ c.procs, j.Shown c'.store.world.db) ∧
    StillShown c.store.world.db c'.store.world.db "agent" := by
  have hrun : ((serving Example.deployment).machine.exec
      (Program.start (Platform.start Example.bare)) (Example.fullSteps.take 13)).bind (fun c =>
        ((serving Example.deployment).machine.exec c (Example.fullSteps.drop 13)).map fun c' =>
          ((searchGet c.store.world.db "search" "agent").toOption.map (·.2.card),
            (getOrder c'.store.world.db "agent" "order").toOption.map (·.status))) =
      some (some 1, some .issued) := by
    decide +kernel
  obtain ⟨c, hc, hrun⟩ := Option.bind_eq_some_iff.mp hrun
  obtain ⟨c', hc', hrun⟩ := Option.map_eq_some_iff.mp hrun
  simp only [Prod.mk.injEq] at hrun
  obtain ⟨hshown, hstill⟩ := shown_for_ever Function.injective_id ⟨rfl, rfl, rfl, rfl, rfl, rfl⟩
    (Machine.exec_eq_some_iff.mp hc) (Machine.exec_eq_some_iff.mp hc')
  exact ⟨c, c', hrun.1, hrun.2, hshown, hstill "agent"⟩

end Ioka
