import Ioka.Platform.Reachable
import Ioka.Provider.Mock

/-! # Searches that share offer ids

The mock airline derives the ids of its offers from the route and the date alone,
and the table of offers takes every id once. Of the searches that share a route
and a date only the first one to be saved completes; the others fail. So all
searches complete exactly if no two of them share the start of their digest.
-/

namespace Ioka

open Relational Transition

inductive MockChoice
  | start
  | call
  | answer (now : Time)
  | save (newId : ℕ → String) (now : Time) (durationMs : ℤ) (errorText : String)
  | fail (durationMs : ℤ)

/-- The provider answers with what it computes for the request. -/
def MockChoice.choice (sha256 : String → String) (r : ProcessSearch) : MockChoice → ProcessChoice
  | .start => .start
  | .call => .call
  | .answer now =>
    match r.phase with
    | .searching request => .answer (MockAirlineProvider.search sha256 request now)
    | _ => .answer []
  | .save newId now durationMs errorText => .save newId now durationMs errorText
  | .fail durationMs => .fail durationMs

/-- Runs of `process` with the mock airline, which answers every call in time. -/
def mocking (sha256 : String → String) : Program World ProcessSearch MockChoice where
  fresh r := r.phase matches .requested
  advance w r x := r.advance MockAirlineProvider.name w (x.choice sha256 r)

theorem mocking_fresh {sha256 : String → String} {r : ProcessSearch} :
    (mocking sha256).fresh r = true ↔ r.phase = .requested :=
  processing_fresh MockAirlineProvider.name

/-- Every search is processed once, and new rows get new ids. -/
def processedOnce (c : Processing) : Action ProcessSearch MockChoice → Bool
  | .spawn r => (c.store.db.search? r.searchId).isSome ∧
      c.procs.all fun q => q.searchId ≠ r.searchId
  | .advance _ (.save newId _ _ _) => ((List.range 3).map newId).Nodup ∧
      c.store.db.offers.rows.all fun o => o.id ∉ (List.range 3).map newId
  | _ => true

/-- The searches are stored, and none has been processed. -/
structure Waiting (db : Database) : Prop where
  offers : db.offers.rows = []
  searches : ∀ s ∈ db.searches, s.status = .pending

/-- What the ids of a search's offers start with. -/
def FlightSearch.seed12 (sha256 : String → String) (s : FlightSearch) : String :=
  slice 12 (MockAirlineProvider.seed sha256 s.providerRequest)

/-- Of the searches with these ids no two have digests that start alike. -/
def SeedsApart (sha256 : String → String) (db : Database) (ids : List String) : Prop :=
  ∀ s ∈ db.searches, ∀ t ∈ db.searches, s.id ∈ ids → t.id ∈ ids →
    s.seed12 sha256 = t.seed12 sha256 → s.id = t.id

/-- The search has completed with all offers that the provider returned to its run. -/
def CompletedBy (sha256 : String → String) (as : List (Action ProcessSearch MockChoice))
    (db : Database) (i : ℕ) (s : FlightSearch) : Prop :=
  s.status = .completed ∧ ∃ now newId, .advance i (.answer now) ∈ as ∧
    db.offersOf s.id = newOffers MockAirlineProvider.name s.id newId
      (MockAirlineProvider.search sha256 s.providerRequest now)

/-- An offer of another search has an id of the offers of this one. -/
def Spoiled (sha256 : String → String) (db : Database) (s : FlightSearch) : Prop :=
  ∃ o ∈ db.offers, o.searchId ≠ s.id ∧ ∃ k < 3,
    o.providerOfferId = MockAirlineProvider.offerId sha256 s.providerRequest k

/-- How far a run is with its search. -/
def MockPhase (sha256 : String → String) (as : List (Action ProcessSearch MockChoice))
    (db : Database) (i : ℕ) (s : FlightSearch) : ProcessPhase → Prop
  | .requested => s.status = .pending ∧ db.offersOf s.id = []
  | .started request | .searching request =>
    request = s.providerRequest ∧ db.offersOf s.id = []
  | .answered request items => request = s.providerRequest ∧ db.offersOf s.id = [] ∧
      ∃ now, .advance i (.answer now) ∈ as ∧
        items = MockAirlineProvider.search sha256 request now
  | .raised _ _ => Spoiled sha256 db s
  | .done _ => CompletedBy sha256 as db i s ∨ Spoiled sha256 db s

/-- The searches that the runs are about, and how far each run is. -/
structure Mocked (sha256 : String → String) (as : List (Action ProcessSearch MockChoice))
    (c : Processing) : Prop where
  once : (c.procs.map (·.searchId)).Nodup
  unprocessed : ∀ s ∈ c.store.db.searches, s.id ∉ c.procs.map (·.searchId) →
    s.status = .pending ∧ c.store.db.offersOf s.id = []
  offers : ∀ o ∈ c.store.db.offers, o.provider = MockAirlineProvider.name ∧
    o.searchId ∈ c.procs.map (·.searchId) ∧ ∃ s ∈ c.store.db.searches, s.id = o.searchId ∧
      ∃ k < 3, o.providerOfferId = MockAirlineProvider.offerId sha256 s.providerRequest k
  runs : ∀ i r, c.procs[i]? = some r → ∃ s ∈ c.store.db.searches, s.id = r.searchId ∧
    MockPhase sha256 as c.store.db i s r.phase

section Rows

variable {sha256 : String → String} {db db' : Database} {s s' q : FlightSearch} {o : Offer}
  {newId : ℕ → String} {now : Time} {as bs : List (Action ProcessSearch MockChoice)} {i : ℕ}
  {phase : ProcessPhase} {offers : List Offer}

theorem SameSearch.providerRequest (h : SameSearch s s') :
    s'.providerRequest = s.providerRequest := by
  simp [FlightSearch.providerRequest, h.origin, h.destination, h.departureDate, h.adults,
    h.cabinClass]

theorem mem_newOffers_search (ho : o ∈ newOffers MockAirlineProvider.name s.id newId
    (MockAirlineProvider.search sha256 s.providerRequest now)) :
    o.provider = MockAirlineProvider.name ∧ o.searchId = s.id ∧ ∃ k < 3, o.id = newId k ∧
      o.providerOfferId = MockAirlineProvider.offerId sha256 s.providerRequest k := by
  obtain ⟨k, hk, rfl⟩ := List.mem_mapIdx.mp ho
  exact ⟨rfl, rfl, k, hk, rfl, MockAirlineProvider.getElem_search sha256 _ now hk⟩

theorem FlightSearch.keptItems_search (sha256 : String → String) (s : FlightSearch) (now : Time) :
    keptItems (MockAirlineProvider.search sha256 s.providerRequest now) =
      some (MockAirlineProvider.search sha256 s.providerRequest now) :=
  keptItems_eq_some.mpr (List.forall₂_same.mpr fun _ =>
    MockAirlineProvider.kept_search sha256 s.origin_fits s.destination_fits s.adults_bounds)

theorem Offer.distinct_iff {o p : Offer} : Distinct Offer.uniques o p ↔
    o.id ≠ p.id ∧ (o.provider = p.provider → o.providerOfferId ≠ p.providerOfferId) := by
  simp [Distinct, Offer.uniques]

theorem exists_of_clashes (hid : ((List.range 3).map newId).Nodup)
    (hfresh : ∀ o ∈ db.offers, o.id ∉ (List.range 3).map newId)
    (h : Clashes db (newOffers MockAirlineProvider.name s.id newId
      (MockAirlineProvider.search sha256 s.providerRequest now))) :
    ∃ o ∈ db.offers, ∃ k < 3,
      o.providerOfferId = MockAirlineProvider.offerId sha256 s.providerRequest k := by
  by_contra hno
  push Not at hno
  refine h (List.pairwise_append.mpr ⟨db.offers.unique, ?_, ?_⟩)
  · rw [newOffers, List.pairwise_iff_getElem]
    intro j k hj hk hjk
    rw [List.length_mapIdx, MockAirlineProvider.length_search] at hj hk
    rw [List.getElem_mapIdx, List.getElem_mapIdx, Offer.distinct_iff]
    refine ⟨fun he => ?_, fun _ he => ?_⟩
    · have hjk' := List.inj_on_of_nodup_map hid (List.mem_range.mpr hj) (List.mem_range.mpr hk) he
      omega
    · simp only [newOffer] at he
      rw [MockAirlineProvider.getElem_search, MockAirlineProvider.getElem_search,
        MockAirlineProvider.offerId_eq_iff sha256 hj hk] at he
      omega
  · intro o ho p hp
    obtain ⟨_, _, k, hk, hpid, hpoff⟩ := mem_newOffers_search hp
    refine Offer.distinct_iff.mpr ⟨fun he => ?_, fun _ => ?_⟩
    · exact hfresh o ho (List.mem_map.mpr ⟨k, List.mem_range.mpr hk, (he.trans hpid).symm⟩)
    · rw [hpoff]
      exact hno o ho k hk

theorem MockPhase.mono (h : MockPhase sha256 as db i s phase) (hsub : as ⊆ bs) :
    MockPhase sha256 bs db i s phase := by
  have hdone : CompletedBy sha256 as db i s → CompletedBy sha256 bs db i s := by
    rintro ⟨hst, now, newId, hmem, hof⟩
    exact ⟨hst, now, newId, hsub hmem, hof⟩
  cases phase with
  | requested | started | searching | raised => exact h
  | answered request items =>
    obtain ⟨hr, hof, now, hmem, hitems⟩ := h
    exact ⟨hr, hof, now, hsub hmem, hitems⟩
  | done => exact h.imp_left hdone

theorem Spoiled.mono (h : Spoiled sha256 db q) (hw : Rewritten db db' s s' offers) :
    Spoiled sha256 db' q := by
  obtain ⟨o, ho, hne, hk⟩ := h
  exact ⟨o, hw.mem_offers.mpr (Or.inl ho), hne, hk⟩

theorem MockPhase.other (h : MockPhase sha256 as db i q phase) (hw : Rewritten db db' s s' offers)
    (hne : q.id ≠ s.id) : MockPhase sha256 as db' i q phase := by
  have hof : db'.offersOf q.id = db.offersOf q.id := hw.offersOf_of_ne hne
  cases phase with
  | requested | started | searching | answered =>
    simp only [MockPhase, hof]
    exact h
  | raised => exact Spoiled.mono h hw
  | done =>
    rcases h with ⟨hst, now, newId, hmem, hq⟩ | hsp
    · exact Or.inl ⟨hst, now, newId, hmem, hof.trans hq⟩
    · exact Or.inr (hsp.mono hw)

end Rows

section Steps

variable {sha256 : String → String} {c : Processing}
  {as bs : List (Action ProcessSearch MockChoice)} {i : ℕ} {r r' : ProcessSearch} {w' : World}
  {s s' : FlightSearch} {offers : List Offer}

theorem Mocked.ne (h : Mocked sha256 as c) (hi : c.procs[i]? = some r) {j : ℕ} {q : ProcessSearch}
    (hj : c.procs[j]? = some q) (hne : j ≠ i) : q.searchId ≠ r.searchId := by
  obtain ⟨hlt, rfl⟩ := List.getElem?_eq_some_iff.mp hi
  obtain ⟨hlt', rfl⟩ := List.getElem?_eq_some_iff.mp hj
  have honce := List.pairwise_iff_getElem.mp (List.pairwise_map.mp h.once)
  rcases Nat.lt_or_gt_of_ne hne with hjk | hjk
  · exact honce j i hlt' hlt hjk
  · exact (honce i j hlt hlt' hjk).symm

theorem Mocked.still (h : Mocked sha256 as c) (hi : c.procs[i]? = some r)
    (hid : r'.searchId = r.searchId) (hsub : as ⊆ bs) (hdb : w'.db = c.store.db)
    (hphase : ∃ s ∈ c.store.db.searches, s.id = r.searchId ∧
      MockPhase sha256 bs c.store.db i s r'.phase) :
    Mocked sha256 bs ⟨w', c.procs.set i r'⟩ := by
  have hids := Program.map_set_eq (f := (·.searchId)) hi hid
  have hlt : i < c.procs.length := (List.getElem?_eq_some_iff.mp hi).1
  refine ⟨by rw [hids]; exact h.once, ?_, ?_, ?_⟩
  · rw [hids, hdb]
    exact h.unprocessed
  · rw [hids, hdb]
    exact h.offers
  · intro j q hj
    rw [hdb]
    by_cases hji : i = j
    · subst hji
      rw [List.getElem?_set_self hlt] at hj
      cases hj
      rw [hid]
      exact hphase
    · rw [List.getElem?_set_ne hji] at hj
      obtain ⟨s, hs, hsid, hp⟩ := h.runs j q hj
      exact ⟨s, hs, hsid, hp.mono hsub⟩

theorem Mocked.rewritten (h : Mocked sha256 as c) (hi : c.procs[i]? = some r)
    (hid : r'.searchId = r.searchId) (hsub : as ⊆ bs)
    (hw : Rewritten c.store.db w'.db s s' offers) (hss : SameSearch s s')
    (hs : s.id = r.searchId)
    (hof : ∀ o ∈ offers, o.provider = MockAirlineProvider.name ∧ ∃ k < 3,
      o.providerOfferId = MockAirlineProvider.offerId sha256 s.providerRequest k)
    (hphase : MockPhase sha256 bs w'.db i s' r'.phase) :
    Mocked sha256 bs ⟨w', c.procs.set i r'⟩ := by
  have hids := Program.map_set_eq (f := (·.searchId)) hi hid
  have hmem : s.id ∈ c.procs.map (·.searchId) :=
    List.mem_map.mpr ⟨r, List.mem_of_getElem? hi, hs.symm⟩
  have hlt : i < c.procs.length := (List.getElem?_eq_some_iff.mp hi).1
  refine ⟨by rw [hids]; exact h.once, ?_, ?_, ?_⟩
  · intro q hq hun
    rw [hids] at hun
    rcases hw.mem_searches.mp hq with rfl | ⟨hq, hne⟩
    · exact absurd (hss.id ▸ hmem) hun
    · rw [hw.offersOf_of_ne hne]
      exact h.unprocessed q hq hun
  · intro o ho
    rw [hids]
    rcases hw.mem_offers.mp ho with hold | hnew
    · obtain ⟨hprov, hproc, q, hq, hqid, k, hk, hoff⟩ := h.offers o hold
      obtain ⟨q', hq', hqq⟩ := (hw.grows hss).searches q hq
      exact ⟨hprov, hproc, q', hq', hqq.id.trans hqid, k, hk, hqq.providerRequest ▸ hoff⟩
    · obtain ⟨hprov, k, hk, hoff⟩ := hof o hnew
      rw [hw.owners o hnew]
      exact ⟨hprov, hmem, s', hw.mem_searches.mpr (Or.inl rfl), hss.id, k, hk,
        hss.providerRequest ▸ hoff⟩
  · intro j q hj
    by_cases hji : i = j
    · subst hji
      rw [List.getElem?_set_self hlt] at hj
      cases hj
      exact ⟨s', hw.mem_searches.mpr (Or.inl rfl), hss.id.trans (hs.trans hid.symm), hphase⟩
    · rw [List.getElem?_set_ne hji] at hj
      obtain ⟨t, ht, htid, hp⟩ := h.runs j q hj
      have hne : t.id ≠ s.id := by
        rw [htid, hs]
        exact h.ne hi hj (Ne.symm hji)
      exact ⟨t, hw.mem_searches.mpr (Or.inr ⟨ht, hne⟩), htid, (hp.other hw hne).mono hsub⟩

/-- Every step of a run keeps all runs where their searches say they are. -/
theorem Mocked.advance (h : Mocked sha256 as c) {x : MockChoice}
    (hg : processedOnce c (.advance i x) = true) (hi : c.procs[i]? = some r)
    (ha : (mocking sha256).advance c.store r x = some (w', r')) :
    Mocked sha256 (as ++ [.advance i x]) ⟨w', c.procs.set i r'⟩ := by
  have hstep : ProcessStep MockAirlineProvider.name c.store r (x.choice sha256 r) w' r' :=
    ProcessSearch.advance_step ha
  have hsub : as ⊆ as ++ [.advance i x] := List.subset_append_left ..
  have hid : r'.searchId = r.searchId := hstep.searchId
  obtain ⟨s, hs, hsid, hp⟩ := h.runs i r hi
  have hfind : c.store.db.search? r.searchId = some s := Database.search?_eq_some.mpr ⟨hs, hsid⟩
  have heq : ∀ {q}, c.store.db.search? r.searchId = some q → q = s := by
    intro q hq
    exact Option.some.inj (hq.symm.trans hfind)
  generalize hx : x.choice sha256 r = y at hstep
  cases hstep with
  | skipped hph hfin =>
    rw [hph] at hp
    have hfinal := hfin s hfind
    rw [hp.1] at hfinal
    exact absurd hfinal (by decide)
  | started hph hq hnf hw =>
    cases heq hq
    rw [hph] at hp
    refine h.rewritten hi hid hsub hw (.update ..) hsid (by simp) ⟨rfl, ?_⟩
    have hof := hw.offersOf_self
    rwa [hp.2, List.append_nil] at hof
  | called hph =>
    rw [hph] at hp
    exact h.still hi hid hsub rfl ⟨s, hs, hsid, hp⟩
  | answered hph =>
    rw [hph] at hp
    refine h.still hi hid hsub rfl ⟨s, hs, hsid, hp.1, hp.2, ?_⟩
    cases x with
    | answer now =>
      simp only [MockChoice.choice, hph, ProcessChoice.answer.injEq] at hx
      exact ⟨now, by simp, hx.symm⟩
    | _ => cases hx
  | raised hph =>
    cases x with
    | answer now =>
      simp only [MockChoice.choice, hph] at hx
      cases hx
    | _ => cases hx
  | cancelled hph =>
    cases x with
    | answer now =>
      simp only [MockChoice.choice, hph] at hx
      cases hx
    | _ => cases hx
  | lost _ hnone =>
    rw [hfind] at hnone
    cases hnone
  | @refused request items q newId now durationMs errorText e hph hq href =>
    cases heq hq
    rw [hph] at hp
    obtain ⟨rfl, hnil, at', hmem, rfl⟩ := hp
    cases x with
    | save newId' _ _ _ =>
      cases hx
      simp only [processedOnce, Bool.decide_and, Bool.and_eq_true, decide_eq_true_eq,
        List.all_eq_true] at hg
      obtain ⟨o, ho, k, hk, hoff⟩ :=
        exists_of_clashes hg.1 hg.2 (href _ (s.keptItems_search sha256 at'))
      refine h.still hi hid hsub rfl ⟨s, hs, hsid, o, ho, ?_, k, hk, hoff⟩
      intro he
      have hof : o ∈ c.store.db.offersOf s.id := List.mem_filter.mpr ⟨ho, by simp [he]⟩
      rw [hnil] at hof
      cases hof
    | answer now =>
      simp only [MockChoice.choice, hph] at hx
      cases hx
    | _ => cases hx
  | @saved request items kept q newId now durationMs errorText db' hph hq hk _ hw =>
    cases heq hq
    rw [hph] at hp
    obtain ⟨rfl, hnil, at', hmem, rfl⟩ := hp
    obtain rfl := Option.some.inj (hk.symm.trans (s.keptItems_search sha256 at'))
    refine h.rewritten hi hid hsub hw (.update ..) hsid ?_ (Or.inl ⟨rfl, at', newId, hsub hmem, ?_⟩)
    · intro o ho
      obtain ⟨hprov, _, k, hk, _, hoff⟩ := mem_newOffers_search ho
      exact ⟨hprov, k, hk, hoff⟩
    · have hof := hw.offersOf_self
      rwa [hnil, List.nil_append] at hof
  | unrecorded hph =>
    rw [hph] at hp
    exact h.still hi hid hsub rfl ⟨s, hs, hsid, Or.inr hp⟩
  | failed hph hq _ hw =>
    cases heq hq
    rw [hph] at hp
    exact h.rewritten hi hid hsub hw (.update ..) hsid (by simp) (Or.inr (Spoiled.mono hp hw))

theorem Mocked.spawn (h : Mocked sha256 as c) (hg : processedOnce c (.spawn r) = true)
    (hf : (mocking sha256).fresh r = true) :
    Mocked sha256 (as ++ [.spawn r]) ⟨c.store, c.procs ++ [r]⟩ := by
  have hsub : as ⊆ as ++ [.spawn r] := List.subset_append_left ..
  simp only [processedOnce, Bool.decide_and, Bool.and_eq_true, Bool.decide_eq_true,
    List.all_eq_true, decide_eq_true_eq, Option.isSome_iff_exists] at hg
  obtain ⟨⟨s, hrow⟩, hnew⟩ := hg
  obtain ⟨hs, hsid⟩ := Database.search?_eq_some.mp hrow
  have hnot : s.id ∉ c.procs.map (·.searchId) := by
    rw [List.mem_map, hsid]
    rintro ⟨q, hq, he⟩
    exact hnew q hq he
  refine ⟨?_, ?_, ?_, ?_⟩
  · rw [List.map_append, List.nodup_append]
    refine ⟨h.once, by simp, ?_⟩
    rintro id hid _ hr rfl
    obtain rfl : id = r.searchId := List.mem_singleton.mp hr
    exact hnot (hsid ▸ hid)
  · intro q hq hun
    refine h.unprocessed q hq fun hmem => hun ?_
    rw [List.map_append]
    exact List.mem_append_left _ hmem
  · intro o ho
    obtain ⟨hprov, hproc, hk⟩ := h.offers o ho
    rw [List.map_append]
    exact ⟨hprov, List.mem_append_left _ hproc, hk⟩
  · intro i q hi
    rcases Program.getElem?_concat hi with hi | ⟨_, rfl⟩
    · obtain ⟨t, ht, htid, hp⟩ := h.runs i q hi
      exact ⟨t, ht, htid, hp.mono hsub⟩
    · refine ⟨s, hs, hsid, ?_⟩
      have hph : q.phase = .requested := mocking_fresh.mp hf
      rw [hph]
      exact h.unprocessed s hs hnot

end Steps

section Runs

variable {sha256 : String → String} {w : World} {c c' : Processing}
  {as : List (Action ProcessSearch MockChoice)} {a : Action ProcessSearch MockChoice}

theorem Mocked.start (hw : Waiting w.db) : Mocked sha256 [] (Program.start w) where
  once := List.nodup_nil
  unprocessed s hs _ := by
    refine ⟨hw.searches s hs, ?_⟩
    simp [Program.start, Database.offersOf, hw.offers]
  offers o ho := by
    rw [Program.start, Table.mem_def, hw.offers] at ho
    cases ho
  runs i r hi := by
    simp [Program.start] at hi

theorem Mocked.of_run (hw : Waiting w.db)
    (h : (mocking sha256).machine.RunWhere (fun c a => processedOnce c a) (Program.start w) as c) :
    Mocked sha256 as c := by
  refine h.trace (I := Mocked sha256) ?_ (Mocked.start hw)
  intro as c a c' hg hs h
  cases a with
  | spawn r =>
    obtain ⟨hf, rfl⟩ := Program.step_spawn_iff.mp hs
    exact h.spawn hg hf
  | advance i x =>
    obtain ⟨r, w', r', hi, ha, rfl⟩ := Program.step_advance_iff.mp hs
    exact h.advance hg hi ha

/-- What the searches ask the provider for. -/
def Database.requests (db : Database) : List (String × ProviderSearchRequest) :=
  db.searches.rows.map fun s => (s.id, s.providerRequest)

theorem Rewritten.requests {db db' : Database} {s s' : FlightSearch} {offers : List Offer}
    (h : Rewritten db db' s s' offers) (hss : SameSearch s s') : db'.requests = db.requests := by
  rw [Database.requests, h.searches]
  refine map_amend _ fun q hq hid => ?_
  rw [Database.search_ext hq h.search_mem (by simpa using hid), hss.id, hss.providerRequest]

theorem requests_of_step (h : (mocking sha256).machine.step c a = some c') :
    c'.store.db.requests = c.store.db.requests := by
  cases a with
  | spawn r =>
    obtain ⟨_, rfl⟩ := Program.step_spawn_iff.mp h
    rfl
  | advance i x =>
    obtain ⟨r, w', r', _, ha, rfl⟩ := Program.step_advance_iff.mp h
    rcases (ProcessSearch.advance_step ha).db with hdb | ⟨_, _, _, _, hss, hw⟩
    · exact congrArg Database.requests hdb
    · exact hw.requests hss

theorem SeedsApart.congr {db db' : Database} {ids : List String}
    (h : SeedsApart sha256 db ids) (he : db'.requests = db.requests) :
    SeedsApart sha256 db' ids := by
  have hback : ∀ s ∈ db'.searches, ∃ q ∈ db.searches, q.id = s.id ∧
      q.seed12 sha256 = s.seed12 sha256 := by
    intro s hs
    have hmem : (s.id, s.providerRequest) ∈ db.requests := he ▸ List.mem_map.mpr ⟨s, hs, rfl⟩
    obtain ⟨q, hq, hpair⟩ := List.mem_map.mp hmem
    obtain ⟨hid, hreq⟩ := Prod.mk.inj hpair
    exact ⟨q, hq, hid, by rw [FlightSearch.seed12, hreq, FlightSearch.seed12]⟩
  intro s hs t ht hsid htid hseed
  obtain ⟨p, hp, hpid, hpseed⟩ := hback s hs
  obtain ⟨q, hq, hqid, hqseed⟩ := hback t ht
  rw [← hpid, ← hqid]
  apply h p hp q hq (hpid ▸ hsid) (hqid ▸ htid)
  rw [hpseed, hqseed, hseed]

theorem CompletedBy.exists_offer {db : Database} {i : ℕ} {s : FlightSearch}
    (h : CompletedBy sha256 as db i s) : ∃ o ∈ db.offers, o.searchId = s.id ∧
      o.provider = MockAirlineProvider.name ∧
      o.providerOfferId = MockAirlineProvider.offerId sha256 s.providerRequest 0 := by
  obtain ⟨_, now, newId, _, hof⟩ := h
  have hlt : 0 < (newOffers MockAirlineProvider.name s.id newId
      (MockAirlineProvider.search sha256 s.providerRequest now)).length := by
    rw [newOffers, List.length_mapIdx, MockAirlineProvider.length_search]
    decide
  have hmem : ∀ o ∈ newOffers MockAirlineProvider.name s.id newId
      (MockAirlineProvider.search sha256 s.providerRequest now), o ∈ db.offers := by
    intro o ho
    rw [← hof] at ho
    exact (List.mem_filter.mp ho).1
  refine ⟨_, hmem _ (List.getElem_mem hlt), rfl, rfl, ?_⟩
  simp only [newOffers, List.getElem_mapIdx, newOffer]
  exact MockAirlineProvider.getElem_search sha256 _ now _

theorem CompletedBy.id_eq {db : Database} {i j : ℕ} {s t : FlightSearch}
    (hs : CompletedBy sha256 as db i s) (ht : CompletedBy sha256 as db j t)
    (hseed : s.seed12 sha256 = t.seed12 sha256) : s.id = t.id := by
  obtain ⟨o, ho, hos, hop, hoid⟩ := hs.exists_offer
  obtain ⟨p, hp, hps, hpp, hpid⟩ := ht.exists_offer
  have hoff : o.providerOfferId = p.providerOfferId := by
    rw [hoid, hpid, MockAirlineProvider.offerId_eq_iff sha256 (by decide) (by decide)]
    exact ⟨hseed, rfl⟩
  have heq : o = p := Table.eq_of_col (c := fun o => some [o.provider, o.providerOfferId])
    (by simp [Offer.uniques]) ho hp rfl (by simp [hop, hpp, hoff])
  rw [← hos, ← hps, heq]

/-- Among searches whose digests start differently no offer stands in the way of another. -/
theorem Mocked.not_spoiled (h : Mocked sha256 as c)
    (hap : SeedsApart sha256 c.store.db (c.procs.map (·.searchId))) {s : FlightSearch}
    (hs : s ∈ c.store.db.searches) (hmem : s.id ∈ c.procs.map (·.searchId)) :
    ¬ Spoiled sha256 c.store.db s := by
  rintro ⟨o, ho, hne, k, hk, hoff⟩
  obtain ⟨_, hproc, q, hq, hqid, j, hj, hqoff⟩ := h.offers o ho
  have hseed : q.seed12 sha256 = s.seed12 sha256 :=
    ((MockAirlineProvider.offerId_eq_iff sha256 hj hk).mp (hqoff.symm.trans hoff)).1
  exact hne (hqid.symm.trans (hap q hq s hs (hqid ▸ hproc) hmem hseed))

/-- When all runs have ended, each search has completed with all its offers exactly if no two of
the searches have digests that start alike. -/
theorem all_completed_iff (hw : Waiting w.db)
    (h : (mocking sha256).machine.RunWhere (fun c a => processedOnce c a) (Program.start w) as c)
    (hdone : ∀ r ∈ c.procs, ∃ result, r.phase = .done result) :
    (∀ i r, c.procs[i]? = some r → ∃ s ∈ c.store.db.searches, s.id = r.searchId ∧
      CompletedBy sha256 as c.store.db i s) ↔
    SeedsApart sha256 w.db (c.procs.map (·.searchId)) := by
  have hm : Mocked sha256 as c := .of_run hw h
  have hreq : c.store.db.requests = w.db.requests :=
    h.invariant (I := fun c => c.store.db.requests = w.db.requests)
      (fun _ _ _ _ hs he => (requests_of_step hs).trans he) rfl
  constructor
  · intro hall
    have hap : SeedsApart sha256 c.store.db (c.procs.map (·.searchId)) := by
      intro s hs t ht hsid htid hseed
      obtain ⟨p, hp, hpid⟩ := List.mem_map.mp hsid
      obtain ⟨q, hq, hqid⟩ := List.mem_map.mp htid
      obtain ⟨i, hi⟩ := List.mem_iff_getElem?.mp hp
      obtain ⟨j, hj⟩ := List.mem_iff_getElem?.mp hq
      obtain ⟨s', hs', hsp, hsc⟩ := hall i p hi
      obtain ⟨t', ht', htq, htc⟩ := hall j q hj
      obtain rfl := Database.search_ext hs' hs (hsp.trans hpid)
      obtain rfl := Database.search_ext ht' ht (htq.trans hqid)
      exact hsc.id_eq htc hseed
    exact hap.congr hreq.symm
  · intro hap i r hi
    obtain ⟨s, hs, hsid, hp⟩ := hm.runs i r hi
    obtain ⟨result, hph⟩ := hdone r (List.mem_of_getElem? hi)
    rw [hph] at hp
    refine ⟨s, hs, hsid, hp.resolve_right fun hsp => ?_⟩
    have hmem : s.id ∈ c.procs.map (·.searchId) :=
      List.mem_map.mpr ⟨r, List.mem_of_getElem? hi, hsid.symm⟩
    exact hm.not_spoiled (hap.congr hreq) hs hmem hsp

end Runs

/-! ## Two searches -/

namespace Example

/-- Two searches of the agent, the second one for two passengers from the given airport. -/
def pendingSearches (origin : String) (h : Fits 3 origin) : List FlightSearch :=
  [{ search with status := .pending, completedAt := none },
    { search with
      id := "search-1"
      origin := origin
      adults := 2
      status := .pending
      completedAt := none
      origin_fits := h
      adults_bounds := by decide }]

theorem distinct_pendingSearches (origin : String) (h : Fits 3 origin) :
    (pendingSearches origin h).Pairwise (Relational.Distinct FlightSearch.uniques) := by
  simp [pendingSearches, Relational.Distinct, FlightSearch.uniques, search]

def waiting (origin : String) (h : Fits 3 origin) : World where
  db := { offered.db with
    searches := ⟨pendingSearches origin h, distinct_pendingSearches origin h⟩
    offers := .empty }
  history := []

/-- A run on the search up to the block that stores the answer. -/
def saveAnswer (i : ℕ) (searchId offerId : String) : List (Action ProcessSearch MockChoice) :=
  [.spawn ⟨searchId, .requested⟩, .advance i .start, .advance i .call, .advance i (.answer 10),
    .advance i (.save (fun k => offerId ++ toString k) 20 5 "uq_provider_offer")]

def bothSearched : List (Action ProcessSearch MockChoice) :=
  saveAnswer 0 "search" "offer" ++ saveAnswer 1 "search-1" "other"

end Example

theorem exists_done {procs : List ProcessSearch}
    (h : procs.all (fun r => r.phase matches .done _) = true) :
    ∀ r ∈ procs, ∃ result, r.phase = .done result := by
  intro r hr
  have hd := List.all_eq_true.mp h r hr
  split at hd
  · exact ⟨_, by assumption⟩
  · cases hd

/-- Of two searches for one route and date the second one fails. -/
theorem not_all_completed_sameRoute : ¬ ∀ (sha256 : String → String) (w : World)
    (as : List (Action ProcessSearch MockChoice)) (c : Processing), Waiting w.db →
    (mocking sha256).machine.RunWhere (fun c a => processedOnce c a) (Program.start w) as c →
    (∀ r ∈ c.procs, ∃ result, r.phase = .done result) →
    ∀ i r, c.procs[i]? = some r → ∃ s ∈ c.store.db.searches, s.id = r.searchId ∧
      CompletedBy sha256 as c.store.db i s := by
  intro hall
  have hrun : ((mocking id).machine.execWhere (fun c a => processedOnce c a)
      (Program.start (Example.waiting "TAS" (by decide)))
      (Example.bothSearched ++ [.advance 1 (.fail 5)])).map (fun c =>
        (c.procs.map (·.searchId), c.procs.all (fun r => r.phase matches .done _),
          (c.store.db.search? "search-1").map (·.status))) =
      some (["search", "search-1"], true, some .failed) := by
    decide +kernel
  obtain ⟨c, hc, he⟩ := Option.map_eq_some_iff.mp hrun
  simp only [Prod.mk.injEq, Option.map_eq_some_iff] at he
  obtain ⟨hids, hdone, q, hq, hfailed⟩ := he
  obtain ⟨r, hr, hrid⟩ : ∃ r, c.procs[1]? = some r ∧ r.searchId = "search-1" := by
    rw [← Option.map_eq_some_iff, ← List.getElem?_map, hids]
    rfl
  obtain ⟨s, hs, hsid, hcompleted, _⟩ := hall id _ _ c ⟨rfl, by decide⟩
    (Machine.runWhere_of_execWhere hc) (exists_done hdone) 1 r hr
  obtain ⟨hqmem, hqid⟩ := Database.search?_eq_some.mp hq
  obtain rfl := Database.search_ext hs hqmem ((hsid.trans hrid).trans hqid.symm)
  rw [hfailed] at hcompleted
  cases hcompleted

theorem all_completed_iff_twoRoutes : ∃ c : Processing,
    c.procs.map (·.searchId) = ["search", "search-1"] ∧
    ∀ i r, c.procs[i]? = some r → ∃ s ∈ c.store.db.searches, s.id = r.searchId ∧
      CompletedBy id Example.bothSearched c.store.db i s := by
  have hrun : ((mocking id).machine.execWhere (fun c a => processedOnce c a)
      (Program.start (Example.waiting "BHK" (by decide))) Example.bothSearched).map (fun c =>
        (c.procs.map (·.searchId), c.procs.all (fun r => r.phase matches .done _))) =
      some (["search", "search-1"], true) := by
    decide +kernel
  obtain ⟨c, hc, he⟩ := Option.map_eq_some_iff.mp hrun
  obtain ⟨hids, hdone⟩ := Prod.mk.inj he
  have hapart : SeedsApart id (Example.waiting "BHK" (by decide)).db ["search", "search-1"] := by
    simp only [SeedsApart, Table.mem_def]
    decide +kernel
  exact ⟨c, hids, (all_completed_iff ⟨rfl, by decide⟩ (Machine.runWhere_of_execWhere hc)
    (exists_done hdone)).mpr (hids ▸ hapart)⟩

end Ioka
