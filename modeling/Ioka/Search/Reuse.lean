import Ioka.Search.CachedAnswers

/-! # Searches found in the cache

Once a key is in the cache, calls that arrive later find its search there. As long as their own
reads succeed and the search is not expired, they return it and store nothing, publish nothing and
hand nothing to a task, whatever calls with the same key still write from before.
-/

namespace Ioka

open Relational Transition

/-- Every entry of the cache names a stored search. -/
def CacheNames (s : Platform) : Prop :=
  ∀ key cached, s.cache.get key = some cached →
    ∃ q ∈ s.world.db.searches, cachedSearchId cached = some q.id

/-- The search that a call is about to name in the cache is stored. -/
def Job.NamesStored (db : Database) : Job → Prop
  | .inl r => ∀ search, r.phase = .created search → ∃ q ∈ db.searches, q.id = search.id
  | _ => True

/-- The call has written nothing, and returns a stored search if it returns. -/
def StartSearch.Reuses (db : Database) (r : StartSearch) : Prop :=
  match r.phase with
  | .requested => True
  | .cached searchId => ∃ q ∈ db.searches, q.id = searchId
  | .done (.ok search) => ∃ q ∈ db.searches, SameSearch search q
  | _ => False

/-- The search that the call reads at the time is not expired. -/
def StartSearch.unexpired (db : Database) (now : Time) (r : StartSearch) : Bool :=
  match r.phase with
  | .cached searchId => (db.search? searchId).all fun q => now < q.expiresAt
  | _ => true

/-- The reads of one call find the entry, and a search that is not expired. -/
def rereads (i : ℕ) (c : Serving) : Action Job JobChoice → Bool
  | .advance k (.inl (.readCache available)) => k ≠ i ∨ available
  | .advance k (.inl (.readRow now)) => k ≠ i ∨ c.procs[k]?.all fun j =>
    j.elim (fun r => r.unexpired c.store.world.db now) fun _ => true
  | _ => true

section Steps

variable {d : Deployment} {s s' : Platform} {j j' : Job} {x : JobChoice} {r r' : StartSearch}
  {y : StartChoice} {db db' : Database} {c : Serving} {i : ℕ}

theorem StartSearch.Reuses.mono (h : r.Reuses db) (hp : SearchesPersist db db') :
    r.Reuses db' := by
  obtain ⟨_, _, _, phase⟩ := r
  cases phase with
  | requested => trivial
  | cached searchId =>
    obtain ⟨q, hq, hid⟩ := h
    obtain ⟨q', hq', hs⟩ := hp q hq
    exact ⟨q', hq', hs.id.trans hid⟩
  | missed | created | remembered => exact h.elim
  | done result =>
    cases result with
    | ok search =>
      obtain ⟨q, hq, hs⟩ := h
      obtain ⟨q', hq', hs'⟩ := hp q hq
      exact ⟨q', hq', hs.trans hs'⟩
    | error e => exact h.elim

theorem Job.NamesStored.mono (h : j.NamesStored db) (hp : SearchesPersist db db') :
    j.NamesStored db' := by
  rcases j with r | j
  · intro search hph
    obtain ⟨q, hq, hid⟩ := h search hph
    obtain ⟨q', hq', hs⟩ := hp q hq
    exact ⟨q', hq', hs.id.trans hid⟩
  · trivial

theorem CacheNames.mono (h : CacheNames s) (hc : s'.cache = s.cache)
    (hp : SearchesPersist s.world.db s'.world.db) : CacheNames s' := by
  intro key cached hget
  rw [hc] at hget
  obtain ⟨q, hq, hid⟩ := h key cached hget
  obtain ⟨q', hq', hs⟩ := hp q hq
  exact ⟨q', hq', by rw [hid, hs.id]⟩

theorem StartStep.request_eq (h : StartStep d s r y s' r') :
    r'.agentId = r.agentId ∧ r'.payload = r.payload := by
  cases h <;> exact ⟨rfl, rfl⟩

theorem StartStep.isSome_get (h : StartStep d s r y s' r') {key : String}
    (hk : (s.cache.get key).isSome) : (s'.cache.get key).isSome := by
  cases h with
  | remembered _ hcache =>
    rcases hcache with rfl | rfl
    · exact hk
    · rw [SearchCache.get_set]
      split
      · rfl
      · exact hk
  | _ => exact hk

theorem StartStep.cacheNames (h : StartStep d s r y s' r') (hI : CacheNames s)
    (hJ : Job.NamesStored s.world.db (.inl r)) :
    CacheNames s' ∧ Job.NamesStored s'.world.db (.inl r') := by
  cases h with
  | cached | unlisted | expired | found | refused | undispatched =>
    exact ⟨hI, by simp [Job.NamesStored, StartSearch.finish]⟩
  | started | published => exact ⟨hI, by simp [Job.NamesStored, StartSearch.finish]⟩
  | created hp hst =>
    refine ⟨hI.mono rfl hst.grows.searches, ?_⟩
    rintro search hph
    cases hph
    exact ⟨_, hst.mem_searches.mpr (Or.inr rfl), rfl⟩
  | @remembered _ search cache hp hcache =>
    refine ⟨?_, by simp [Job.NamesStored]⟩
    rcases hcache with rfl | rfl
    · exact hI
    · intro key cached hget
      rw [SearchCache.get_set] at hget
      split at hget
      · cases hget
        obtain ⟨q, hq, hid⟩ := hJ search hp
        exact ⟨q, hq, congrArg some hid.symm⟩
      · exact hI key cached hget

theorem JobStep.cacheNames (h : JobStep d s j x s' j') (hI : CacheNames s)
    (hJ : j.NamesStored s.world.db) : CacheNames s' ∧ j'.NamesStored s'.world.db := by
  have hp := h.searchesPersist
  cases h with
  | start ha => exact (StartSearch.advance_step ha).cacheNames hI hJ
  | process => exact ⟨hI.mono rfl hp, trivial⟩
  | book => exact ⟨hI.mono rfl hp, trivial⟩

theorem JobStep.isSome_get (h : JobStep d s j x s' j') {key : String}
    (hk : (s.cache.get key).isSome) : (s'.cache.get key).isSome := by
  cases h with
  | start ha => exact (StartSearch.advance_step ha).isSome_get hk
  | process => exact hk
  | book => exact hk

/-- A call that finds its key and a search that is not expired changes nothing. -/
theorem StartSearch.Reuses.advance (hset : d.settings.cache = true) (hI : CacheNames s)
    (hk : (s.cache.get (r.cacheKey d.sha256)).isSome) (hr : r.Reuses s.world.db)
    (hread : ∀ available, y = .readCache available → available = true)
    (hrow : ∀ now, y = .readRow now → r.unexpired s.world.db now = true)
    (ha : r.advance d.settings d.sha256 s y = some (s', r')) :
    s' = s ∧ r'.Reuses s.world.db := by
  obtain ⟨cached, hget⟩ := Option.isSome_iff_exists.mp hk
  obtain ⟨q, hq, hid⟩ := hI _ cached hget
  cases (StartSearch.advance_step ha) with
  | cached hp hget' hid' =>
    obtain rfl := Option.some.inj (hget.symm.trans hget')
    obtain rfl := Option.some.inj (hid.symm.trans hid')
    exact ⟨rfl, q, hq, rfl⟩
  | @unlisted available hp =>
    -- the step would have found the entry
    obtain rfl := hread available rfl
    simp [StartSearch.advance, hp, hset, hget, hid] at ha
  | @expired searchId now hp hexp =>
    rw [Reuses, hp] at hr
    obtain ⟨p, hpm, rfl⟩ := hr
    have hfound : s.world.db.search? p.id = some p :=
      Database.search?_eq_some.mpr ⟨hpm, rfl⟩
    have hnow := hrow now rfl
    rw [unexpired, hp] at hnow
    simp only [hfound, Option.all_some, decide_eq_true_eq] at hnow
    exact absurd (hexp p hfound) (not_le.mpr hnow)
  | found hp hfound hnow =>
    obtain ⟨hmem, _⟩ := Database.search?_eq_some.mp hfound
    exact ⟨rfl, _, hmem, .refl _⟩
  | refused hp | created hp | remembered hp | started hp | published hp | undispatched hp =>
    rw [Reuses, hp] at hr
    exact hr.elim

end Steps

section Runs

variable {d : Deployment} {w : World} {c c' c'' : Serving} {as bs : List (Action Job JobChoice)}
  {a : Action Job JobChoice} {i : ℕ} {key : String} {r r' : StartSearch} {x : JobChoice}
  {y : StartChoice} {G : Serving → Action Job JobChoice → Prop}

/-- The entries of the cache and the calls that write them. -/
abbrev Named : Serving → Prop :=
  Program.Holds CacheNames fun s j => Job.NamesStored s.world.db j

theorem named_of_run (h : (serving d).machine.RunWhere G c as c') (hc : Named c) : Named c' := by
  refine Program.holds_of_run ?_ ?_ h hc
  · rintro c (r | j) _ hf _
    · have hp : r.phase = .requested := serving_fresh_start.mp hf
      simp [Job.NamesStored, hp]
    · trivial
  · intro c i x j s' j' _ hj ha hI hJ
    have hstep := serving_step ha
    obtain ⟨hI', hJ'⟩ := hstep.cacheNames hI hJ
    exact ⟨hI', hJ', fun q _ hq => hq.mono hstep.searchesPersist⟩

theorem named_start (w : World) : Named (Program.start (Platform.start w)) := by
  apply Program.holds_start
  intro key cached hget
  cases hget

/-- The entry of the key is there, and the call has written nothing. -/
structure Reusing (sha256 : String → String) (key : String) (i : ℕ) (c : Serving) : Prop where
  names : Named c
  listed : (c.store.cache.get key).isSome
  reuses : ∀ r, c.procs[i]? = some (.inl r) → r.cacheKey sha256 = key →
    r.Reuses c.store.world.db

theorem reads_of_rereads (hi : c.procs[i]? = some (.inl r))
    (hg : rereads i c (.advance i (.inl y)) = true) :
    (∀ available, y = .readCache available → available = true) ∧
      ∀ now, y = .readRow now → r.unexpired c.store.world.db now = true := by
  constructor
  · rintro available rfl
    simpa [rereads] using hg
  · rintro now rfl
    simpa [rereads, hi] using hg

theorem Reusing.store_eq (hset : d.settings.cache = true) (hc : Reusing d.sha256 key i c)
    (hr : c.procs[i]? = some (.inl r)) (hrk : r.cacheKey d.sha256 = key)
    (hg : rereads i c (.advance i x) = true)
    (hs : (serving d).machine.step c (.advance i x) = some c') :
    c'.store = c.store ∧ ∀ r', c'.procs[i]? = some (.inl r') → r'.Reuses c.store.world.db := by
  obtain ⟨j, s', j', hj, ha, rfl⟩ := Program.step_advance_iff.mp hs
  obtain rfl := Option.some.inj (hr.symm.trans hj)
  cases serving_step ha with
  | start hb =>
    obtain ⟨hread, hrow⟩ := reads_of_rereads hr hg
    obtain ⟨hst, hr'⟩ := StartSearch.Reuses.advance hset hc.names.1 (by rw [hrk]; exact hc.listed)
      (hc.reuses r hr hrk) hread hrow hb
    refine ⟨hst, ?_⟩
    intro p hp
    rw [List.getElem?_set_self (List.getElem?_eq_some_iff.mp hr).1] at hp
    cases hp
    exact hr'

theorem Reusing.step (hset : d.settings.cache = true) (hg : rereads i c a = true)
    (hs : (serving d).machine.step c a = some c') (hc : Reusing d.sha256 key i c) :
    Reusing d.sha256 key i c' := by
  have hnamed : Named c' :=
    named_of_run (G := fun _ _ => True) (.cons trivial hs (.nil c')) hc.names
  cases a with
  | spawn j =>
    obtain ⟨hf, rfl⟩ := Program.step_spawn_iff.mp hs
    refine ⟨hnamed, hc.listed, ?_⟩
    intro r hr hrk
    rcases Program.getElem?_concat hr with hold | ⟨_, rfl⟩
    · exact hc.reuses r hold hrk
    · have hp : r.phase = .requested := serving_fresh_start.mp hf
      rw [StartSearch.Reuses, hp]
      trivial
  | advance k x =>
    obtain ⟨j, s', j', hj, ha, rfl⟩ := Program.step_advance_iff.mp hs
    have hstep := serving_step ha
    refine ⟨hnamed, hstep.isSome_get hc.listed, ?_⟩
    intro r' hr' hrk
    by_cases hki : k = i
    · subst hki
      have hset' := hr'
      rw [List.getElem?_set_self (List.getElem?_eq_some_iff.mp hj).1] at hset'
      obtain rfl := Option.some.inj hset'
      cases hstep with
      | @start r _ y _ hb =>
        obtain ⟨hag, hpay⟩ := (StartSearch.advance_step hb).request_eq
        have hkey : r.cacheKey d.sha256 = key := by
          rw [← hrk, StartSearch.cacheKey, StartSearch.cacheKey, hag, hpay]
        obtain ⟨hst, hreuse⟩ := hc.store_eq hset hj hkey hg hs
        exact (hreuse r' hr').mono (.of_eq (by rw [hst]))
    · rw [List.getElem?_set_ne hki] at hr'
      exact (hc.reuses r' hr' hrk).mono hstep.searchesPersist

/-- From any reachable state with an entry for the key, a call that arrives later with that key
reuses a stored search, as long as its own reads find the entry and a search that is not expired:
none of its steps changes anything. -/
theorem start_reuses (hset : d.settings.cache = true)
    (h : (serving d).machine.Run (Program.start (Platform.start w)) as c)
    (hk : (c.store.cache.get key).isSome) (hi : c.procs.length ≤ i)
    (h' : (serving d).machine.RunWhere (fun c a => rereads i c a = true) c bs c')
    (hr : c'.procs[i]? = some (.inl r)) (hrk : r.cacheKey d.sha256 = key) :
    r.Reuses c'.store.world.db ∧
      ∀ x c'', rereads i c' (.advance i x) = true →
        (serving d).machine.step c' (.advance i x) = some c'' → c''.store = c'.store := by
  have hc : Reusing d.sha256 key i c := by
    refine ⟨named_of_run h (named_start w), hk, ?_⟩
    intro r hr
    rw [List.getElem?_eq_none hi] at hr
    cases hr
  have hc' := h'.invariant (I := Reusing d.sha256 key i) ?_ hc
  · refine ⟨hc'.reuses r hr hrk, ?_⟩
    intro x c'' hg hs
    exact (hc'.store_eq hset hr hrk hg hs).1
  · intro c a c' hg hs hc
    exact hc.step hset hg hs

end Runs

/-- A call that arrives when an earlier one has written the cache returns the search of that. -/
theorem start_reuses_searchedTwice : ∃ (c : Serving) (r : StartSearch),
    c.procs[1]? = some (.inl r) ∧ Example.returned c = ["search"] ∧
      r.Reuses c.store.world.db := by
  have hrun : ((serving Example.deployment).machine.exec
      (Program.start (Platform.start Example.bare))
      (.spawn (Example.startCall 100) :: Example.startSteps 0)).bind (fun c =>
        ((serving Example.deployment).machine.execWhere (fun c a => rereads 1 c a) c
          (.spawn (Example.startCall 200) :: Example.cachedSteps 1)).bind fun c' =>
            (c'.procs[1]?.bind Sum.getLeft?).map fun r =>
              (c.procs.length, (c.store.cache.get (r.cacheKey id)).isSome,
                Example.returned c')) = some (1, true, ["search"]) := by
    decide +kernel
  obtain ⟨c, hc, hrun⟩ := Option.bind_eq_some_iff.mp hrun
  obtain ⟨c', hc', hrun⟩ := Option.bind_eq_some_iff.mp hrun
  obtain ⟨r, hr, hrun⟩ := Option.map_eq_some_iff.mp hrun
  simp only [Prod.mk.injEq] at hrun
  obtain ⟨hlen, hk, hret⟩ := hrun
  obtain ⟨j, hj, hl⟩ := Option.bind_eq_some_iff.mp hr
  obtain rfl := Sum.getLeft?_eq_some_iff.mp hl
  obtain ⟨hreuse, _⟩ := start_reuses rfl (Machine.exec_eq_some_iff.mp hc) hk (le_of_eq hlen)
    (Machine.runWhere_of_execWhere hc') hj rfl
  exact ⟨c', r, hj, hret, hreuse⟩

end Ioka
