import Mathlib.Tactic.Linarith
import Ioka.Platform.Reachable

/-! # Answers from the cache

A call that finds its key in the cache returns a row that it never compares with
its own request. The row still answers the request, because a key stands for one
agent and one request, and every entry names a search that was stored for it.
-/

namespace Ioka

open Relational Transition

/-- The search is what the agent asked for. -/
structure Asked (agentId : String) (payload : SearchRequest) (s : FlightSearch) : Prop where
  agentId : s.agentId = agentId
  origin : s.origin = payload.origin
  destination : s.destination = payload.destination
  departureDate : s.departureDate = payload.departureDate
  adults : s.adults = payload.adults
  cabinClass : s.cabinClass = payload.cabinClass.value

/-- The search is what the call asked for, and was not expired when the call was made. -/
structure Answers (r : StartSearch) (s : FlightSearch) : Prop extends
    Asked r.agentId r.payload s where
  expiresAt : r.calledAt < s.expiresAt

/-- The time that a step of a call reads. -/
def StartChoice.now? : StartChoice → Option Time
  | .readRow now | .create _ now => some now
  | _ => none

/-- No step of a call reads a time before the call. -/
def timely (c : Serving) : Action Job JobChoice → Bool
  | .advance i (.inl x) => c.procs[i]?.all fun j =>
    j.elim (fun r => x.now?.all fun now => r.calledAt ≤ now) fun _ => true
  | _ => true

/-- Searches are kept, apart from what processing writes in them. -/
def SearchesPersist (db db' : Database) : Prop :=
  ∀ s ∈ db.searches, ∃ s' ∈ db'.searches, SameSearch s s'

/-- Every entry of the cache names a search that was stored for its key. -/
def CacheSound (sha256 : String → String) (s : Platform) : Prop :=
  ∀ key cached searchId, s.cache.get key = some cached → cachedSearchId cached = some searchId →
    ∃ agentId payload, key = requestHash sha256 (searchKeyPayload agentId payload) ∧
      ∃ q ∈ s.world.db.searches, q.id = searchId ∧ Asked agentId payload q

/-- What a call holds was stored for its request. -/
def StartSearch.Known (db : Database) (r : StartSearch) : Prop :=
  match r.phase with
  | .cached searchId => ∃ q ∈ db.searches, q.id = searchId ∧ Asked r.agentId r.payload q
  | .created search | .remembered search =>
    Asked r.agentId r.payload search ∧ ∃ q ∈ db.searches, SameSearch search q
  | .done (.ok search) => Asked r.agentId r.payload search
  | _ => True

/-- What a call holds answers its request. -/
def StartSearch.Holds (db : Database) (r : StartSearch) : Prop :=
  match r.phase with
  | .cached searchId => ∃ q ∈ db.searches, q.id = searchId ∧ Asked r.agentId r.payload q
  | .created search | .remembered search =>
    Answers r search ∧ ∃ q ∈ db.searches, SameSearch search q
  | .done (.ok search) => Answers r search
  | _ => True

def Job.HoldsAnswer (db : Database) : Job → Prop
  | .inl r => r.Holds db
  | _ => True

section Persist

variable {db db' : Database} {s s' : FlightSearch} {agentId : String} {payload : SearchRequest}
  {r : StartSearch} {j : Job}

theorem Asked.same (h : Asked agentId payload s) (hs : SameSearch s s') :
    Asked agentId payload s' where
  agentId := hs.agentId.trans h.agentId
  origin := hs.origin.trans h.origin
  destination := hs.destination.trans h.destination
  departureDate := hs.departureDate.trans h.departureDate
  adults := hs.adults.trans h.adults
  cabinClass := hs.cabinClass.trans h.cabinClass

theorem StartSearch.Known.mono (h : r.Known db) (hp : SearchesPersist db db') : r.Known db' := by
  obtain ⟨_, _, _, phase⟩ := r
  cases phase with
  | cached searchId =>
    obtain ⟨q, hq, hid, ha⟩ := h
    obtain ⟨q', hq', hs⟩ := hp q hq
    exact ⟨q', hq', hs.id.trans hid, ha.same hs⟩
  | created search | remembered search =>
    obtain ⟨ha, q, hq, hs⟩ := h
    obtain ⟨q', hq', hs'⟩ := hp q hq
    exact ⟨ha, q', hq', hs.trans hs'⟩
  | requested | missed => trivial
  | done result => cases result <;> exact h

theorem StartSearch.Holds.known (h : r.Holds db) : r.Known db := by
  obtain ⟨_, _, _, phase⟩ := r
  cases phase with
  | cached | requested | missed => exact h
  | created search | remembered search => exact ⟨h.1.toAsked, h.2⟩
  | done result =>
    cases result with
    | ok search => exact Answers.toAsked h
    | error e => trivial

theorem StartSearch.Holds.mono (h : r.Holds db) (hp : SearchesPersist db db') : r.Holds db' := by
  obtain ⟨_, _, _, phase⟩ := r
  cases phase with
  | cached searchId =>
    obtain ⟨q, hq, hid, ha⟩ := h
    obtain ⟨q', hq', hs⟩ := hp q hq
    exact ⟨q', hq', hs.id.trans hid, ha.same hs⟩
  | created search | remembered search =>
    obtain ⟨ha, q, hq, hs⟩ := h
    obtain ⟨q', hq', hs'⟩ := hp q hq
    exact ⟨ha, q', hq', hs.trans hs'⟩
  | requested | missed => trivial
  | done result => cases result <;> exact h

theorem Job.HoldsAnswer.mono (h : j.HoldsAnswer db) (hp : SearchesPersist db db') :
    j.HoldsAnswer db' := by
  rcases j with r | j
  · exact StartSearch.Holds.mono (r := r) h hp
  · trivial

theorem CacheSound.mono {sha256 : String → String} {p p' : Platform} (h : CacheSound sha256 p)
    (hc : p'.cache = p.cache) (hp : SearchesPersist p.world.db p'.world.db) :
    CacheSound sha256 p' := by
  intro key cached searchId hget hid
  rw [hc] at hget
  obtain ⟨agentId, payload, hkey, q, hq, hqid, ha⟩ := h key cached searchId hget hid
  obtain ⟨q', hq', hs⟩ := hp q hq
  exact ⟨agentId, payload, hkey, q', hq', hs.id.trans hqid, ha.same hs⟩

theorem SearchesPersist.of_eq (h : db'.searches = db.searches) : SearchesPersist db db' :=
  fun s hs => ⟨s, h ▸ hs, .refl s⟩

end Persist

section Steps

variable {d : Deployment} {s s' : Platform} {j j' : Job} {x : JobChoice} {r r' : StartSearch}
  {y : StartChoice} {c c' : Serving} {as : List (Action Job JobChoice)}

theorem JobStep.searchesPersist (h : JobStep d s j x s' j') :
    SearchesPersist s.world.db s'.world.db := by
  cases h with
  | start ha =>
    rcases (StartSearch.advance_step ha).db with he | ⟨db', _, _, _, he, hs⟩
    · exact .of_eq (by rw [he])
    · rw [he]
      exact hs.grows.searches
  | process ha =>
    rcases (ProcessSearch.advance_step ha).db with he | ⟨_, _, _, _, hq, hw⟩
    · exact .of_eq (by rw [Platform.withWorld_world, he])
    · exact (hw.grows hq).searches
  | book ha => exact .of_eq (booking_searchesKept ha).searches

theorem asked_newSearch (settings : SearchSettings) (searchId agentId : String)
    (payload : SearchRequest) (hp : payload.Stores) (now : Time) :
    Asked agentId payload (newSearch settings searchId agentId payload hp now) :=
  ⟨rfl, rfl, rfl, rfl, rfl, rfl⟩

/-- A call goes on with what was stored for its request, and writes no other cache entries. -/
theorem StartStep.known (hs : Function.Injective d.sha256) (h : StartStep d s r y s' r')
    (hI : CacheSound d.sha256 s) (hJ : r.Known s.world.db) :
    CacheSound d.sha256 s' ∧ r'.Known s'.world.db := by
  cases h with
  | cached hp hget hid =>
    obtain ⟨agentId, payload, hkey, hq⟩ := hI _ _ _ hget hid
    obtain ⟨rfl, rfl⟩ := searchKey_inj hs hkey
    exact ⟨hI, hq⟩
  | unlisted | expired | refused | undispatched => exact ⟨hI, trivial⟩
  | found hp hrow =>
    rw [StartSearch.Known, hp] at hJ
    obtain ⟨q, hq, hid, ha⟩ := hJ
    obtain ⟨hmem, hid'⟩ := Database.search?_eq_some.mp hrow
    obtain rfl := Database.search_ext hq hmem (hid.trans hid'.symm)
    exact ⟨hI, ha⟩
  | created hp hst =>
    exact ⟨hI.mono rfl hst.grows.searches, asked_newSearch .., _,
      hst.mem_searches.mpr (Or.inr rfl), .refl _⟩
  | @remembered _ search cache hp hcache =>
    rw [StartSearch.Known, hp] at hJ
    obtain ⟨ha, q, hq, hsame⟩ := hJ
    refine ⟨?_, ha, q, hq, hsame⟩
    rcases hcache with rfl | rfl
    · exact hI
    · intro key cached searchId hget hid
      rw [SearchCache.get_set] at hget
      split at hget
      · rename_i hkey
        cases hget
        cases hid
        exact ⟨r.agentId, r.payload, hkey, q, hq, hsame.id, ha.same hsame⟩
      · exact hI key cached searchId hget hid
  | started hp | published hp =>
    rw [StartSearch.Known, hp] at hJ
    exact ⟨hI, hJ.1⟩

theorem StartStep.holds (hs : Function.Injective d.sha256) (httl : 0 < d.settings.searchTtlSeconds)
    (h : StartStep d s r y s' r') (ht : ∀ now, y.now? = some now → r.calledAt ≤ now)
    (hI : CacheSound d.sha256 s) (hJ : r.Holds s.world.db) :
    CacheSound d.sha256 s' ∧ r'.Holds s'.world.db := by
  obtain ⟨hI', hK⟩ := h.known hs hI hJ.known
  refine ⟨hI', ?_⟩
  cases h with
  | cached => exact hK
  | unlisted | expired | refused | undispatched => trivial
  | @found _ _ now _ _ hnow =>
    have ha : Asked r.agentId r.payload _ := hK
    exact ⟨ha, lt_of_le_of_lt (ht now rfl) hnow⟩
  | @created searchId now =>
    refine ⟨⟨asked_newSearch .., ?_⟩, hK.2⟩
    have hle : r.calledAt ≤ now := ht now rfl
    change r.calledAt < now + d.settings.searchTtlSeconds * 1000000
    linarith
  | remembered hp =>
    rw [StartSearch.Holds, hp] at hJ
    exact ⟨⟨hJ.1.toAsked, hJ.1.expiresAt⟩, hK.2⟩
  | started hp | published hp =>
    rw [StartSearch.Holds, hp] at hJ
    exact ⟨hJ.1.toAsked, hJ.1.expiresAt⟩

theorem timely_iff {i : ℕ} (hi : c.procs[i]? = some (.inl r)) :
    timely c (.advance i (.inl y)) = true ↔ ∀ now, y.now? = some now → r.calledAt ≤ now := by
  simp [timely, hi, Option.all_eq_true]

/-- Every call of `start` that returns has a search that answers its request. -/
theorem start_answers {w : World} (hs : Function.Injective d.sha256)
    (httl : 0 < d.settings.searchTtlSeconds)
    (h : (serving d).machine.RunWhere (fun c a => timely c a)
      (Program.start (Platform.start w)) as c) :
    ∀ r search, .inl r ∈ c.procs → r.phase = .done (.ok search) → Answers r search := by
  have hall : Program.Holds (CacheSound d.sha256) (fun s j => Job.HoldsAnswer s.world.db j) c := by
    refine Program.holds_of_run ?_ ?_ h (Program.holds_start ?_)
    · rintro c (r | j) _ hf _
      · have hp : r.phase = .requested := serving_fresh_start.mp hf
        simp [Job.HoldsAnswer, StartSearch.Holds, hp]
      · trivial
    · intro c i x j s' j' hg hj ha hI hJ
      have hstep := serving_step ha
      refine and_assoc.mp ⟨?_, fun q _ hq => hq.mono hstep.searchesPersist⟩
      have hp := hstep.searchesPersist
      cases hstep with
      | start hb => exact (StartSearch.advance_step hb).holds hs httl ((timely_iff hj).mp hg) hI hJ
      | process => exact ⟨hI.mono rfl hp, trivial⟩
      | book => exact ⟨hI.mono rfl hp, trivial⟩
    · intro key cached searchId hget
      cases hget
  intro r search hr hp
  have hholds : r.Holds c.store.world.db := hall.2 _ hr
  rwa [StartSearch.Holds, hp] at hholds

end Steps

/-- The second of two calls with one payload gets the search of the first. -/
theorem start_answers_searchedTwice : ∃ c : Serving,
    Example.returned c = ["search", "search"] ∧
    ∀ r search, .inl r ∈ c.procs → r.phase = .done (.ok search) → Answers r search := by
  have hrun : ((serving Example.deployment).machine.execWhere (fun c a => timely c a)
      (Program.start (Platform.start Example.bare))
      (.spawn (Example.startCall 100) :: Example.startSteps 0 ++
        [.advance 0 (.inl (.dispatch none)), .spawn (Example.startCall 200)] ++
        Example.cachedSteps 1)).map Example.returned = some ["search", "search"] := by
    decide +kernel
  obtain ⟨c, hc, hret⟩ := Option.map_eq_some_iff.mp hrun
  exact ⟨c, hret,
    start_answers Function.injective_id (by decide) (Machine.runWhere_of_execWhere hc)⟩

end Ioka
