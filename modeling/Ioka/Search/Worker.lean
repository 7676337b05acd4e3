import Ioka.Search.Redelivery
import Ioka.Search.Message
import Ioka.Transition.Delivery

/-! # The workers and their queue

`consume_searches`: a worker takes up to eight messages at a time, reads the id of each
body and awaits `process`. It acknowledges the message when `process` returns and gives it
back when `process` raises; the broker takes back what a lost worker had.
-/

namespace Ioka

open Python Relational Transition

/-- The id of the search that a call of `start` has stored and not handed over yet. -/
def Job.stored? : Job → Option String
  | .inl r =>
    match r.phase with
    | .created search | .remembered search => some search.id
    | _ => none
  | .inr _ => none

/-- `process` has returned. -/
def Job.returned : Job → Bool
  | .inr (.inl r) =>
    match r.phase with
    | .done (.ok ()) => true
    | _ => false
  | _ => false

/-- The queue `flight-searches`, whose consumers hand the id of each message to `process`. -/
def searchIntake : Intake Platform Job Bytes where
  published s := s.queue.map searchBody
  handler body := (bodySearchId body).map fun searchId => .inr (.inl ⟨searchId, .requested⟩)
  handles j := j.searchId?.isSome
  settled := Job.returned
  prefetch := 8

/-- The service, the broker and its workers. -/
abbrev Working := Delivering Platform Job

def delivering (d : Deployment) : Machine Working (QueueAction Job JobChoice) :=
  searchIntake.machine (serving d)

/-- Nothing was searched for yet. -/
def Working.start (w : World) : Working := Delivering.start (Program.start (Platform.start w))

/-- A run of `process` is about the search that the body names. -/
def Job.About (j : Job) (body : Bytes) : Prop :=
  ∃ searchId, j.searchId? = some searchId ∧ bodySearchId body = some searchId

def Platform.HasSearch (s : Platform) (searchId : String) : Prop :=
  ∃ q ∈ s.world.db.searches, q.id = searchId

/-- The search has a final status. -/
def Platform.Finished (s : Platform) (searchId : String) : Prop :=
  ∃ q ∈ s.world.db.searches, q.id = searchId ∧ q.status.Final

/-- What the body asks for is done. -/
def Platform.Served (s : Platform) (body : Bytes) : Prop :=
  ∃ searchId, bodySearchId body = some searchId ∧ s.Finished searchId

/-- The searches that are handed over, and those that a call of `start` is about to. -/
def handed (c : Serving) : List String := c.procs.filterMap Job.stored? ++ c.store.queue

/-- Every search is handed over once, when its row is stored, and only such searches are
processed. -/
structure Dispatched (c : Serving) : Prop where
  once : (handed c).Nodup
  rows : ∀ searchId ∈ handed c, c.store.HasSearch searchId
  processed : ∀ j ∈ c.procs, ∀ searchId, j.searchId? = some searchId →
    c.store.HasSearch searchId ∧ (j.returned = true → c.store.Finished searchId)

section Searches

theorem Raised.searchStatus_final (e : Raised) : e.searchStatus.Final := by
  rcases e.searchStatus_cases with h | h <;> rw [h] <;> decide

variable {d : Deployment} {s s' : Platform} {j j' : Job} {x : JobChoice} {searchId : String}

theorem JobStep.searches_kept (h : JobStep d s j x s' j') : ∀ q ∈ s.world.db.searches,
    ∃ q' ∈ s'.world.db.searches, q'.id = q.id ∧ (q.status.Final → q'.status.Final) := by
  intro q hq
  cases h with
  | start ha =>
    rcases (StartSearch.advance_step ha).db with he | ⟨db', _, _, _, he, hs⟩
    · exact ⟨q, by rwa [he], rfl, fun hf => hf⟩
    · refine ⟨q, ?_, rfl, fun hf => hf⟩
      rw [he]
      exact hs.mem_searches.mpr (Or.inl hq)
  | @process r r' y w ha =>
    have hstay : w.db = s.world.db → ∃ q' ∈ w.db.searches, q'.id = q.id ∧
        (q.status.Final → q'.status.Final) := by
      intro he
      exact ⟨q, by rwa [he], rfl, fun hf => hf⟩
    have hrewrite : ∀ {t t' : FlightSearch} {offers : List Offer},
        Rewritten s.world.db w.db t t' offers → (t.status.Final → t'.status.Final) →
        ∃ q' ∈ w.db.searches, q'.id = q.id ∧ (q.status.Final → q'.status.Final) := by
      intro t t' offers hw hfin
      by_cases hid : q.id = t.id
      · obtain rfl := Database.search_ext hq hw.search_mem hid
        exact ⟨t', hw.mem_searches.mpr (Or.inl rfl), hw.id, hfin⟩
      · exact ⟨q, hw.mem_searches.mpr (Or.inr ⟨hq, hid⟩), rfl, fun hf => hf⟩
    cases ProcessSearch.advance_step ha with
    | skipped | called | answered | raised | lost | cancelled | refused | unrecorded =>
      exact hstay rfl
    | started _ _ hf hw => exact hrewrite hw fun h => absurd h hf
    | saved _ _ _ _ hw => exact hrewrite hw fun _ => (by decide : SearchStatus.completed.Final)
    | failed _ _ _ hw => exact hrewrite hw fun _ => Raised.searchStatus_final _
  | book ha =>
    have hk := booking_searchesKept ha
    exact ⟨q, hk.searches.symm ▸ hq, rfl, fun hf => hf⟩

theorem Platform.HasSearch.step (h : JobStep d s j x s' j') (hs : s.HasSearch searchId) :
    s'.HasSearch searchId := by
  obtain ⟨q, hq, rfl⟩ := hs
  obtain ⟨q', hq', hid, _⟩ := h.searches_kept q hq
  exact ⟨q', hq', hid⟩

theorem Platform.Finished.step (h : JobStep d s j x s' j') (hs : s.Finished searchId) :
    s'.Finished searchId := by
  obtain ⟨q, hq, rfl, hf⟩ := hs
  obtain ⟨q', hq', hid, hf'⟩ := h.searches_kept q hq
  exact ⟨q', hq', hid, hf' hf⟩

end Searches

section Dispatch

variable {d : Deployment} {c c' : Serving} {a : Action Job JobChoice} {s' : Platform} {j j' : Job}
  {i : ℕ} {x : JobChoice} {searchId : String}

theorem handed_perm (j' : Job) {ids : List String} (hj : c.procs[i]? = some j)
    (hq : s'.queue = c.store.queue ++ ids) :
    (handed ⟨s', c.procs.set i j'⟩ ++ j.stored?.toList).Perm
      (handed c ++ j'.stored?.toList ++ ids) := by
  have hset := Program.filterMap_set_perm (f := Job.stored?) j' hj
  have hleft : (handed ⟨s', c.procs.set i j'⟩ ++ j.stored?.toList).Perm
      ((c.procs.set i j').filterMap Job.stored? ++ j.stored?.toList ++ s'.queue) := by
    rw [handed, List.append_assoc, List.append_assoc]
    exact List.Perm.append_left _ List.perm_append_comm
  refine hleft.trans ((hset.append_right _).trans ?_)
  rw [hq, handed, List.append_assoc, List.append_assoc, List.append_assoc]
  refine List.Perm.append_left _ ?_
  rw [← List.append_assoc, ← List.append_assoc]
  exact List.perm_append_comm.append_right _

theorem StartStep.stored {s : Platform} {r r' : StartSearch} {y : StartChoice}
    (h : StartStep d s r y s' r') :
    (s'.world = s.world ∧ ∃ ids, s'.queue = s.queue ++ ids ∧
      ((Job.stored? (.inl r')).toList ++ ids).Sublist (Job.stored? (.inl r)).toList) ∨
    ∃ db' search, s' = s.withWorld (s.world.commit db' []) ∧ Stored s.world.db db' search ∧
      Job.stored? (.inl r) = none ∧ Job.stored? (.inl r') = some search.id := by
  cases h with
  | cached hp | unlisted hp | expired hp | found hp | refused hp =>
    exact Or.inl ⟨rfl, [], (List.append_nil _).symm, by simp [Job.stored?, StartSearch.finish]⟩
  | remembered hp =>
    exact Or.inl ⟨rfl, [], (List.append_nil _).symm, by simp [Job.stored?, hp]⟩
  | created hp hs => exact Or.inr ⟨_, _, rfl, hs, by simp [Job.stored?, hp], rfl⟩
  | started hp =>
    exact Or.inl ⟨rfl, [], (List.append_nil _).symm, by simp [Job.stored?, StartSearch.finish]⟩
  | @published search hp =>
    exact Or.inl ⟨rfl, [search.id], rfl, by simp [Job.stored?, hp, StartSearch.finish]⟩
  | undispatched hp =>
    exact Or.inl ⟨rfl, [], (List.append_nil _).symm, by simp [Job.stored?, StartSearch.finish]⟩

theorem handed_subperm (j' : Job) {ids : List String} (hj : c.procs[i]? = some j)
    (hq : s'.queue = c.store.queue ++ ids)
    (hsub : (j'.stored?.toList ++ ids).Sublist j.stored?.toList) :
    (handed ⟨s', c.procs.set i j'⟩).Subperm (handed c) := by
  have hperm := handed_perm j' hj hq
  rw [List.append_assoc] at hperm
  exact List.subperm_append_right _ |>.mp
    (hperm.subperm.trans ((List.Sublist.refl _).append hsub).subperm)

theorem Dispatched.start_step {r r' : StartSearch} {y : StartChoice} (hc : Dispatched c)
    (hj : c.procs[i]? = some (.inl r)) (h : StartStep d c.store r y s' r') :
    (handed ⟨s', c.procs.set i (.inl r')⟩).Nodup ∧
      ∀ searchId ∈ handed ⟨s', c.procs.set i (.inl r')⟩, s'.HasSearch searchId := by
  rcases h.stored with ⟨hworld, ids, hq, hsub⟩ | ⟨db', search, rfl, hs, hold, hnew⟩
  · have hperm := handed_subperm _ hj hq hsub
    obtain ⟨l, hl, hsub'⟩ := hperm
    refine ⟨hl.nodup_iff.mp (hc.once.sublist hsub'), fun id hid => ?_⟩
    rw [Platform.HasSearch, hworld]
    exact hc.rows id (hsub'.subset (hl.symm.subset hid))
  · have hqueue : (c.store.withWorld (c.store.world.commit db' [])).queue =
        c.store.queue ++ [] := (List.append_nil _).symm
    have hperm := handed_perm (.inl r') hj hqueue
    simp only [hold, hnew, Option.toList_none, Option.toList_some, List.append_nil] at hperm
    constructor
    · rw [hperm.nodup_iff, List.nodup_append_comm, List.singleton_append, List.nodup_cons]
      refine ⟨fun hid => ?_, hc.once⟩
      obtain ⟨q, hq, hqid⟩ := hc.rows _ hid
      exact hs.fresh hq hqid
    · intro id hid
      rcases List.mem_append.mp (hperm.subset hid) with hid | hid
      · obtain ⟨q, hq, hqid⟩ := hc.rows id hid
        exact ⟨q, hs.mem_searches.mpr (Or.inl hq), hqid⟩
      · exact ⟨search, hs.mem_searches.mpr (Or.inr rfl), (List.mem_singleton.mp hid).symm⟩

theorem ProcessStep.finished {provider : String} {w w' : World} {r r' : ProcessSearch}
    {y : ProcessChoice} (h : ProcessStep provider w r y w' r')
    (hrow : ∃ q ∈ w.db.searches, q.id = r.searchId)
    (hr : Job.returned (.inr (.inl r')) = true) :
    ∃ q ∈ w'.db.searches, q.id = r.searchId ∧ q.status.Final := by
  obtain ⟨q, hq, hid⟩ := hrow
  have hfind : w.db.search? r.searchId = some q := Database.search?_eq_some.mpr ⟨hq, hid⟩
  cases h with
  | skipped _ hfin => exact ⟨q, hq, hid, hfin q hfind⟩
  | started | called | answered | raised | refused => simp [Job.returned] at hr
  | cancelled | unrecorded => simp [Job.returned, ProcessSearch.finish] at hr
  | lost _ hnone =>
    rw [hnone] at hfind
    cases hfind
  | saved _ hs _ _ hw =>
    exact ⟨_, hw.mem_searches.mpr (Or.inl rfl), (Database.search?_eq_some.mp hs).2,
      (by decide : SearchStatus.completed.Final)⟩
  | failed _ hs _ hw =>
    exact ⟨_, hw.mem_searches.mpr (Or.inl rfl), (Database.search?_eq_some.mp hs).2,
      Raised.searchStatus_final _⟩

theorem handler_searchBody (searchId : String) : searchIntake.handler (searchBody searchId) =
    some (.inr (.inl ⟨searchId, .requested⟩)) := by
  simp only [searchIntake, bodySearchId_searchBody, Option.map_some]

theorem published_of_admits (ha : searchIntake.Admits c (.spawn j : Action Job JobChoice))
    (hid : j.searchId? = some searchId) :
    searchId ∈ c.store.queue ∧ j = .inr (.inl ⟨searchId, .requested⟩) := by
  obtain ⟨body, p, hbody, hp, hj⟩ := ha (Option.isSome_iff_exists.mpr ⟨searchId, hid⟩)
  obtain rfl : j = p := Action.spawn.inj hj
  obtain ⟨id, hmem, rfl⟩ := List.mem_map.mp hbody
  rw [handler_searchBody] at hp
  obtain rfl := Option.some.inj hp
  obtain rfl : id = searchId := Option.some.inj hid
  exact ⟨hmem, rfl⟩

theorem Dispatched.step (hc : Dispatched c) (ha : searchIntake.Admits c a)
    (h : (serving d).machine.step c a = some c') : Dispatched c' := by
  cases a with
  | spawn j =>
    obtain ⟨hf, rfl⟩ := Program.step_spawn_iff.mp h
    have hnone : j.stored? = none := by
      rcases j with r | j
      · have hp : r.phase = .requested := serving_fresh_start.mp hf
        simp [Job.stored?, hp]
      · rfl
    have hhanded : handed ⟨c.store, c.procs ++ [j]⟩ = handed c := by
      simp [handed, hnone]
    refine ⟨hhanded ▸ hc.once, fun id hid => hc.rows id (hhanded ▸ hid), fun q hq id hid => ?_⟩
    rcases List.mem_append.mp hq with hq | hq
    · exact hc.processed q hq id hid
    · obtain rfl := List.mem_singleton.mp hq
      obtain ⟨hmem, rfl⟩ := published_of_admits ha hid
      exact ⟨hc.rows _ (List.mem_append_right _ hmem), fun hr => by cases hr⟩
  | advance i x =>
    obtain ⟨j, s', j', hj, hadv, rfl⟩ := Program.step_advance_iff.mp h
    have hstep := serving_step hadv
    have hkeep : ∀ q ∈ c.procs, ∀ id, q.searchId? = some id →
        s'.HasSearch id ∧ (q.returned = true → s'.Finished id) := by
      intro q hq id hid
      obtain ⟨hrow, hfin⟩ := hc.processed q hq id hid
      exact ⟨hrow.step hstep, fun hr => (hfin hr).step hstep⟩
    have hprocs : (∀ id, j'.searchId? = some id →
        s'.HasSearch id ∧ (j'.returned = true → s'.Finished id)) →
        ∀ q ∈ c.procs.set i j', ∀ id, q.searchId? = some id →
          s'.HasSearch id ∧ (q.returned = true → s'.Finished id) := by
      intro hj' q hq
      rcases List.mem_or_eq_of_mem_set hq with hq | rfl
      · exact hkeep q hq
      · exact hj'
    have hmem : j ∈ c.procs := List.mem_of_getElem? hj
    cases hstep with
    | start hb =>
      obtain ⟨honce, hrows⟩ := hc.start_step hj (StartSearch.advance_step hb)
      exact ⟨honce, hrows, hprocs fun id hid => by cases hid⟩
    | @process r r' y w hb =>
      have hqueue : (c.store.withWorld w).queue = c.store.queue ++ [] := (List.append_nil _).symm
      obtain ⟨l, hl, hsub⟩ := handed_subperm (.inr (.inl r')) hj hqueue (List.Sublist.refl _)
      refine ⟨hl.nodup_iff.mp (hc.once.sublist hsub), fun id hid => ?_, hprocs fun id hid => ?_⟩
      · exact (hc.rows id (hsub.subset (hl.symm.subset hid))).step (.process hb)
      · have hps := ProcessSearch.advance_step hb
        have hid' : Job.searchId? (.inr (.inl r)) = some id := by
          rw [← hid]
          exact congrArg some hps.searchId.symm
        obtain ⟨hrow, _⟩ := hkeep _ hmem id hid'
        obtain ⟨hold, _⟩ := hc.processed _ hmem id hid'
        obtain rfl := Option.some.inj hid'
        exact ⟨hrow, fun hr => hps.finished hold hr⟩
    | @book p p' y w hb =>
      have hqueue : (c.store.withWorld w).queue = c.store.queue ++ [] := (List.append_nil _).symm
      obtain ⟨l, hl, hsub⟩ := handed_subperm (.inr (.inr p')) hj hqueue (List.Sublist.refl _)
      refine ⟨hl.nodup_iff.mp (hc.once.sublist hsub), fun id hid => ?_,
        hprocs fun id hid => by cases hid⟩
      exact (hc.rows id (hsub.subset (hl.symm.subset hid))).step (.book hb)

theorem handed_start (w : World) : handed (Program.start (Platform.start w)) = [] := rfl

theorem dispatched_start (w : World) : Dispatched (Program.start (Platform.start w)) := by
  refine ⟨List.nodup_nil, ?_, ?_⟩
  · intro id hid
    rw [handed_start] at hid
    cases hid
  · intro j hj
    cases hj

theorem queue_grows (h : (serving d).machine.step c a = some c') :
    c.store.queue <+: c'.store.queue := by
  cases a with
  | spawn j =>
    obtain ⟨_, rfl⟩ := Program.step_spawn_iff.mp h
    exact List.prefix_refl _
  | advance i x =>
    obtain ⟨j, s', j', _, hadv, rfl⟩ := Program.step_advance_iff.mp h
    cases serving_step hadv with
    | start hb =>
      rcases (StartSearch.advance_step hb).stored with ⟨_, ids, hq, _⟩ | ⟨db', search, rfl, _⟩
      · exact ⟨ids, hq.symm⟩
      · exact List.prefix_refl _
    | process | book => exact List.prefix_refl _

/-- `process` returns only when the search is final, and final searches stay final. -/
theorem searchIntake_sound (d : Deployment) :
    searchIntake.Sound (serving d) Dispatched Job.About Platform.Served where
  invariant _ _ _ ha hs hc := hc.step ha hs
  published _ _ _ hs := (queue_grows hs).map searchBody
  handler body p hp := by
    obtain ⟨id, hread, rfl⟩ := Option.map_eq_some_iff.mp hp
    exact ⟨id, rfl, hread⟩
  handles p body h := by
    obtain ⟨id, hid, _⟩ := h
    exact Option.isSome_iff_exists.mpr ⟨id, hid⟩
  about_unique s p body body' hm hm' h h' := by
    obtain ⟨id, _, rfl⟩ := List.mem_map.mp hm
    obtain ⟨id', _, rfl⟩ := List.mem_map.mp hm'
    obtain ⟨k, hk, hread⟩ := h
    obtain ⟨k', hk', hread'⟩ := h'
    rw [bodySearchId_searchBody] at hread hread'
    rw [Option.some.inj hread, Option.some.inj hread', Option.some.inj (hk.symm.trans hk')]
  about_advance s p x s' p' body ha := by
    rw [Job.About, Job.About, (serving_step ha).searchId?_eq]
  stable e a e' body hs _ _ hdone := by
    obtain ⟨id, hread, hfin⟩ := hdone
    cases a with
    | spawn j =>
      obtain ⟨_, rfl⟩ := Program.step_spawn_iff.mp hs
      exact ⟨id, hread, hfin⟩
    | advance i x =>
      obtain ⟨j, s', j', _, hadv, rfl⟩ := Program.step_advance_iff.mp hs
      exact ⟨id, hread, hfin.step (serving_step hadv)⟩
  settled e p body hc hp _ hab hr := by
    obtain ⟨id, hid, hread⟩ := hab
    exact ⟨id, hread, (hc.processed p hp id hid).2 hr⟩

end Dispatch

/-! ## No message is lost -/

section Kept

variable {d : Deployment} {w : World} {c : Working} {as : List (QueueAction Job JobChoice)}
  {G : Working → QueueAction Job JobChoice → Prop}

theorem kept_of_run (h : (delivering d).RunWhere G (Working.start w) as c) :
    searchIntake.Kept Dispatched Job.About Platform.Served c :=
  (searchIntake_sound d).kept_of_run h (Intake.kept_start (dispatched_start w))

/-! A worker is lost in its call; another one answers the search. -/

namespace Example

/-- A call stores a new search and publishes it. -/
def publishSteps : List (Action Job JobChoice) :=
  .spawn (startCall 100) :: startSteps 0 ++ [.advance 0 (.inl (.dispatch none))]

def published : List (QueueAction Job JobChoice) := publishSteps.map .serve

def lostWorker : List (QueueAction Job JobChoice) :=
  published ++ .deliver 0 0 :: (callSteps 1).map .serve ++
    .giveBack ⟨0, 0, 1⟩ :: .deliver 0 1 :: (callSteps 2 ++ saveSteps 2).map .serve ++
    [.ack ⟨0, 1, 2⟩]

end Example

/-- In every state of the service and its workers, each published search has a row and is
final, or its message is not acknowledged, and no search is published twice. The broker's own
guards keep a message from being at two workers, or at one and acknowledged, and a worker from
having more than eight. -/
theorem no_message_lost (h : (delivering d).Run (Working.start w) as c) :
    (∀ n searchId, c.config.store.queue[n]? = some searchId →
      c.config.store.HasSearch searchId ∧
        (c.config.store.Finished searchId ∨ n ∉ c.acked)) ∧
    c.taken.Nodup ∧ c.config.store.queue.Nodup ∧ ∀ worker, c.load worker ≤ 8 := by
  have hkept := kept_of_run h
  refine ⟨fun n searchId hn => ⟨?_, ?_⟩, hkept.exclusive, ?_, hkept.capacity⟩
  · exact hkept.config.rows _ (List.mem_append_right _ (List.mem_of_getElem? hn))
  · by_cases hack : n ∈ c.acked
    · obtain ⟨body, hbody, id, hread, hfin⟩ := hkept.done n hack
      have hmap : (c.config.store.queue.map searchBody)[n]? = some (searchBody searchId) := by
        rw [List.getElem?_map, hn, Option.map_some]
      obtain rfl := Option.some.inj (hbody.symm.trans hmap)
      rw [bodySearchId_searchBody] at hread
      exact Or.inl (Option.some.inj hread ▸ hfin)
    · exact Or.inr hack
  · exact hkept.config.once.of_append_right

theorem no_message_lost_lostWorker : ∃ c : Working, c.acked = [0] ∧
    c.config.store.queue = ["search"] ∧ ∀ n searchId,
      c.config.store.queue[n]? = some searchId → c.config.store.HasSearch searchId ∧
        (c.config.store.Finished searchId ∨ n ∉ c.acked) := by
  have hrun : ((delivering Example.deployment).exec (Working.start Example.bare)
      Example.lostWorker).map (fun c => (c.acked, c.config.store.queue)) =
        some ([0], ["search"]) := by
    decide +kernel
  obtain ⟨c, hc, hst⟩ := Option.map_eq_some_iff.mp hrun
  simp only [Prod.mk.injEq] at hst
  exact ⟨c, hst.1, hst.2, (no_message_lost (Machine.exec_eq_some_iff.mp hc)).1⟩

end Kept

/-! ## Every published search can be finished -/

/-- What the provider makes of a search: offers, or an exception whose text can be stored. -/
abbrev SearchReply := List ProviderOffer ⊕ {e : Raised // Storable e.message}

namespace SearchReply

def choice : SearchReply → ProcessChoice
  | .inl items => .answer items
  | .inr e => .raise e

/-- The status that the reply leads to. -/
def status (db : Database) (provider searchId : String) (newId : ℕ → String) :
    SearchReply → SearchStatus
  | .inl items => if Refused db provider searchId newId items then .failed else .completed
  | .inr e => e.1.searchStatus

theorem status_congr {db db' : Database} {provider searchId : String} {newId : ℕ → String}
    {reply : SearchReply} (h : db'.offers.rows = db.offers.rows) :
    reply.status db' provider searchId newId = reply.status db provider searchId newId := by
  cases reply with
  | inl items =>
    have hiff : Refused db' provider searchId newId items ↔
        Refused db provider searchId newId items := by
      simp only [Refused, Clashes, h]
    simp only [status, hiff]
  | inr e => rfl

end SearchReply

section Progress

variable {d : Deployment} {w : World} {c : Working} {as : List (QueueAction Job JobChoice)}

theorem Failure.storable_typeName (e : Failure) : Storable e.typeName := by
  cases e with
  | integrityError => decide
  | _ => exact (by decide : Storable "DBAPIError")

theorem process_fails (provider : String) {r : ProcessSearch} {request : ProviderSearchRequest}
    {e : Raised} {w : World} {s : FlightSearch} (hp : r.phase = .raised request e)
    (hs : w.db.search? r.searchId = some s) (hm : Storable e.message) :
    ∃ w', r.advance provider w (.fail 0) = some (w', r.finish (.ok ())) ∧
      ∃ q, w'.db.search? s.id = some q ∧ q.status = e.searchStatus := by
  rcases processFail_eq w.db r.searchId request e 0 with
    ⟨hnone, _⟩ | ⟨_, _, hm', _⟩ | ⟨t, db', ht, _, he, hw, _⟩
  · rw [hs] at hnone
    cases hnone
  · exact absurd hm hm'
  · obtain rfl := Option.some.inj (hs.symm.trans ht)
    exact ⟨w.commit db' [], by simp only [ProcessSearch.advance, hp, he], _, hw.search?_self, rfl⟩

theorem process_replied (provider : String) {w : World} {searchId : String} {s : FlightSearch}
    (request : ProviderSearchRequest) (reply : SearchReply) (newId : ℕ → String) (now : Time)
    (hs : w.db.search? searchId = some s) :
    ∃ xs w', xs.length ≤ 3 ∧ reply.choice ∈ xs ∧
      (processing provider).alone.Run (w, ⟨searchId, .searching request⟩) xs
        (w', ⟨searchId, .done (.ok ())⟩) ∧
      ∃ q, w'.db.search? s.id = some q ∧ q.status = reply.status w.db provider s.id newId := by
  cases reply with
  | inr e =>
    have hraise : ProcessSearch.advance provider w ⟨searchId, .searching request⟩ (.raise e) =
        some (w, ⟨searchId, .raised request e⟩) := rfl
    obtain ⟨w', hfail, hq⟩ := process_fails provider
      (r := ⟨searchId, .raised request e⟩) rfl hs e.2
    exact ⟨[.raise e, .fail 0], w', by simp, List.mem_cons_self,
      .cons trivial hraise (.cons trivial hfail (.nil _)), hq⟩
  | inl items =>
    have hanswer : ProcessSearch.advance provider w ⟨searchId, .searching request⟩
        (.answer items) = some (w, ⟨searchId, .answered request items⟩) := rfl
    let save : ProcessChoice := .save newId now 0 ""
    rcases processSave_eq w.db provider searchId request items newId now 0 with
      ⟨hnone, _⟩ | ⟨t, ht, hsave⟩
    · rw [hs] at hnone
      cases hnone
    obtain rfl := Option.some.inj (hs.symm.trans ht)
    rcases hsave with ⟨href, e, he⟩ | ⟨kept, db', hk, hcl, he, hw, _⟩
    · have hrefused : ProcessSearch.advance provider w ⟨searchId, .answered request items⟩ save =
          some (w, ⟨searchId, .raised request ⟨"", e.typeName, false⟩⟩) := by
        simp only [ProcessSearch.advance, save, he]
      have hm : Storable (Raised.mk "" e.typeName false).message := e.storable_typeName
      obtain ⟨w', hfail, q, hq, hst⟩ := process_fails provider
        (r := ⟨searchId, .raised request ⟨"", e.typeName, false⟩⟩) rfl hs hm
      refine ⟨[.answer items, save, .fail 0], w', by simp, List.mem_cons_self,
        .cons trivial hanswer (.cons trivial hrefused (.cons trivial hfail (.nil _))), q, hq, ?_⟩
      rw [hst, SearchReply.status, if_pos href]
      rfl
    · have hsaved : ProcessSearch.advance provider w ⟨searchId, .answered request items⟩ save =
          some (w.commit db' [], ⟨searchId, .done (.ok ())⟩) := by
        simp only [ProcessSearch.advance, save, he, ProcessSearch.finish]
      refine ⟨[.answer items, save], _, by simp, List.mem_cons_self,
        .cons trivial hanswer (.cons trivial hsaved (.nil _)), _, hw.search?_self, ?_⟩
      rw [SearchReply.status, if_neg fun href => hcl (href kept hk)]

/-- A run that is alone returns: on a search that is not final, with the reply. -/
theorem process_returns (provider : String) {w : World} {searchId : String} {s : FlightSearch}
    (reply : SearchReply) (newId : ℕ → String) (now : Time)
    (hs : w.db.search? searchId = some s) :
    ∃ xs w', xs.length ≤ 5 ∧
      (processing provider).alone.Run (w, ⟨searchId, .requested⟩) xs
        (w', ⟨searchId, .done (.ok ())⟩) ∧
      (¬ s.status.Final → reply.choice ∈ xs ∧
        ∃ q, w'.db.search? s.id = some q ∧ q.status = reply.status w.db provider s.id newId) := by
  rcases processStart_eq w.db searchId with ⟨hfin, he⟩ | ⟨t, db', ht, _, he, hw, _⟩
  · have hstart : ProcessSearch.advance provider w ⟨searchId, .requested⟩ .start =
        some (w.commit w.db [], ⟨searchId, .done (.ok ())⟩) := by
      simp only [ProcessSearch.advance, he, ProcessSearch.finish]
    exact ⟨[.start], _, by decide, .cons trivial hstart (.nil _), fun h => absurd (hfin s hs) h⟩
  · obtain rfl := Option.some.inj (hs.symm.trans ht)
    have hid : s.id = searchId := (Database.search?_eq_some.mp hs).2
    have hstart : ProcessSearch.advance provider w ⟨searchId, .requested⟩ .start =
        some (w.commit db' [], ⟨searchId, .started s.providerRequest⟩) := by
      simp only [ProcessSearch.advance, he]
    let called := (w.commit db' []).called (.searchCalled searchId)
    have hcall : ProcessSearch.advance provider (w.commit db' [])
        ⟨searchId, .started s.providerRequest⟩ .call =
          some (called, ⟨searchId, .searching s.providerRequest⟩) := rfl
    have hs' : called.db.search? searchId = some { s with status := .inProgress } :=
      hid ▸ hw.search?_self
    obtain ⟨xs, w', hlen, hmem, hrun, q, hq, hst⟩ :=
      process_replied provider s.providerRequest reply newId now hs'
    refine ⟨.start :: .call :: xs, w', by simp only [List.length_cons]; omega,
      .cons trivial hstart (.cons trivial hcall hrun), fun _ =>
      ⟨List.mem_cons_of_mem _ (List.mem_cons_of_mem _ hmem), q, hq, hst.trans ?_⟩⟩
    exact SearchReply.status_congr (hw.offers.trans (List.append_nil _))

/-- From every state the service and its workers can reach, a published search can be finished
and its message acknowledged in eight steps. If the search is not final yet, a new run of
`process` takes the reply, whatever it is, and leaves the status it leads to. -/
theorem message_can_finish {n : ℕ} {searchId : String} (reply : SearchReply)
    (newId : ℕ → String) (now : Time) (h : (delivering d).Run (Working.start w) as c)
    (hn : c.config.store.queue[n]? = some searchId) :
    ∃ bs c', (delivering d).Run c bs c' ∧ bs.length ≤ 8 ∧ n ∈ c'.acked ∧
      c'.config.store.Finished searchId ∧
      (c.config.store.Finished searchId ∨
        .serve (.advance c.config.procs.length (.inr (.inl reply.choice))) ∈ bs ∧
        c'.config.procs = c.config.procs ++ [.inr (.inl ⟨searchId, .done (.ok ())⟩)] ∧
        ∃ q ∈ c'.config.store.world.db.searches, q.id = searchId ∧
          q.status = reply.status c.config.store.world.db d.provider searchId newId) := by
  have hfinished : ∀ bs c', (delivering d).Run c bs c' → n ∈ c'.acked →
      c'.config.store.queue[n]? = some searchId → c'.config.store.Finished searchId := by
    intro bs c' hrun hack hn'
    obtain ⟨hlost, _⟩ := no_message_lost (h.append hrun)
    exact (hlost n searchId hn').2.resolve_right (not_not.mpr hack)
  have hkept := kept_of_run h
  by_cases hack : n ∈ c.acked
  · have hfin := hfinished [] c (.nil c) hack hn
    exact ⟨[], c, .nil c, Nat.zero_le 8, hack, hfin, Or.inl hfin⟩
  · have hm : (searchIntake.published c.config.store)[n]? = some (searchBody searchId) := by
      change (c.config.store.queue.map searchBody)[n]? = _
      rw [List.getElem?_map, hn, Option.map_some]
    obtain ⟨s, hs, rfl⟩ := hkept.config.rows _
      (List.mem_append_right _ (List.mem_of_getElem? hn))
    obtain ⟨xs, w', hxs, halone, hreply⟩ := process_returns d.provider reply newId now
      (Database.search?_eq_some.mpr ⟨hs, rfl⟩)
    obtain ⟨bs, c', hrun, hlen, hsteps, hacked, hconfig⟩ := Intake.exists_acked (P := serving d)
      hkept.exclusive hm (handler_searchBody s.id) (serving_fresh_process.mpr rfl)
      (by decide : 0 < 8) hack (serving_alone_process halone) rfl
    have hmem : n ∈ c'.acked := hacked ▸ List.mem_append_right _ (List.mem_singleton.mpr rfl)
    have hqueue : c'.config.store.queue[n]? = some s.id := by
      rw [hconfig]
      exact hn
    refine ⟨bs, c', hrun, ?_, hmem, hfinished bs c' hrun hmem hqueue, ?_⟩
    · rw [List.length_map, List.length_map] at hlen
      omega
    · by_cases hf : s.status.Final
      · exact Or.inl ⟨s, hs, rfl, hf⟩
      · obtain ⟨hchoice, q, hq, hst⟩ := hreply hf
        obtain ⟨hqm, hid⟩ := Database.search?_eq_some.mp hq
        refine Or.inr ⟨hsteps _ ?_, by rw [hconfig], q, by rwa [hconfig], hid, hst⟩
        exact List.mem_map_of_mem (List.mem_map_of_mem hchoice)

theorem message_can_finish_published : ∃ c : Working, c.config.store.queue = ["search"] ∧
    ∃ bs c', (delivering Example.deployment).Run c bs c' ∧ bs.length ≤ 8 ∧ 0 ∈ c'.acked ∧
      c'.config.store.Finished "search" ∧ (c.config.store.Finished "search" ∨
        .serve (.advance c.config.procs.length (.inr (.inl (.answer [Example.item])))) ∈ bs ∧
        c'.config.procs = c.config.procs ++ [.inr (.inl ⟨"search", .done (.ok ())⟩)] ∧
        ∃ q ∈ c'.config.store.world.db.searches, q.id = "search" ∧
          q.status = SearchReply.status c.config.store.world.db "mock-air" "search"
            (fun _ => "offer") (.inl [Example.item])) := by
  have hrun : ((delivering Example.deployment).exec (Working.start Example.bare)
      Example.published).map (fun c => c.config.store.queue) = some ["search"] := by
    decide +kernel
  obtain ⟨c, hc, hst⟩ := Option.map_eq_some_iff.mp hrun
  have hn : c.config.store.queue[0]? = some "search" := by rw [hst]; rfl
  exact ⟨c, hst, message_can_finish (.inl [Example.item]) (fun _ => "offer") 300
    (Machine.exec_eq_some_iff.mp hc) hn⟩

end Progress

/-! ## Workers that stop -/

/-- A run whose message was given back takes no further step, and exceptions have names. -/
def diligent (c : Working) (a : QueueAction Job JobChoice) : Bool :=
  searchIntake.attachedOnly c a &&
    match a with
    | .serve (.advance _ (.inr (.inl x))) => x.named
    | _ => true

section Once

variable {d : Deployment} {w : World} {c : Working} {as : List (QueueAction Job JobChoice)}

/-- Of the runs on a search only that of its delivery goes on. -/
theorem nonOverlapping_of_diligent {a : Action Job JobChoice}
    (hkept : searchIntake.Kept Dispatched Job.About Platform.Served c)
    (hlast : searchIntake.Latest Job.About c) (hg : diligent c (.serve a) = true) :
    nonOverlapping c.config a = true := by
  obtain ⟨hattached, hnamed⟩ := (Bool.and_eq_true _ _).mp hg
  match a, hattached, hnamed with
  | .spawn _, _, _ => rfl
  | .advance _ (.inl _), _, _ => rfl
  | .advance _ (.inr (.inr _)), _, _ => rfl
  | .advance i (.inr (.inl x)), hattached, hnamed =>
    rw [nonOverlapping, Bool.and_eq_true, Option.all_eq_true]
    refine ⟨hnamed, fun j hj => ?_⟩
    rw [Option.all_eq_true]
    intro id hid
    obtain ⟨body, ⟨id', hid', hread⟩, hle⟩ := Intake.last_of_attached hkept hlast hattached hj
      (Option.isSome_iff_exists.mpr ⟨id, hid⟩)
    obtain rfl : id' = id := Option.some.inj (hid'.symm.trans hid)
    refine latest_iff.mpr fun k q hik hk hq => ?_
    exact absurd (hle k q hk ⟨id', hq, hread⟩) (Nat.not_le.mpr hik)

/-- Workers that stop when their message is given back never overlap on a search, and leave it
unfinished, completed with the offers of one answer, or failed with one error. -/
theorem workers_serve_once (hsearches : w.db.searches.rows = []) (hoffers : w.db.offers.rows = [])
    (h : (delivering d).RunWhere (fun c a => diligent c a) (Working.start w) as c) :
    ∃ bs, (serving d).machine.RunWhere (fun c a => nonOverlapping c a)
      (Program.start (Platform.start w)) bs c.config ∧
    ∀ s ∈ c.config.store.world.db.searches, SearchOutcome d.provider bs c.config s := by
  have hsound := searchIntake_sound d
  have hnodup : ∀ e, Dispatched e → (searchIntake.published e.store).Nodup := by
    intro e he
    exact he.once.of_append_right.map searchBody_injective
  have hsim := Intake.simulates_config searchIntake (serving d)
    (G := fun c a => diligent c a) (H := fun c a => nonOverlapping c a)
    (R := fun c => searchIntake.Kept Dispatched Job.About Platform.Served c ∧
      searchIntake.Latest Job.About c)
    (fun c a c' hR _ hs => ⟨hsound.kept_step hs hR.1, hsound.latest_step hnodup hs hR.1 hR.2⟩)
    (fun c a hR hg _ => nonOverlapping_of_diligent hR.1 hR.2 hg)
    (fun _ _ _ _ _ _ _ _ _ => rfl)
  obtain ⟨bs, e, hrun, _, rfl⟩ := hsim.run h
    ⟨⟨Intake.kept_start (dispatched_start w), Intake.latest_start _⟩, rfl⟩
  refine ⟨bs, hrun, ?_⟩
  have hstart : Orderly d.provider [] (Program.start (Platform.start w)) := by
    constructor <;> simp [Program.start, Platform.start, Table.mem_def, hsearches, hoffers]
  have horderly : Orderly d.provider bs c.config :=
    hrun.trace (I := fun as c => Orderly d.provider as c)
      (fun as c a c' hg hs h => h.step hs hg) hstart
  exact horderly.outcome

theorem workers_serve_once_lostWorker : ∃ c : Working,
    c.config.store.world.db.searches.rows.map (·.status) = [.completed] ∧
    ∃ bs, (serving Example.deployment).machine.RunWhere (fun c a => nonOverlapping c a)
      (Program.start (Platform.start Example.bare)) bs c.config ∧
    ∀ s ∈ c.config.store.world.db.searches, SearchOutcome "mock-air" bs c.config s := by
  have hrun : ((delivering Example.deployment).execWhere (fun c a => diligent c a)
      (Working.start Example.bare) Example.lostWorker).map
        (fun c => c.config.store.world.db.searches.rows.map (·.status)) = some [.completed] := by
    decide +kernel
  obtain ⟨c, hc, hst⟩ := Option.map_eq_some_iff.mp hrun
  exact ⟨c, hst, workers_serve_once rfl rfl (Machine.runWhere_of_execWhere hc)⟩

end Once

end Ioka
