import Ioka.Platform.Reachable

/-! # Searches handed to the queue

A new search is committed and cached before its message is published. A call
that fails to publish, or has not published yet, leaves a row that the cache
gives to the next call with the same payload, and that call publishes nothing.
-/

namespace Ioka

open Relational Transition

/-- Some call returned the search. -/
def Returned (c : Serving) (searchId : String) : Prop :=
  ∃ r search, .inl r ∈ c.procs ∧ r.phase = .done (.ok search) ∧ search.id = searchId

/-- Every search that a call returned has had its message published. -/
def AllPublished (c : Serving) : Prop := ∀ searchId, Returned c searchId → searchId ∈ c.store.queue

/-- A job that returned the search, as a test. -/
def Job.hasReturned (searchId : String) (j : Job) : Bool :=
  j.elim (fun r => match r.phase with
    | .done (.ok search) => search.id = searchId
    | _ => false) fun _ => false

/-- The cache answers a call only with a search that an earlier call returned: its publish has
neither failed nor is it still to come. -/
def answersReturned (c : Serving) : Action Job JobChoice → Bool
  | .advance i (.inl (.readRow now)) => c.procs[i]?.all fun j => j.elim (fun r =>
      match r.phase with
      | .cached searchId => (c.store.world.db.search? searchId).all fun existing =>
          existing.expiresAt ≤ now || c.procs.any (Job.hasReturned searchId)
      | _ => true) fun _ => true
  | _ => true

section Returned

variable {c c' : Serving} {searchId : String} {i : ℕ} {j j' : Job} {s : Platform}

theorem Job.hasReturned_iff : j.hasReturned searchId = true ↔
    ∃ r search, j = .inl r ∧ r.phase = .done (.ok search) ∧ search.id = searchId := by
  rcases j with r | j
  · obtain ⟨_, _, _, phase⟩ := r
    cases phase with
    | done result => cases result <;> simp [hasReturned]
    | _ => simp [hasReturned]
  · simp [hasReturned]

theorem returned_iff :
    Returned c searchId ↔ c.procs.any (Job.hasReturned searchId) = true := by
  rw [List.any_eq_true]
  constructor
  · rintro ⟨r, search, hr, hp, hid⟩
    exact ⟨.inl r, hr, Job.hasReturned_iff.mpr ⟨r, search, rfl, hp, hid⟩⟩
  · rintro ⟨j, hj, h⟩
    obtain ⟨r, search, rfl, hp, hid⟩ := Job.hasReturned_iff.mp h
    exact ⟨r, search, hj, hp, hid⟩

theorem returned_set (hj : c.procs[i]? = some j) (hn : ∀ searchId, j.hasReturned searchId = false) :
    Returned ⟨s, c.procs.set i j'⟩ searchId ↔
      Returned c searchId ∨ j'.hasReturned searchId = true := by
  have hlt : i < c.procs.length := (List.getElem?_eq_some_iff.mp hj).1
  simp only [returned_iff, List.any_eq_true]
  constructor
  · rintro ⟨q, hq, hret⟩
    rcases List.mem_or_eq_of_mem_set hq with hq | rfl
    · exact Or.inl ⟨q, hq, hret⟩
    · exact Or.inr hret
  · rintro (⟨q, hq, hret⟩ | hret)
    · obtain ⟨k, hk⟩ := List.mem_iff_getElem?.mp hq
      have hki : k ≠ i := by
        rintro rfl
        obtain rfl : q = j := Option.some.inj (hk.symm.trans hj)
        rw [hn] at hret
        cases hret
      exact ⟨q, List.mem_iff_getElem?.mpr ⟨k, (List.getElem?_set_ne hki.symm).trans hk⟩, hret⟩
    · exact ⟨j', List.mem_iff_getElem?.mpr ⟨i, List.getElem?_set_self hlt⟩, hret⟩

end Returned

section Step

variable {d : Deployment} {c c' : Serving} {a : Action Job JobChoice} {i : ℕ} {j j' : Job}
  {x : JobChoice} {s' : Platform} {as : List (Action Job JobChoice)}

/-- Every search in the queue was returned by a call: publishing it is the last thing it did. -/
def QueueReturned (c : Serving) : Prop := ∀ searchId ∈ c.store.queue, Returned c searchId

theorem published_of_silent (hj : c.procs[i]? = some j)
    (hn : ∀ searchId, j.hasReturned searchId = false)
    (hn' : ∀ searchId, j'.hasReturned searchId = false) (hq : s'.queue = c.store.queue)
    (hK : QueueReturned c) : QueueReturned ⟨s', c.procs.set i j'⟩ ∧
      (AllPublished c → AllPublished ⟨s', c.procs.set i j'⟩) := by
  have hret : ∀ id, Returned ⟨s', c.procs.set i j'⟩ id ↔ Returned c id := by
    intro id
    simp [returned_set hj hn, hn']
  constructor
  · intro id h
    rw [hq] at h
    exact (hret id).mpr (hK id h)
  · intro hI id h
    rw [hq]
    exact hI id ((hret id).mp h)

/-- A step of `start` keeps every returned search published exactly if the guard admits it. -/
theorem StartStep.published_iff {r r' : StartSearch} {y : StartChoice}
    (hmode : d.settings.searchDispatchMode = .rabbitmq) (hj : c.procs[i]? = some (.inl r))
    (h : StartStep d c.store r y s' r') (hK : QueueReturned c) :
    QueueReturned ⟨s', c.procs.set i (.inl r')⟩ ∧ (AllPublished c →
      (AllPublished ⟨s', c.procs.set i (.inl r')⟩ ↔
        answersReturned c (.advance i (.inl y)) = true)) := by
  have hn : ∀ id, Job.hasReturned id (.inl r) = false := by
    intro id
    rw [Bool.eq_false_iff]
    intro hret
    obtain ⟨q, search, hq, hp, _⟩ := Job.hasReturned_iff.mp hret
    cases hq
    exact h.not_done _ hp
  cases h with
  | cached | unlisted | refused | created | remembered | undispatched =>
    refine (published_of_silent hj hn ?_ rfl hK).imp_right fun hI' hI => iff_of_true (hI' hI) rfl
    exact fun _ => rfl
  | @expired searchId now hp hrow =>
    refine (published_of_silent hj hn ?_ rfl hK).imp_right fun hI' hI => iff_of_true (hI' hI) ?_
    · exact fun _ => rfl
    simp only [answersReturned, hj, Option.all_some, Sum.elim_inl, hp, Option.all_eq_true]
    intro q hq
    simp [hrow q hq]
  | @found searchId existing now hp hrow hnow =>
    obtain ⟨_, hid⟩ := Database.search?_eq_some.mp hrow
    have hret : ∀ id, Returned ⟨c.store, c.procs.set i (.inl (r.finish (.ok existing)))⟩ id ↔
        Returned c id ∨ id = searchId := by
      intro id
      rw [returned_set hj hn, ← hid]
      simp [Job.hasReturned, StartSearch.finish, eq_comm]
    have hguard : answersReturned c (.advance i (.inl (.readRow now))) = true ↔
        Returned c searchId := by
      have hlate : ¬ existing.expiresAt ≤ now := not_le.mpr hnow
      simp only [answersReturned, hj, Option.all_some, Sum.elim_inl, hp, hrow, Bool.or_eq_true,
        decide_eq_true_eq, hlate, false_or, returned_iff]
    rw [hguard]
    refine ⟨fun id hq => (hret id).mpr (Or.inl (hK id hq)), fun hI => ⟨fun h => ?_, ?_⟩⟩
    · exact hK searchId (h searchId ((hret searchId).mpr (Or.inr rfl)))
    · intro h id hr
      rcases (hret id).mp hr with hr | rfl
      · exact hI id hr
      · exact hI id h
  | started _ hinline =>
    rw [hmode] at hinline
    cases hinline
  | @published search hp =>
    have hret : ∀ id, Returned ⟨{ c.store with queue := c.store.queue ++ [search.id] },
        c.procs.set i (.inl (r.finish (.ok search)))⟩ id ↔ Returned c id ∨ id = search.id := by
      intro id
      rw [returned_set hj hn]
      simp [Job.hasReturned, StartSearch.finish, eq_comm]
    refine ⟨fun id hq => (hret id).mpr ?_, fun hI => iff_of_true (fun id hr => ?_) rfl⟩
    · rcases List.mem_append.mp hq with hq | hq
      · exact Or.inl (hK id hq)
      · exact Or.inr (List.mem_singleton.mp hq)
    · rcases (hret id).mp hr with hr | rfl
      · exact List.mem_append_left _ (hI id hr)
      · exact List.mem_append_right _ (List.mem_singleton.mpr rfl)

theorem published_of_step (hmode : d.settings.searchDispatchMode = .rabbitmq)
    (h : (serving d).machine.step c a = some c') (hK : QueueReturned c) :
    QueueReturned c' ∧ (AllPublished c → (AllPublished c' ↔ answersReturned c a = true)) := by
  cases a with
  | spawn j =>
    obtain ⟨hf, rfl⟩ := Program.step_spawn_iff.mp h
    have hret : ∀ id, Returned ⟨c.store, c.procs ++ [j]⟩ id ↔ Returned c id := by
      intro id
      have hn : j.hasReturned id = false := by
        rcases j with r | j
        · have hp : r.phase = .requested := serving_fresh_start.mp hf
          simp [Job.hasReturned, hp]
        · rfl
      simp [returned_iff, hn]
    refine ⟨fun id hq => (hret id).mpr (hK id hq), fun hI => iff_of_true ?_ rfl⟩
    exact fun id hr => hI id ((hret id).mp hr)
  | advance i x =>
    obtain ⟨j, s', j', hj, ha, rfl⟩ := Program.step_advance_iff.mp h
    have hother : ∀ q : ProcessSearch ⊕ Request, ∀ id, Job.hasReturned id (.inr q) = false :=
      fun _ _ => rfl
    cases serving_step ha with
    | start hb => exact (StartSearch.advance_step hb).published_iff hmode hj hK
    | process | book =>
      refine (published_of_silent hj (hother _) (hother _) ?_ hK).imp_right ?_
      · rfl
      · exact fun hI' hI => iff_of_true (hI' hI) rfl

/-- In every state of a run the returned searches are published, exactly if the cache answers
every call of the run with a search that was returned before. -/
theorem all_published_iff {w : World} (hmode : d.settings.searchDispatchMode = .rabbitmq)
    (h : (serving d).machine.Run (Program.start (Platform.start w)) as c) :
    (∀ bs cs c₁, as = bs ++ cs →
      (serving d).machine.Run (Program.start (Platform.start w)) bs c₁ → AllPublished c₁) ↔
    (serving d).machine.RunWhere (fun c a => answersReturned c a)
      (Program.start (Platform.start w)) as c := by
  apply h.always_iff (I := AllPublished) (K := QueueReturned)
  · exact fun _ _ _ hs hK => (published_of_step hmode hs hK).1
  · exact fun _ _ _ hs hK => (published_of_step hmode hs hK).2
  · intro id hq
    simp [Program.start, Platform.start] at hq
  · rintro id ⟨r, _, hr, _⟩
    simp [Program.start] at hr

end Step

/-! ## A publish that fails -/

namespace Example

/-- The broker is down when the first call publishes; the cache answers the second call. -/
def lostInDispatch : List (Action Job JobChoice) :=
  .spawn (startCall 100) :: startSteps 0 ++
    [.advance 0 (.inl (.dispatch (some ⟨"", "AMQPConnectionError", false⟩))),
      .spawn (startCall 200)] ++ cachedSteps 1

/-- The first call publishes, and the cache answers the second call. -/
def dispatchedOnce : List (Action Job JobChoice) :=
  .spawn (startCall 100) :: startSteps 0 ++
    [.advance 0 (.inl (.dispatch none)), .spawn (startCall 200)] ++ cachedSteps 1

theorem mem_returned {c : Serving} {id : String} (h : id ∈ returned c) : Returned c id := by
  obtain ⟨j, hj, hr⟩ := List.mem_filterMap.mp h
  rcases j with r | j
  · refine returned_iff.mpr (List.any_eq_true.mpr ⟨.inl r, hj, ?_⟩)
    obtain ⟨_, _, _, phase⟩ := r
    cases phase with
    | done result => cases result <;> simp_all [Job.hasReturned]
    | _ => simp at hr
  · cases hr

end Example

/-- After a failed publish, a call returns a search that no message was published for. -/
theorem not_published_cached : ¬ ∀ (d : Deployment) (w : World) (as : List (Action Job JobChoice))
    (c : Serving), d.settings.searchDispatchMode = .rabbitmq →
    (serving d).machine.Run (Program.start (Platform.start w)) as c → AllPublished c := by
  intro hall
  have hrun : ((serving Example.deployment).machine.exec
      (Program.start (Platform.start Example.bare)) Example.lostInDispatch).map
        (fun c => (Example.returned c, c.store.queue)) = some (["search"], []) := by
    decide +kernel
  obtain ⟨c, hc, hret⟩ := Option.map_eq_some_iff.mp hrun
  simp only [Prod.mk.injEq] at hret
  have hr : Returned c "search" := Example.mem_returned (by simp [hret.1])
  have hq := hall _ _ _ c rfl (Machine.exec_eq_some_iff.mp hc) "search" hr
  simp [hret.2] at hq

theorem all_published_iff_dispatchedOnce : ∃ c : Serving,
    Example.returned c = ["search", "search"] ∧
    ∀ bs cs c₁, Example.dispatchedOnce = bs ++ cs → (serving Example.deployment).machine.Run
      (Program.start (Platform.start Example.bare)) bs c₁ → AllPublished c₁ := by
  have hrun : ((serving Example.deployment).machine.execWhere (fun c a => answersReturned c a)
      (Program.start (Platform.start Example.bare)) Example.dispatchedOnce).map
        Example.returned = some ["search", "search"] := by
    decide +kernel
  obtain ⟨c, hc, hret⟩ := Option.map_eq_some_iff.mp hrun
  have h := Machine.runWhere_of_execWhere hc
  exact ⟨c, hret, (all_published_iff rfl h.run).mpr h⟩

end Ioka
