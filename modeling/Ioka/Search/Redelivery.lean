import Mathlib.Data.Rat.Defs
import Mathlib.Tactic.NormNum
import Ioka.Platform.Reachable

/-! # Redelivered searches

A message may be delivered again after the run on it crashed, but two runs on one
search never overlap: of the runs on a search only the last one to arrive goes on.
Then a search ends once, with the offers of one answer or with one error.
-/

namespace Ioka

open Relational Transition

/-- No later job is a run on the search. -/
def latest (c : Serving) (i : ℕ) (searchId : String) : Bool :=
  (c.procs.drop (i + 1)).all fun j => j.searchId? ≠ some searchId

/-- The type of an exception has a name. -/
def ProcessChoice.named : ProcessChoice → Bool
  | .raise e => e.typeName ≠ ""
  | _ => true

/-- Of the runs on a search only the last one goes on; the others have ended or crashed. -/
def nonOverlapping (c : Serving) : Action Job JobChoice → Bool
  | .advance i (.inr (.inl x)) => x.named && c.procs[i]?.all fun j =>
    j.searchId?.all fun searchId => latest c i searchId
  | _ => true

/-- A run on the search was given the answer. -/
def Answered (as : List (Action Job JobChoice)) (c : Serving) (searchId : String)
    (items : List ProviderOffer) : Prop :=
  ∃ i j, .advance i (.inr (.inl (.answer items))) ∈ as ∧ c.procs[i]? = some j ∧
    j.searchId? = some searchId

/-- What a search has come to: it is not finished, or it has the offers of one answer as their
columns keep them, or it has an error. -/
inductive SearchOutcome (provider : String) (as : List (Action Job JobChoice)) (c : Serving)
    (s : FlightSearch) : Prop
  | unfinished : s.status = .pending ∨ s.status = .inProgress → s.errorCode = none →
      s.completedAt = none → c.store.world.db.offersOf s.id = [] → SearchOutcome provider as c s
  | completed {items kept : List ProviderOffer} {newId : ℕ → String} : s.status = .completed →
      s.completedAt.isSome → s.errorCode = none → Answered as c s.id items →
      keptItems items = some kept →
      c.store.world.db.offersOf s.id = newOffers provider s.id newId kept →
      SearchOutcome provider as c s
  | failed {code message : String} : s.status = .failed ∨ s.status = .timedOut →
      s.errorCode = some code → code ≠ "" → s.errorMessage = some message → message ≠ "" →
      s.completedAt = none → c.store.world.db.offersOf s.id = [] → SearchOutcome provider as c s

/-- The run is past its first block and has not ended. -/
def ProcessSearch.Midway (r : ProcessSearch) : Prop :=
  match r.phase with
  | .requested | .done _ => False
  | _ => True

/-- What a run was given: its answer came from the provider, its error has a message. -/
def ProcessSearch.Given (as : List (Action Job JobChoice)) (c : Serving) (r : ProcessSearch) :
    Prop :=
  match r.phase with
  | .answered _ items => Answered as c r.searchId items
  | .raised _ e => e.message ≠ ""
  | _ => True

structure Orderly (provider : String) (as : List (Action Job JobChoice)) (c : Serving) : Prop where
  outcome : ∀ s ∈ c.store.world.db.searches, SearchOutcome provider as c s
  /-- The last run on a search, once under way, finds it unfinished. -/
  midway : ∀ i r, c.procs[i]? = some (.inr (.inl r)) → latest c i r.searchId → r.Midway →
    ∃ s ∈ c.store.world.db.searches, s.id = r.searchId ∧ ¬ s.status.Final
  given : ∀ r, .inr (.inl r) ∈ c.procs → r.Given as c
  owned : ∀ o ∈ c.store.world.db.offers, ∃ s ∈ c.store.world.db.searches, s.id = o.searchId

/-- Jobs stay where they are and keep their searches. -/
def Follows (c c' : Serving) : Prop :=
  ∀ (k : ℕ) (j : Job), c.procs[k]? = some j →
    ∃ j' : Job, c'.procs[k]? = some j' ∧ j'.searchId? = j.searchId?

section Latest

variable {d : Deployment} {c c' : Serving} {i k : ℕ} {searchId : String} {j j' : Job}
  {as : List (Action Job JobChoice)} {a : Action Job JobChoice} {items : List ProviderOffer}

theorem latest_iff : latest c i searchId = true ↔
    ∀ k j, i < k → c.procs[k]? = some j → j.searchId? ≠ some searchId := by
  simp only [latest, List.all_eq_true, decide_eq_true_eq]
  constructor
  · intro h k j hik hk
    refine h j (List.mem_of_getElem? (i := k - (i + 1)) ?_)
    rw [List.getElem?_drop]
    rwa [show i + 1 + (k - (i + 1)) = k by omega]
  · intro h j hj
    obtain ⟨k, hk⟩ := List.mem_iff_getElem?.mp hj
    rw [List.getElem?_drop] at hk
    exact h (i + 1 + k) j (by omega) hk

theorem latest_unique (hi : c.procs[i]? = some j) (hk : c.procs[k]? = some j')
    (hj : j.searchId? = some searchId) (hj' : j'.searchId? = some searchId)
    (hli : latest c i searchId = true) (hlk : latest c k searchId = true) : i = k := by
  by_contra hne
  rcases Nat.lt_or_gt_of_ne hne with hlt | hlt
  · exact latest_iff.mp hli k j' hlt hk hj'
  · exact latest_iff.mp hlk i j hlt hi hj

theorem follows_of_step (h : (serving d).machine.step c a = some c') : Follows c c' := by
  intro k q hk
  cases a with
  | spawn j =>
    obtain ⟨_, rfl⟩ := Program.step_spawn_iff.mp h
    have hlt : k < c.procs.length := (List.getElem?_eq_some_iff.mp hk).1
    exact ⟨q, (List.getElem?_append_left hlt).trans hk, rfl⟩
  | advance i x =>
    obtain ⟨j, s', j', hj, ha, rfl⟩ := Program.step_advance_iff.mp h
    by_cases hki : k = i
    · subst hki
      obtain rfl : q = j := Option.some.inj (hk.symm.trans hj)
      have hlt : k < c.procs.length := (List.getElem?_eq_some_iff.mp hk).1
      exact ⟨j', List.getElem?_set_self hlt, (serving_step ha).searchId?_eq⟩
    · exact ⟨q, (List.getElem?_set_ne (Ne.symm hki)).trans hk, rfl⟩

theorem Follows.latest (h : Follows c c') (hl : latest c' k searchId = true) :
    latest c k searchId = true := by
  rw [latest_iff] at hl ⊢
  intro m q hkm hm
  obtain ⟨q', hm', hq'⟩ := h m q hm
  rw [← hq']
  exact hl m q' hkm hm'

theorem Answered.mono (h : Answered as c searchId items) (hf : Follows c c') :
    Answered (as ++ [a]) c' searchId items := by
  obtain ⟨k, q, hmem, hk, hq⟩ := h
  obtain ⟨q', hk', hq'⟩ := hf k q hk
  exact ⟨k, q', List.mem_append_left _ hmem, hk', hq'.trans hq⟩

end Latest

section Step

variable {d : Deployment} {c c' : Serving} {i : ℕ} {as : List (Action Job JobChoice)}
  {a : Action Job JobChoice} {r r' : ProcessSearch} {x : ProcessChoice} {w' : World}
  {s s' : FlightSearch} {provider : String}

theorem SearchOutcome.of_not_final (h : SearchOutcome provider as c s) (hf : ¬ s.status.Final) :
    (s.status = .pending ∨ s.status = .inProgress) ∧ s.errorCode = none ∧
      s.completedAt = none ∧ c.store.world.db.offersOf s.id = [] := by
  cases h with
  | unfinished hs hc ht ho => exact ⟨hs, hc, ht, ho⟩
  | completed hs => exact absurd (by rw [hs]; decide) hf
  | failed hs => exact absurd (by rcases hs with hs | hs <;> rw [hs] <;> decide) hf

theorem SearchOutcome.mono (h : SearchOutcome provider as c s) (hf : Follows c c')
    (ho : c'.store.world.db.offersOf s.id = c.store.world.db.offersOf s.id) :
    SearchOutcome provider (as ++ [a]) c' s := by
  cases h with
  | unfinished hs hc ht h => exact .unfinished hs hc ht (ho.trans h)
  | completed hs ht hc ha hk h => exact .completed hs ht hc (ha.mono hf) hk (ho.trans h)
  | failed hs hc hc' hm hm' ht h => exact .failed hs hc hc' hm hm' ht (ho.trans h)

theorem Raised.searchErrorCode_ne (e : Raised) : e.searchErrorCode ≠ "" := by
  unfold searchErrorCode
  split <;> decide

theorem Raised.message_ne {e : Raised} (h : e.typeName ≠ "") : e.message ≠ "" := by
  unfold message
  split
  · exact h
  · assumption

theorem Failure.typeName_ne (e : Failure) : e.typeName ≠ "" := by
  cases e <;> simp [typeName]

theorem Raised.searchStatus_cases (e : Raised) :
    e.searchStatus = .failed ∨ e.searchStatus = .timedOut := by
  unfold searchStatus
  split
  · exact Or.inr rfl
  · exact Or.inl rfl

theorem nonOverlapping_iff (hi : c.procs[i]? = some (.inr (.inl r))) :
    nonOverlapping c (.advance i (.inr (.inl x))) = true ↔
      x.named = true ∧ latest c i r.searchId = true := by
  simp [nonOverlapping, hi, Job.searchId?]

/-- What a step makes of a run: it was given something, or it goes on with what it had. -/
theorem ProcessStep.given (h : ProcessStep provider c.store.world r x w' r')
    (hi : c.procs[i]? = some (.inr (.inl r))) (hn : x.named = true) (hf : Follows c c') :
    r'.Given (as ++ [.advance i (.inr (.inl x))]) c' := by
  cases h with
  | skipped | started | called | cancelled | lost | saved | unrecorded | failed => trivial
  | @answered request items hp =>
    obtain ⟨j', hj', hid⟩ := hf i _ hi
    exact ⟨i, j', List.mem_append_right _ (List.mem_singleton.mpr rfl), hj', hid⟩
  | raised => exact Raised.message_ne (by simpa [ProcessChoice.named] using hn)
  | refused => exact Raised.message_ne (Failure.typeName_ne _)

theorem ProcessSearch.Given.mono (h : r.Given as c) (hf : Follows c c') :
    r.Given (as ++ [a]) c' := by
  obtain ⟨_, phase⟩ := r
  cases phase with
  | answered => exact Answered.mono h hf
  | _ => exact h

theorem ProcessStep.midway {w : World} (h : ProcessStep provider w r x w' r')
    (hm : r.Midway → ∃ s ∈ w.db.searches, s.id = r.searchId ∧ ¬ s.status.Final) :
    r'.Midway → ∃ s ∈ w'.db.searches, s.id = r'.searchId ∧ ¬ s.status.Final := by
  intro hm'
  cases h with
  | skipped | cancelled | lost | saved | unrecorded | failed => exact absurd hm' id
  | @started _ s db' _ hs hf hw =>
    refine ⟨_, hw.mem_searches.mpr (Or.inl rfl), (Database.search?_eq_some.mp hs).2, ?_⟩
    exact (by decide : ¬ SearchStatus.inProgress.Final)
  | called hp | answered hp | raised hp | refused hp =>
    exact hm (by rw [ProcessSearch.Midway, hp]; trivial)

/-- The outcomes after a step of a run that is the last one on its search. -/
theorem ProcessStep.outcome (h : ProcessStep provider c.store.world r x w' r')
    (hf : Follows c c') (hw' : c'.store.world = w') (hg : r.Given as c)
    (hm : r.Midway → ∃ s ∈ c.store.world.db.searches, s.id = r.searchId ∧ ¬ s.status.Final)
    (ho : ∀ s ∈ c.store.world.db.searches, SearchOutcome provider as c s) :
    ∀ s ∈ c'.store.world.db.searches, SearchOutcome provider (as ++ [a]) c' s := by
  have hsame : c'.store.world.db = c.store.world.db → ∀ s ∈ c'.store.world.db.searches,
      SearchOutcome provider (as ++ [a]) c' s := by
    intro hdb q hq
    rw [hdb] at hq
    exact (ho q hq).mono hf (by rw [hdb])
  have hrewrite : ∀ {s s' : FlightSearch} {offers : List Offer},
      Rewritten c.store.world.db c'.store.world.db s s' offers →
      SearchOutcome provider (as ++ [a]) c' s' →
      ∀ q ∈ c'.store.world.db.searches, SearchOutcome provider (as ++ [a]) c' q := by
    intro s s' offers hw hs' q hq
    rcases hw.mem_searches.mp hq with rfl | ⟨hq, hne⟩
    · exact hs'
    · exact (ho q hq).mono hf (hw.offersOf_of_ne hne)
  -- The search of a run under way is unfinished, so it has no offers and no error yet.
  have hrow : r.Midway → ∀ s, c.store.world.db.search? r.searchId = some s →
      s.errorCode = none ∧ s.completedAt = none ∧ c.store.world.db.offersOf s.id = [] := by
    intro hmid s hs
    obtain ⟨q, hq, hid, hfin⟩ := hm hmid
    obtain ⟨hmem, hsid⟩ := Database.search?_eq_some.mp hs
    obtain rfl := Database.search_ext hq hmem (hid.trans hsid.symm)
    exact ((ho q hq).of_not_final hfin).2
  cases h with
  | skipped | called | answered | raised | cancelled | lost | refused | unrecorded =>
    exact hsame (by simp [hw'])
  | @started _ s db' _ hs hfin hw =>
    have hdb : c'.store.world.db = db' := by rw [hw']; rfl
    rw [← hdb] at hw
    have hmem := (Database.search?_eq_some.mp hs).1
    obtain ⟨_, hc, ht, hoff⟩ := (ho s hmem).of_not_final hfin
    exact hrewrite hw (.unfinished (Or.inr rfl) hc ht
      (by simpa [hoff] using hw.offersOf_self))
  | @saved request items kept s newId now _ _ db' hp hs hk _ hw =>
    have hdb : c'.store.world.db = db' := by rw [hw']; rfl
    rw [← hdb] at hw
    obtain ⟨hc, _, hoff⟩ := hrow (by rw [ProcessSearch.Midway, hp]; trivial) s hs
    rw [ProcessSearch.Given, hp] at hg
    have hans : Answered (as ++ [a]) c' s.id items := by
      rw [(Database.search?_eq_some.mp hs).2]
      exact Answered.mono hg hf
    have hnew : c'.store.world.db.offersOf s.id = newOffers provider s.id newId kept := by
      simpa [hoff] using hw.offersOf_self
    exact hrewrite hw (.completed rfl rfl hc hans hk hnew)
  | @failed _ _ e s _ db' hp hs _ hw =>
    have hdb : c'.store.world.db = db' := by rw [hw']; rfl
    rw [← hdb] at hw
    obtain ⟨_, ht, hoff⟩ := hrow (by rw [ProcessSearch.Midway, hp]; trivial) s hs
    rw [ProcessSearch.Given, hp] at hg
    exact hrewrite hw (.failed e.searchStatus_cases rfl e.searchErrorCode_ne rfl hg ht
      (by simpa [hoff] using hw.offersOf_self))

end Step

section Runs

variable {d : Deployment} {c c' : Serving} {i : ℕ} {as : List (Action Job JobChoice)}
  {a : Action Job JobChoice} {j j' : Job} {s' : Platform} {provider : String}

theorem Orderly.of_other (h : Orderly provider as c) (hf : Follows c ⟨s', c.procs.set i j'⟩)
    (hj : ∀ r, j' ≠ .inr (.inl r))
    (hnew : ∀ s ∈ s'.world.db.searches, s ∈ c.store.world.db.searches ∨
      ((s.status = .pending ∧ s.errorCode = none ∧ s.completedAt = none) ∧
        ∀ q ∈ c.store.world.db.searches, q.id ≠ s.id))
    (hkept : ∀ s ∈ c.store.world.db.searches, s ∈ s'.world.db.searches)
    (hoffers : s'.world.db.offers = c.store.world.db.offers) :
    Orderly provider (as ++ [a]) ⟨s', c.procs.set i j'⟩ := by
  have hold : ∀ {k : ℕ} {r : ProcessSearch}, (c.procs.set i j')[k]? = some (.inr (.inl r)) →
      c.procs[k]? = some (.inr (.inl r)) := by
    intro k r hk
    rw [List.getElem?_set] at hk
    split at hk
    · split at hk
      · exact absurd (Option.some.inj hk) (hj r)
      · cases hk
    · exact hk
  have hoff : ∀ id, s'.world.db.offersOf id = c.store.world.db.offersOf id := by
    intro id
    rw [Database.offersOf, hoffers, Database.offersOf]
  refine ⟨fun s hs => ?_, fun k r hk hl hm => ?_, fun r hr => ?_, fun o ho => ?_⟩
  · rcases hnew s hs with hs | ⟨⟨hst, hc, ht⟩, hfresh⟩
    · exact (h.outcome s hs).mono hf (hoff s.id)
    · refine .unfinished (Or.inl hst) hc ht ((hoff s.id).trans (List.filter_eq_nil_iff.mpr ?_))
      intro o ho hid
      obtain ⟨q, hq, hqo⟩ := h.owned o ho
      exact hfresh q hq (hqo.trans (by simpa using hid))
  · obtain ⟨s, hs, hid, hfin⟩ := h.midway k r (hold hk) (hf.latest hl) hm
    exact ⟨s, hkept s hs, hid, hfin⟩
  · obtain ⟨k, hk⟩ := List.mem_iff_getElem?.mp hr
    exact (h.given r (List.mem_of_getElem? (hold hk))).mono hf
  · rw [hoffers] at ho
    obtain ⟨s, hs, hid⟩ := h.owned o ho
    exact ⟨s, hkept s hs, hid⟩

theorem Orderly.of_process {r r' : ProcessSearch} {x : ProcessChoice} {w' : World}
    (h : Orderly provider as c) (hi : c.procs[i]? = some (.inr (.inl r)))
    (hstep : ProcessStep provider c.store.world r x w' r') (hn : x.named = true)
    (hl : latest c i r.searchId = true)
    (hf : Follows c ⟨c.store.withWorld w', c.procs.set i (.inr (.inl r'))⟩) :
    Orderly provider (as ++ [.advance i (.inr (.inl x))])
      ⟨c.store.withWorld w', c.procs.set i (.inr (.inl r'))⟩ := by
  have hlt : i < c.procs.length := (List.getElem?_eq_some_iff.mp hi).1
  have hg := h.given r (List.mem_of_getElem? hi)
  have hm := h.midway i r hi hl
  refine ⟨hstep.outcome hf rfl hg hm h.outcome, fun k q hk hlk hq => ?_, fun q hq => ?_, ?_⟩
  · by_cases hki : k = i
    · subst hki
      obtain rfl : r' = q := by
        have := (List.getElem?_set_self hlt).symm.trans hk
        simpa using this
      exact hstep.midway hm hq
    · have hkc : c.procs[k]? = some (.inr (.inl q)) :=
        (List.getElem?_set_ne (Ne.symm hki)).symm.trans hk
      have hlk := hf.latest hlk
      obtain ⟨s, hs, hid, hfin⟩ := h.midway k q hkc hlk hq
      have hne : q.searchId ≠ r.searchId := by
        intro he
        exact hki (latest_unique hkc hi rfl (congrArg some he.symm) hlk (he ▸ hl))
      rcases hstep.db with he | ⟨p, p', offers, hpid, _, hw⟩
      · exact ⟨s, by simpa [he] using hs, hid, hfin⟩
      · refine ⟨s, hw.mem_searches.mpr (Or.inr ⟨hs, ?_⟩), hid, hfin⟩
        rw [hid, hpid]
        exact hne
  · rcases List.mem_or_eq_of_mem_set hq with hq | hq
    · exact (h.given q hq).mono hf
    · cases hq
      exact hstep.given hi hn hf
  · intro o ho
    rcases hstep.db with he | ⟨p, p', offers, hpid, hpp, hw⟩
    · simpa [he] using h.owned o (by simpa [he] using ho)
    · rcases hw.mem_offers.mp ho with ho | ho
      · obtain ⟨s, hs, hid⟩ := h.owned o ho
        obtain ⟨s', hs', hss⟩ := (hw.grows hpp).searches s hs
        exact ⟨s', hs', hss.id.trans hid⟩
      · exact ⟨p', hw.mem_searches.mpr (Or.inl rfl), hpp.id.trans (hw.owners o ho).symm⟩

theorem Orderly.step (hs : (serving d).machine.step c a = some c')
    (hg : nonOverlapping c a = true) (h : Orderly d.provider as c) :
    Orderly d.provider (as ++ [a]) c' := by
  have hf := follows_of_step hs
  cases a with
  | spawn j =>
    obtain ⟨hfresh, rfl⟩ := Program.step_spawn_iff.mp hs
    have hnew : ∀ r, j = .inr (.inl r) → ¬ r.Midway ∧ ∀ as c, r.Given as c := by
      rintro r rfl
      have hp : r.phase = .requested := serving_fresh_process.mp hfresh
      simp [ProcessSearch.Midway, ProcessSearch.Given, hp]
    refine ⟨fun s hs => (h.outcome s hs).mono hf rfl, fun k r hk hl hm => ?_, fun r hr => ?_,
      h.owned⟩
    · rcases Program.getElem?_concat hk with hk | ⟨_, hj⟩
      · exact h.midway k r hk (hf.latest hl) hm
      · exact absurd hm (hnew r hj.symm).1
    · rcases List.mem_append.mp hr with hr | hr
      · exact (h.given r hr).mono hf
      · exact (hnew r (List.mem_singleton.mp hr).symm).2 _ _
  | advance i x =>
    obtain ⟨j, s', j', hj, ha, rfl⟩ := Program.step_advance_iff.mp hs
    cases serving_step ha with
    | start hb =>
      rcases (StartSearch.advance_step hb).db with he | ⟨db', _, _, _, he, hst⟩
      · refine h.of_other hf (by simp) ?_ ?_ ?_ <;> rw [he]
        · exact fun s hs => Or.inl hs
        · exact fun s hs => hs
      · refine h.of_other hf (by simp) ?_ ?_ ?_ <;> rw [he]
        · intro s hs
          rcases hst.mem_searches.mp hs with hs | rfl
          · exact Or.inl hs
          · exact Or.inr ⟨⟨rfl, rfl, rfl⟩, fun q hq => hst.fresh hq⟩
        · exact fun s hs => hst.mem_searches.mpr (Or.inl hs)
        · exact hst.offers
    | process hb =>
      obtain ⟨hn, hl⟩ := (nonOverlapping_iff hj).mp hg
      exact h.of_process hj (ProcessSearch.advance_step hb) hn hl hf
    | book hb =>
      have hk := booking_searchesKept hb
      refine h.of_other hf (by simp) ?_ ?_ hk.offers
      · exact fun s hs => Or.inl (hk.searches ▸ hs)
      · exact fun s hs => hk.searches.symm ▸ hs

end Runs

/-! ## Rounding -/

/-- The number that a `Decimal` is. -/
def Decimal.value (d : Decimal) : ℚ := d.coefficient * 10 ^ d.exponent

namespace Example

end Example

/-- The first run crashes in its call, the second one stores an offer, the third one skips. -/
def Example.redelivered : List (Action Job JobChoice) :=
  .spawn (startCall 100) :: startSteps 0 ++ [.advance 0 (.inl (.dispatch none))] ++
    .spawn processRun :: callSteps 1 ++ .spawn processRun :: callSteps 2 ++ saveSteps 2 ++
    [.spawn processRun, .advance 3 (.inr (.inl .start))]

end Ioka
