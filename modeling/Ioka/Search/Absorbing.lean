import Ioka.Search.Effects

/-! # Final statuses of a search

The status is checked in the first block only, so a run that has passed it
still writes when an overlapping run has finished the search. A final search
keeps its outcome exactly as long as every such late block repeats what the
search already records or fails to store its offers or its error.
-/

namespace Ioka

open Relational Transition

/-- The search keeps its status, its error, its completion time and its offers. -/
structure KeepsOutcome (db db' : Database) (s : FlightSearch) : Prop where
  search : ∃ s' ∈ db'.searches, s'.id = s.id ∧ s'.status = s.status ∧
    s'.errorCode = s.errorCode ∧ s'.errorMessage = s.errorMessage ∧ s'.completedAt = s.completedAt
  offers : ∀ o : Offer, o.searchId = s.id → (o ∈ db'.offers ↔ o ∈ db.offers)

/-- Every final search keeps its outcome. -/
def Absorbing (db db' : Database) : Prop :=
  ∀ s ∈ db.searches, s.status.Final → KeepsOutcome db db' s

/-- What a run that is past its first block is about to do to a final search changes nothing. -/
def ProcessSearch.harmless (provider : String) (db : Database) (r : ProcessSearch)
    (x : ProcessChoice) : Bool :=
  match r.phase, x, db.search? r.searchId with
  | .answered _ items, .save newId now _ _, some s =>
    ¬ s.status.Final ∨ Refused db provider s.id newId items ∨
      s.status = .completed ∧ s.completedAt = some now ∧ items.isEmpty
  | .raised _ e, .fail _, some s =>
    ¬ s.status.Final ∨ ¬ Storable e.message ∨ s.status = e.searchStatus ∧
      s.errorCode = some e.searchErrorCode ∧ s.errorMessage = some e.message
  | _, _, _ => true

/-- No late block gives a final search another outcome. -/
def Harmless (provider : String) (c : Processing) : Action ProcessSearch ProcessChoice → Bool
  | .spawn _ => true
  | .advance i x => c.procs[i]?.all fun r => r.harmless provider c.store.db x

section Step

variable {db db' db'' : Database} {s s' : FlightSearch} {offers : List Offer}

theorem KeepsOutcome.refl (hs : s ∈ db.searches) : KeepsOutcome db db s :=
  ⟨⟨s, hs, rfl, rfl, rfl, rfl, rfl⟩, fun _ _ => Iff.rfl⟩

theorem Absorbing.refl (db : Database) : Absorbing db db := fun _ hs _ => .refl hs

theorem Absorbing.trans (h : Absorbing db db') (h' : Absorbing db' db'') : Absorbing db db'' := by
  intro s hs hf
  obtain ⟨⟨s₁, hs₁, hid, hst, hc, hm, ht⟩, ho⟩ := h s hs hf
  obtain ⟨⟨s₂, hs₂, hid', hst', hc', hm', ht'⟩, ho'⟩ := h' s₁ hs₁ (hst ▸ hf)
  refine ⟨⟨s₂, hs₂, hid'.trans hid, hst'.trans hst, hc'.trans hc, hm'.trans hm, ht'.trans ht⟩, ?_⟩
  intro o hos
  exact (ho' o (hos.trans hid.symm)).trans (ho o hos)

theorem Rewritten.absorbing_iff (h : Rewritten db db' s s' offers) : Absorbing db db' ↔
    (s.status.Final → (s.status = s'.status ∧ s.errorCode = s'.errorCode ∧
      s.errorMessage = s'.errorMessage ∧ s.completedAt = s'.completedAt) ∧ offers = []) := by
  constructor
  · intro ha hf
    obtain ⟨⟨s₁, hs₁, hid, hst, hc, hm, ht⟩, ho⟩ := ha s h.search_mem hf
    obtain rfl : s₁ = s' := by
      rcases h.mem_searches.mp hs₁ with rfl | ⟨_, hne⟩
      · rfl
      · exact absurd hid hne
    refine ⟨⟨hst.symm, hc.symm, hm.symm, ht.symm⟩, ?_⟩
    by_contra hne
    obtain ⟨o, hmem⟩ := List.exists_mem_of_ne_nil offers hne
    exact h.fresh hmem ((ho o (h.owners o hmem)).mp (h.mem_offers.mpr (Or.inr hmem)))
  · intro hrep q hq hf
    by_cases hid : q.id = s.id
    · obtain rfl := Database.search_ext hq h.search_mem hid
      obtain ⟨⟨hst, hc, hm, ht⟩, rfl⟩ := hrep hf
      refine ⟨⟨s', h.mem_searches.mpr (Or.inl rfl), h.id, hst.symm, hc.symm, hm.symm, ht.symm⟩, ?_⟩
      simp [h.mem_offers]
    · refine ⟨⟨q, h.mem_searches.mpr (Or.inr ⟨hq, hid⟩), rfl, rfl, rfl, rfl, rfl⟩, fun o ho => ?_⟩
      rw [h.mem_offers, or_iff_left]
      intro hmem
      exact hid (ho.symm.trans (h.owners o hmem))

end Step

section Runs

variable {provider : String} {w w' : World} {r r' : ProcessSearch} {x : ProcessChoice}
  {c c' : Processing} {a : Action ProcessSearch ProcessChoice}
  {as : List (Action ProcessSearch ProcessChoice)}

/-- A step of a run is harmless exactly if every final search keeps its outcome. -/
theorem ProcessSearch.absorbing_iff (h : r.advance provider w x = some (w', r')) :
    Absorbing w.db w'.db ↔ r.harmless provider w.db x = true := by
  unfold ProcessSearch.advance at h
  split at h
  case h_1 hp =>
    have hh : r.harmless provider w.db .start = true := by simp [harmless, hp]
    refine iff_of_true ?_ hh
    rcases processStart_eq w.db r.searchId with ⟨_, he⟩ | ⟨s, db', _, hf, he, hw, _⟩
    · rw [he] at h
      cases h
      exact .refl _
    · rw [he] at h
      cases h
      exact hw.absorbing_iff.mpr fun hfin => absurd hfin hf
  case h_2 request hp =>
    cases h
    exact iff_of_true (.refl _) (by simp [harmless, hp])
  case h_3 request items hp =>
    cases h
    exact iff_of_true (.refl _) (by simp [harmless, hp])
  case h_4 request e hp =>
    cases h
    exact iff_of_true (.refl _) (by simp [harmless, hp])
  case h_5 request hp =>
    cases h
    exact iff_of_true (.refl _) (by simp [harmless, hp])
  case h_6 request items newId now durationMs errorText hp =>
    rcases processSave_eq w.db provider r.searchId request items newId now durationMs with
      ⟨hs, he⟩ | ⟨s, hs, ⟨href, e, he⟩ | ⟨kept, db', hk, hcl, he, hw, _⟩⟩
    · rw [he] at h
      cases h
      exact iff_of_true (.refl _) (by simp [harmless, hp, hs])
    · rw [he] at h
      cases h
      exact iff_of_true (.refl _) (by simp [harmless, hp, hs, href])
    · rw [he] at h
      cases h
      have href : ¬ Refused w.db provider s.id newId items := fun href => hcl (href kept hk)
      rw [World.commit_db, hw.absorbing_iff, imp_iff_not_or, newOffers_eq_nil,
        ← List.length_eq_zero_iff, length_of_keptItems hk, List.length_eq_zero_iff]
      simp [harmless, hp, hs, href, and_assoc]
  case h_7 request e durationMs hp =>
    rcases processFail_eq w.db r.searchId request e durationMs with
      ⟨hs, he⟩ | ⟨s, hs, hm, he⟩ | ⟨s, db', hs, hm, he, hw, _⟩
    · rw [he] at h
      cases h
      exact iff_of_true (.refl _) (by simp [harmless, hp, hs])
    · rw [he] at h
      cases h
      exact iff_of_true (.refl _) (by simp [harmless, hp, hs, hm])
    · rw [he] at h
      cases h
      rw [World.commit_db, hw.absorbing_iff, imp_iff_not_or]
      simp [harmless, hp, hs, hm]
  case h_8 => cases h

theorem absorbing_iff_of_step (h : (processing provider).machine.step c a = some c') :
    Absorbing c.store.db c'.store.db ↔ Harmless provider c a = true := by
  cases a with
  | spawn r =>
    obtain ⟨_, rfl⟩ := Program.step_spawn_iff.mp h
    exact iff_of_true (.refl _) rfl
  | advance i x =>
    obtain ⟨r, w', r', hr, ha, rfl⟩ := Program.step_advance_iff.mp h
    rw [Harmless, hr]
    exact ProcessSearch.absorbing_iff ha

theorem absorbing_of_run
    (h : (processing provider).machine.RunWhere (fun c a => Harmless provider c a) c as c') :
    Absorbing c.store.db c'.store.db := by
  refine h.relates (R := fun c c' => Absorbing c.store.db c'.store.db) (fun c => .refl _)
    (fun _ _ _ => .trans) ?_
  intro c a c' hg hs
  exact (absorbing_iff_of_step hs).mpr hg

/-- Between any two states of a run every final search keeps its outcome, exactly if every late
block of the run is harmless. -/
theorem final_absorbing_iff (h : (processing provider).machine.Run c as c') :
    (∀ bs cs ds c₁ c₂, as = bs ++ cs ++ ds → (processing provider).machine.Run c bs c₁ →
      (processing provider).machine.Run c₁ cs c₂ → Absorbing c₁.store.db c₂.store.db) ↔
    (processing provider).machine.RunWhere (fun c a => Harmless provider c a) c as c' := by
  constructor
  · intro hall
    induction h with
    | nil c => exact .nil c
    | @cons c d c' a as _ hs hrun ih =>
      have hstep : (processing provider).machine.Run c [a] d := .cons trivial hs (.nil d)
      refine .cons ((absorbing_iff_of_step hs).mp (hall [] [a] as c d rfl (.nil c) hstep)) hs ?_
      refine ih fun bs cs ds c₁ c₂ he hb hc => ?_
      exact hall (a :: bs) cs ds c₁ c₂ (by rw [he]; rfl) (.cons trivial hs hb) hc
  · rintro hrun bs cs ds c₁ c₂ rfl hb hc
    obtain ⟨d₂, h₂, _⟩ := hrun.exists_of_append
    obtain ⟨d₁, h₁, h₁₂⟩ := h₂.exists_of_append
    obtain rfl := h₁.run.unique hb
    obtain rfl := h₁₂.run.unique hc
    exact absorbing_of_run h₁₂

end Runs

/-! ## A message delivered twice -/

namespace Example

/-- A search that no run has started on yet. -/
def pending : World where
  db := { offered.db with
    searches := ⟨[{ search with status := .pending, completedAt := none }], by decide⟩
    offers := .empty }
  history := []

/-- Two runs on the search start and call the provider. -/
def bothCalled : List (Action ProcessSearch ProcessChoice) :=
  [.spawn ⟨"search", .requested⟩, .spawn ⟨"search", .requested⟩, .advance 0 .start,
    .advance 1 .start, .advance 0 .call, .advance 1 .call]

/-- The first run stores its offer. -/
def firstSaved : List (Action ProcessSearch ProcessChoice) :=
  bothCalled ++ [.advance 0 (.answer [item]), .advance 0 (.save (fun _ => "offer-0") 10 5 "")]

/-- The second one gets the same offer, cannot store it, and records the error. -/
def secondFailed : List (Action ProcessSearch ProcessChoice) :=
  [.advance 1 (.answer [item]), .advance 1 (.save (fun _ => "offer-1") 11 6 "uq_provider_offer"),
    .advance 1 (.fail 7)]

/-- Both runs time out, and a third delivery finds the search final. -/
def timedOutTwice : List (Action ProcessSearch ProcessChoice) :=
  bothCalled ++ [.advance 0 (.raise ⟨"", "TimeoutError", true⟩), .advance 0 (.fail 5),
    .advance 1 (.raise ⟨"", "TimeoutError", true⟩), .advance 1 (.fail 6),
    .spawn ⟨"search", .requested⟩, .advance 2 .start]

end Example

/-- A completed search becomes failed when the slower of two runs cannot store the same offers. -/
theorem not_absorbing_redelivered : ¬ ∀ (w : World) (as bs : List (Action _ _)) (c c' : Processing),
    (processing "mock-air").machine.Run (Program.start w) as c →
    (processing "mock-air").machine.Run c bs c' → Absorbing c.store.db c'.store.db := by
  intro hall
  have hrun : (((processing "mock-air").machine.exec (Program.start Example.pending)
      Example.firstSaved).bind fun c =>
        ((processing "mock-air").machine.exec c Example.secondFailed).map fun c' =>
          ((c.store.db.search? "search").map (·.status),
            c'.store.db.searches.rows.map (·.status))) =
      some (some .completed, [.failed]) := by decide
  obtain ⟨c, hc, hrun⟩ := Option.bind_eq_some_iff.mp hrun
  obtain ⟨c', hc', hst⟩ := Option.map_eq_some_iff.mp hrun
  simp only [Prod.mk.injEq] at hst
  obtain ⟨s, hs, hcompleted⟩ := Option.map_eq_some_iff.mp hst.1
  have hf : s.status.Final := by
    rw [hcompleted]
    decide
  obtain ⟨⟨s', hs', _, hst', _⟩, _⟩ := hall _ _ _ c c' (Machine.exec_eq_some_iff.mp hc)
    (Machine.exec_eq_some_iff.mp hc') s (Database.search?_eq_some.mp hs).1 hf
  have hfailed : s'.status ∈ c'.store.db.searches.rows.map (·.status) := List.mem_map_of_mem hs'
  rw [hst.2, hst', hcompleted] at hfailed
  exact absurd hfailed (by decide)

theorem final_absorbing_iff_timedOutTwice : ∃ c : Processing,
    c.store.db.searches.rows.map (·.status) = [.timedOut] ∧
    ∀ bs cs ds c₁ c₂, Example.timedOutTwice = bs ++ cs ++ ds →
      (processing "mock-air").machine.Run (Program.start Example.pending) bs c₁ →
      (processing "mock-air").machine.Run c₁ cs c₂ → Absorbing c₁.store.db c₂.store.db := by
  have hrun : ((processing "mock-air").machine.execWhere (fun c a => Harmless "mock-air" c a)
      (Program.start Example.pending) Example.timedOutTwice).map
        (fun c => c.store.db.searches.rows.map (·.status)) = some [.timedOut] := by decide
  obtain ⟨c, hc, hst⟩ := Option.map_eq_some_iff.mp hrun
  have h := Machine.runWhere_of_execWhere hc
  exact ⟨c, hst, (final_absorbing_iff h.run).mpr h⟩

end Ioka
