import Ioka.Booking.Reachable
import Ioka.Search.Steps

/-! # Reachable states of the service

What booking requests rely on holds beside any searches, and every later
database keeps what an earlier one has. Both follow from what a step of a job
can write.
-/

namespace Ioka

open Relational Transition

section Writes

variable {db db' : Database} {s s' : FlightSearch} {offers : List Offer}

theorem Stored.mem_searches {q : FlightSearch} (h : Stored db db' s) :
    q ∈ db'.searches ↔ q ∈ db.searches ∨ q = s := by
  rw [Table.mem_def, h.searches, List.mem_append, List.mem_singleton, Table.mem_def]

theorem Stored.fresh {q : FlightSearch} (h : Stored db db' s) (hq : q ∈ db.searches) :
    q.id ≠ s.id := by
  intro hid
  have hu := db'.searches.unique
  rw [h.searches, List.pairwise_append] at hu
  rcases hu.2.2 q hq s (by simp) (fun s => some [s.id]) (by simp [FlightSearch.uniques]) with
    hn | hne
  · cases hn
  · exact hne (by simp [hid])

theorem Stored.grows (h : Stored db db' s) : Grows db db' where
  agents a ha := ⟨a, by rwa [h.agents], rfl, rfl⟩
  searches q hq := ⟨q, h.mem_searches.mpr (Or.inl hq), .refl q⟩
  offers o ho := by rwa [h.offers]
  orders o ho := ⟨o, by rwa [h.orders], .refl o⟩
  transactions t ht := ⟨t, by rwa [h.transactions], .refl t⟩
  records r hr := by rwa [h.records]

theorem Rewritten.grows (h : Rewritten db db' s s' offers) (hs : SameSearch s s') :
    Grows db db' where
  agents a ha := ⟨a, by rwa [h.agents], rfl, rfl⟩
  searches q hq := by
    by_cases hid : q.id = s.id
    · obtain rfl := Database.search_ext hq h.search_mem hid
      exact ⟨s', h.mem_searches.mpr (Or.inl rfl), hs⟩
    · exact ⟨q, h.mem_searches.mpr (Or.inr ⟨hq, hid⟩), .refl q⟩
  offers o ho := h.mem_offers.mpr (Or.inl ho)
  orders o ho := ⟨o, by rwa [h.orders], .refl o⟩
  transactions t ht := ⟨t, by rwa [h.transactions], .refl t⟩
  records r hr := by rwa [h.records]

theorem Coupled.congr (h : Coupled db) (ho : db'.orders = db.orders)
    (ht : db'.transactions = db.transactions) : Coupled db' := by
  refine ⟨?_, ?_, ?_⟩
  · rw [OnePayment, ht]
    exact h.onePayment
  · rw [ht, ho]
    exact h.orderOf
  · intro o hmem
    rw [ho] at hmem
    rw [Database.transactionOf, ht]
    exact h.standing o hmem

end Writes

section Steps

variable {d : Deployment} {s s' : Platform} {r r' : StartSearch} {x : StartChoice}

theorem StartStep.db (h : StartStep d s r x s' r') : s'.world = s.world ∨
    ∃ db' searchId now, ∃ hp : r.payload.Stores, s'.world = s.world.commit db' [] ∧
      Stored s.world.db db' (newSearch d.settings searchId r.agentId r.payload hp now) := by
  cases h with
  | created _ hs => exact Or.inr ⟨_, _, _, _, rfl, hs⟩
  | _ => exact Or.inl rfl

theorem ProcessStep.db {provider : String} {w w' : World} {r r' : ProcessSearch}
    {x : ProcessChoice} (h : ProcessStep provider w r x w' r') : w'.db = w.db ∨
    ∃ q q' offers, q.id = r.searchId ∧ SameSearch q q' ∧ Rewritten w.db w'.db q q' offers := by
  cases h with
  | skipped | answered | raised | cancelled | lost | refused | unrecorded => exact Or.inl rfl
  | called => exact Or.inl rfl
  | started _ hs _ hw =>
    exact Or.inr ⟨_, _, _, (Database.search?_eq_some.mp hs).2, .update _ _ _ _ _, hw⟩
  | saved _ hs _ _ hw =>
    exact Or.inr ⟨_, _, _, (Database.search?_eq_some.mp hs).2, .update _ _ _ _ _, hw⟩
  | failed _ hs _ hw =>
    exact Or.inr ⟨_, _, _, (Database.search?_eq_some.mp hs).2, .update _ _ _ _ _, hw⟩

end Steps

/-- The search that a run of `process` is about. -/
def Job.searchId? : Job → Option String
  | .inr (.inl r) => some r.searchId
  | _ => none

theorem ProcessStep.searchId {provider : String} {w w' : World} {r r' : ProcessSearch}
    {x : ProcessChoice} (h : ProcessStep provider w r x w' r') : r'.searchId = r.searchId := by
  cases h <;> rfl

theorem JobStep.searchId?_eq {d : Deployment} {s s' : Platform} {j j' : Job} {x : JobChoice}
    (h : JobStep d s j x s' j') : j'.searchId? = j.searchId? := by
  cases h with
  | process ha => exact congrArg some (ProcessSearch.advance_step ha).searchId
  | _ => rfl

/-- A booking request has what it relies on. -/
def Job.Valid (db : Database) : Job → Prop
  | .inr (.inr p) => Request.Valid db p
  | _ => True

theorem Job.Valid.mono {j : Job} {db db' : Database} (h : Job.Valid db j) (hx : Grows db db') :
    Job.Valid db' j := by
  rcases j with r | r | p
  · trivial
  · trivial
  · exact Request.Valid.mono (p := p) h hx

/-- The store is coupled, and every booking request has what it relies on. -/
def Steady (c : Serving) : Prop :=
  Program.Holds (fun s => Coupled s.world.db) (fun s j => Job.Valid s.world.db j) c

section Runs

variable {d : Deployment} {s s' : Platform} {j j' : Job} {x : JobChoice} {c c' : Serving}
  {as : List (Action Job JobChoice)} {G : Serving → Action Job JobChoice → Prop}

/-- One step of a job keeps the store coupled and what every job relies on. -/
theorem JobStep.steady (h : JobStep d s j x s' j') (hc : Coupled s.world.db)
    (hv : Job.Valid s.world.db j) :
    Coupled s'.world.db ∧ Job.Valid s'.world.db j' ∧ Grows s.world.db s'.world.db := by
  cases h with
  | start ha =>
    rcases (StartSearch.advance_step ha).db with he | ⟨db', _, _, _, he, hs⟩
    · rw [he]
      exact ⟨hc, trivial, .refl _⟩
    · rw [he]
      exact ⟨hc.congr hs.orders hs.transactions, trivial, hs.grows⟩
  | process ha =>
    rcases (ProcessSearch.advance_step ha).db with he | ⟨q, q', offers, _, hq, hw⟩
    · rw [Platform.withWorld_world, he]
      exact ⟨hc, trivial, .refl _⟩
    · exact ⟨hc.congr hw.orders hw.transactions, trivial, hw.grows hq⟩
  | book ha =>
    obtain ⟨he, hv', _⟩ := booking_effect ha hv hc
    exact ⟨he.coupled hc, hv', (he.extends hc).grows⟩

theorem Job.valid_of_fresh {db : Database} (h : (serving d).fresh j = true) : Job.Valid db j := by
  rcases j with r | r | p
  · trivial
  · trivial
  · exact Request.valid_of_fresh (serving_fresh_book ▸ h)

theorem steady_start {s : Platform} (h : Coupled s.world.db) : Steady (Program.start s) :=
  Program.holds_start h

theorem steady_of_run (h : (serving d).machine.RunWhere G c as c') (hc : Steady c) :
    Steady c' := by
  refine Program.holds_of_run ?_ ?_ h hc
  · intro c j _ hf _
    exact Job.valid_of_fresh hf
  · intro c i x j s' j' _ _ ha hI hJ
    obtain ⟨hc', hv', hx⟩ := (serving_step ha).steady hI hJ
    exact ⟨hc', hv', fun q _ hq => Job.Valid.mono hq hx⟩

/-- What every job has on arrival, gets back in each step of its own, and keeps in the steps of
the others, beside an invariant of the store. -/
theorem jobs_of_run {I : Platform → Prop} {J : Platform → Job → Prop}
    (hspawn : ∀ c j, G c (.spawn j) → (serving d).fresh j = true → J c.store j)
    (hstep : ∀ c i x s j s' j', G c (.advance i x) → c.store = s → c.procs[i]? = some j →
      Coupled s.world.db → Job.Valid s.world.db j → I s → J s j → JobStep d s j x s' j' →
      I s' ∧ J s' j' ∧ ∀ q ∈ c.procs, J s q → J s' q)
    (h : (serving d).machine.RunWhere G c as c') (hc : Steady c) (hI : I c.store)
    (hJ : ∀ j ∈ c.procs, J c.store j) : I c'.store ∧ ∀ j ∈ c'.procs, J c'.store j := by
  have hinv : Program.Holds (fun s => Coupled s.world.db ∧ I s)
      (fun s j => Job.Valid s.world.db j ∧ J s j) c' := by
    refine Program.holds_of_run ?_ ?_ h ⟨⟨hc.1, hI⟩, fun j hj => ⟨hc.2 j hj, hJ j hj⟩⟩
    · intro c j hg hf _
      exact ⟨Job.valid_of_fresh hf, hspawn c j hg hf⟩
    · rintro c i x j s' j' hg hj ha ⟨hc, hI⟩ ⟨hv, hJ⟩
      obtain ⟨hc', hv', hx⟩ := (serving_step ha).steady hc hv
      obtain ⟨hI', hJ', hother⟩ := hstep c i x _ j s' j' hg rfl hj hc hv hI hJ (serving_step ha)
      exact ⟨⟨hc', hI'⟩, ⟨hv', hJ'⟩, fun q hq hvq => ⟨Job.Valid.mono hvq.1 hx, hother q hq hvq.2⟩⟩
  exact ⟨hinv.1.2, fun j hj => (hinv.2 j hj).2⟩

end Runs

end Ioka
