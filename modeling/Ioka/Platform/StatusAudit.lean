import Ioka.Booking.Audit
import Ioka.Platform.Reachable

/-! # The log of status changes

Every commit of every job either leaves all statuses or changes one and logs the
change with what it was before. The rows logged for an order or a search
therefore form a chain from nothing to its current status, however overlapping
runs and requests interleave.
-/

namespace Ioka

open Relational Transition

/-- The tables hold nothing but agents. -/
structure OnlyAgents (db : Database) : Prop where
  searches : db.searches.rows = []
  offers : db.offers.rows = []
  orders : db.orders.rows = []
  transactions : db.transactions.rows = []
  records : db.records.rows = []
  audit : db.audit = []

/-- The rows logged for an entity are a chain that starts with the entity's first status and
ends at the current one. -/
def HistoryOf (db : Database) (entityType entityId status : String) : Prop :=
  Chain none (changesOf db.changes (entityType, entityId)) (some status)

section Writes

variable {db db' : Database} {s s' : FlightSearch} {offers : List Offer} {id : String}

theorem Stored.search?_of_ne (h : Stored db db' s) (hne : id ≠ s.id) :
    db'.search? id = db.search? id := by
  ext q
  rw [Database.search?_eq_some, Database.search?_eq_some, h.mem_searches]
  constructor
  · rintro ⟨hq | rfl, hid⟩
    · exact ⟨hq, hid⟩
    · exact absurd hid.symm hne
  · rintro ⟨hq, hid⟩
    exact ⟨Or.inl hq, hid⟩

theorem Stored.logged (h : Stored db db' s) (hs : s.status = .pending) : Logged db db' := by
  have hnew : db.search? s.id = none := by
    rw [Option.eq_none_iff_forall_ne_some]
    intro q hq
    obtain ⟨hmem, hid⟩ := Database.search?_eq_some.mp hq
    exact h.fresh hmem hid
  have hc : db'.changes =
      db.changes ++ [⟨("flight_search", s.id), none, SearchStatus.pending.value⟩] := by
    rw [Database.changes_congr h.audit, Database.changes_addStatusAudit]
  refine .change hc ?_ ?_ ?_
  · simp [Database.statusOf, hnew]
  · rw [← hs]
    exact Database.statusOf_search
      (Database.search?_eq_some.mpr ⟨h.mem_searches.mpr (Or.inr rfl), rfl⟩)
  · rintro ⟨kind, id⟩ hne
    refine Database.statusOf_congr (fun _ => ?_) ?_
    · rw [Database.order?, h.orders, Database.order?]
    · rintro rfl
      exact h.search?_of_ne fun hid => hne (by rw [← hid])

theorem Rewritten.search?_of_ne (h : Rewritten db db' s s' offers) (hne : id ≠ s.id) :
    db'.search? id = db.search? id := by
  ext q
  rw [Database.search?_eq_some, Database.search?_eq_some, h.mem_searches]
  constructor
  · rintro ⟨rfl | ⟨hq, _⟩, hid⟩
    · exact absurd (hid.symm.trans h.id) hne
    · exact ⟨hq, hid⟩
  · rintro ⟨hq, rfl⟩
    exact ⟨Or.inr ⟨hq, hne⟩, rfl⟩

theorem Rewritten.logged (h : Rewritten db db' s s' offers) (hc : db'.changes =
      db.changes ++ [⟨("flight_search", s.id), some s.status.value, s'.status.value⟩]) :
    Logged db db' := by
  refine .change hc ?_ ?_ ?_
  · exact (Database.statusOf_search (Database.search?_eq_some.mpr ⟨h.search_mem, rfl⟩)).symm
  · exact Database.statusOf_search h.search?_self
  · rintro ⟨kind, id⟩ hne
    refine Database.statusOf_congr (fun _ => ?_) ?_
    · rw [Database.order?, h.orders, Database.order?]
    · rintro rfl
      exact h.search?_of_ne fun hid => hne (by rw [← hid])

end Writes

section Steps

variable {d : Deployment} {s s' : Platform} {j j' : Job} {x : JobChoice} {c c' : Serving}
  {as : List (Action Job JobChoice)}

theorem StartStep.logged {r r' : StartSearch} {y : StartChoice} (h : StartStep d s r y s' r') :
    Logged s.world.db s'.world.db := by
  rcases h.db with he | ⟨db', _, _, _, he, hs⟩
  · rw [he]
    exact .refl _
  · rw [he]
    exact hs.logged rfl

theorem ProcessStep.logged {provider : String} {w w' : World} {r r' : ProcessSearch}
    {y : ProcessChoice} (h : ProcessStep provider w r y w' r') : Logged w.db w'.db := by
  cases h with
  | skipped | answered | raised | cancelled | lost | refused | unrecorded | called => exact .refl _
  | started _ _ _ hw haud =>
    apply hw.logged
    rw [Database.changes_congr haud, Database.changes_addStatusAudit]
  | saved _ _ _ _ hw haud => exact hw.logged (CallLogged.of_audit haud).changes
  | failed _ _ _ hw haud => exact hw.logged (CallLogged.of_audit haud).changes

/-- Every commit of every job changes no status, or one that it logs. -/
theorem JobStep.logged (h : JobStep d s j x s' j') : Logged s.world.db s'.world.db := by
  cases h with
  | start ha => exact (StartSearch.advance_step ha).logged
  | process ha => exact (ProcessSearch.advance_step ha).logged
  | book ha => exact booking_logged ha

theorem OnlyAgents.replays {db : Database} (h : OnlyAgents db) :
    Replays db.changes db.statusOf := by
  have hlog : db.changes = [] := by simp [Database.changes, h.audit]
  rw [hlog]
  refine replays_nil.congr fun k => ?_
  simp [Database.statusOf, Database.order?, Database.search?, Table.select, h.orders, h.searches]

theorem replays_of_run (h : (serving d).machine.Run c as c')
    (hr : Replays c.store.world.db.changes c.store.world.db.statusOf) :
    Replays c'.store.world.db.changes c'.store.world.db.statusOf := by
  refine h.invariant
    (I := fun c => Replays c.store.world.db.changes c.store.world.db.statusOf) ?_ hr
  intro c a c' _ hs hr
  cases a with
  | spawn j =>
    obtain ⟨_, rfl⟩ := Program.step_spawn_iff.mp hs
    exact hr
  | advance i x =>
    obtain ⟨j, s', j', _, ha, rfl⟩ := Program.step_advance_iff.mp hs
    exact (serving_step ha).logged.replays hr

/-- In every reachable state the changes logged for an order or a search lead from nothing to
its current status. -/
theorem status_replays (ha : OnlyAgents s.world.db)
    (h : (serving d).machine.Run (Program.start s) as c) :
    (∀ o ∈ c.store.world.db.orders,
      HistoryOf c.store.world.db "order" o.id o.status.value) ∧
    ∀ q ∈ c.store.world.db.searches,
      HistoryOf c.store.world.db "flight_search" q.id q.status.value := by
  have hr := replays_of_run h ha.replays
  constructor
  · intro o ho
    have hchain := hr ("order", o.id)
    rwa [Database.statusOf_order (Database.order?_eq_some.mpr ⟨ho, rfl⟩)] at hchain
  · intro q hq
    have hchain := hr ("flight_search", q.id)
    rwa [Database.statusOf_search (Database.search?_eq_some.mpr ⟨hq, rfl⟩)] at hchain

/-- A search is started and processed twice, its offer booked, and the order issued. -/
theorem status_replays_issued : ∃ c : Serving,
    (serving Example.deployment).machine.Run (Program.start (Platform.start Example.bare))
      Example.fullSteps c ∧
    c.store.world.db.orders.rows.map (fun o => (o.id, o.status)) = [("order", .issued)] ∧
    ∀ o ∈ c.store.world.db.orders, HistoryOf c.store.world.db "order" o.id o.status.value := by
  have hrun : ((serving Example.deployment).machine.exec
      (Program.start (Platform.start Example.bare)) Example.fullSteps).map
      (fun c => c.store.world.db.orders.rows.map fun o => (o.id, o.status)) =
        some [("order", .issued)] := by
    decide +kernel
  obtain ⟨c, hc, ho⟩ := Option.map_eq_some_iff.mp hrun
  have h := Machine.exec_eq_some_iff.mp hc
  exact ⟨c, h, ho, (status_replays ⟨rfl, rfl, rfl, rfl, rfl, rfl⟩ h).1⟩

end Steps

end Ioka
