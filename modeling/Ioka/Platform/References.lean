import Ioka.Platform.Api

/-! # References

Every id of another row that a row holds is the id of a stored row, also where the block that writes
it reads nothing of the row it names. The foreign keys of the tables are among these ids, so that
no request of the API breaks one.
-/

namespace Ioka

open Python Relational Transition

/-- The references of all rows, with the agents that they have in common. -/
structure References (db : Database) : Prop where
  searches : ∀ s ∈ db.searches, ∃ a ∈ db.agents, a.id = s.agentId
  offers : ∀ o ∈ db.offers, ∃ s ∈ db.searches, s.id = o.searchId
  orders : ∀ o ∈ db.orders, (∃ a ∈ db.agents, a.id = o.agentId) ∧
    ∃ offer ∈ db.offers, offer.id = o.offerId ∧ db.offerOwned o.agentId offer = true
  transactions : ∀ t ∈ db.transactions, (∃ a ∈ db.agents, a.id = t.agentId) ∧
    ∃ o ∈ db.orders, o.id = t.orderId ∧ o.agentId = t.agentId
  records : ∀ r ∈ db.records, (∃ a ∈ db.agents, a.id = r.agentId) ∧
    ∃ o ∈ db.orders, o.id = r.resourceId ∧ o.agentId = r.agentId
  audit : ∀ row ∈ db.audit, row.kind = .statusChange →
    (db.statusOf (row.entityType, row.entityId)).isSome

/-- The agent is stored. -/
def HasAgent (db : Database) (agentId : String) : Prop := ∃ a ∈ db.agents, a.id = agentId

/-- A call is made for an agent that is stored. -/
def forAgent (c : Serving) : Action Job JobChoice → Bool
  | .spawn j => j.caller?.all fun agentId => c.store.world.db.agents.rows.any (·.id = agentId)
  | _ => true

/-- Every token was made by `create_access_token`. -/
def Api.Minted (env : Environment) (s : Api) : Prop :=
  ∀ r ∈ s.issued, ∃ subject issued random,
    createAccessToken env.hmac env.settings subject issued random =
      .ok (r.accessToken, r.expiresAt)

section Service

variable {d : Deployment} {w : World} {c : Serving} {s s' : Platform} {j j' : Job} {x : JobChoice}
  {db db' : Database} {agentId : String} {as : List (Action Job JobChoice)}

theorem HasAgent.mono (h : HasAgent db agentId) (hx : Grows db db') : HasAgent db' agentId := by
  obtain ⟨a, ha, rfl⟩ := h
  obtain ⟨b, hb, hid, _⟩ := hx.agents a ha
  exact ⟨b, hb, hid⟩

theorem JobStep.hasAgent (h : JobStep d s j x s' j') (hc : Coupled s.world.db)
    (hv : Job.Valid s.world.db j) (hj : ∀ agentId, j.caller? = some agentId →
      HasAgent s.world.db agentId)
    (hI : ∀ q ∈ s.world.db.searches, HasAgent s.world.db q.agentId) :
    ∀ q ∈ s'.world.db.searches, HasAgent s'.world.db q.agentId := by
  have hx := (h.steady hc hv).2.2
  intro q hq
  refine HasAgent.mono ?_ hx
  cases h with
  | @start r r' y s' ha =>
    rcases (StartSearch.advance_step ha).db with he | ⟨db', _, _, _, he, hst⟩
    · rw [he] at hq
      exact hI q hq
    · rw [he] at hq
      rcases hst.mem_searches.mp hq with hq | rfl
      · exact hI q hq
      · exact hj r.agentId rfl
  | process ha =>
    rcases (ProcessSearch.advance_step ha).db with he | ⟨p, p', offers, _, hsame, hw⟩
    · rw [Platform.withWorld_world, he] at hq
      exact hI q hq
    · rcases hw.mem_searches.mp hq with rfl | ⟨hq, _⟩
      · rw [hsame.agentId]
        exact hI p hw.search_mem
      · exact hI q hq
  | book ha =>
    have hext := (booking_effect ha hv hc).1.extends hc
    rw [Platform.withWorld_world, hext.searches] at hq
    exact hI q hq

theorem hasAgent_of_run (ha : OnlyAgents w.db)
    (h : (serving d).machine.RunWhere (fun c a => forAgent c a)
      (Program.start (Platform.start w)) as c) :
    ∀ q ∈ c.store.world.db.searches, HasAgent c.store.world.db q.agentId := by
  refine (jobs_of_run
    (I := fun s => ∀ q ∈ s.world.db.searches, HasAgent s.world.db q.agentId)
    (J := fun s j => ∀ agentId, j.caller? = some agentId → HasAgent s.world.db agentId)
    ?_ ?_ h (steady_start ha.unpaid.coupled) ?_ (by simp [Program.start])).1
  · intro c j hg _ agentId hcaller
    simpa [forAgent, hcaller, HasAgent, Table.mem_def] using hg
  · intro c i x s j s' j' _ _ _ hc hv hI hJ hstep
    have hx := (hstep.steady hc hv).2.2
    refine ⟨hstep.hasAgent hc hv hJ hI, ?_, fun q _ hq agentId hcaller =>
      (hq agentId hcaller).mono hx⟩
    intro agentId hcaller
    rw [hstep.caller?_eq hc hv] at hcaller
    exact (hJ agentId hcaller).mono hx
  · intro q hq
    simp [Program.start, Platform.start, Table.mem_def, ha.searches] at hq

/-- From its searches on, all references of a reachable state are to stored rows. -/
theorem references_of_run (ha : OnlyAgents w.db)
    (h : (serving d).machine.RunWhere (fun c a => forAgent c a)
      (Program.start (Platform.start w)) as c) : References c.store.world.db := by
  have hsearches := hasAgent_of_run ha h
  have hc := (steady_of_run h (steady_start (s := Platform.start w) ha.unpaid.coupled)).1
  obtain ⟨ho, htr⟩ := traced_of_run ha h.run
  have horder : ∀ o ∈ c.store.world.db.orders, HasAgent c.store.world.db o.agentId := by
    intro o hmem
    obtain ⟨offer, _, _, howned⟩ := ho.orders o hmem
    obtain ⟨q, hq, _, hag⟩ := offerOwned_iff.mp howned
    exact hag ▸ hsearches q hq
  constructor
  · exact hsearches
  · exact ho.offers
  · exact fun o hmem => ⟨horder o hmem, ho.orders o hmem⟩
  · intro t ht
    obtain ⟨o, hmem, hid⟩ := hc.orderOf t ht
    obtain ⟨_, _, hag⟩ := hc.payment_own hmem
      ((hc.onePayment.transactionOf_eq_some).mpr ⟨ht, hid.symm⟩)
    exact ⟨htr.agents t ht, o, hmem, hid, hag.symm⟩
  · intro r hr
    obtain ⟨o, hmem, hid, hag⟩ := ho.records r hr
    exact ⟨hag ▸ horder o hmem, o, hmem, hid, hag⟩
  · intro row hrow hkind
    have hmem : row.change ∈ c.store.world.db.changes :=
      List.mem_map_of_mem (List.mem_filter.mpr ⟨hrow, by simpa using hkind⟩)
    exact (replays_of_run h.run ha.replays).isSome hmem

end Service

section Runs

variable {env : Environment} {d : Deployment} {w : World} {s s' : Api} {a : ApiAction}
  {as : List ApiAction} {columns : String → LoginColumns}

theorem api_step_forAgent (htrust : Trusted env s a) (hm : s.Minted env)
    (hs : (api env d).step s a = some s') : s'.Minted env ∧ (s'.serving = s.serving ∨
      ∃ b, forAgent s.serving b ∧ (serving d).machine.step s.serving b = some s'.serving) := by
  cases api_step hs with
  | rejected => exact ⟨hm, Or.inl rfl⟩
  | @loggedIn payload now random account r _ _ hcreate =>
    refine ⟨?_, Or.inl rfl⟩
    intro r' hr'
    rcases List.mem_append.mp hr' with hr' | hr'
    · exact hm r' hr'
    · obtain rfl := List.mem_singleton.mp hr'
      exact ⟨account.id, now, random, hcreate⟩
  | called hok hc =>
    refine ⟨hm, Or.inr ⟨_, ?_, hc⟩⟩
    obtain ⟨r, hr, haccepted⟩ := accepted_of_unforged htrust hok
    obtain ⟨subject, issued, random, hcreate⟩ := hm r hr
    obtain ⟨b, hb, rfl⟩ := List.mem_map.mp (haccepted subject issued random hcreate).1
    simp only [forAgent, ApiRequest.caller?_call, Option.all_some, List.any_eq_true]
    exact ⟨b, hb, by simp⟩
  | delivered hc => exact ⟨hm, Or.inr ⟨_, rfl, hc⟩⟩
  | advanced hc => exact ⟨hm, Or.inr ⟨_, rfl, hc⟩⟩
  | edited => exact ⟨hm, Or.inl rfl⟩

/-- A run of the API is one of the service whose calls are made for stored agents. -/
theorem serving_of_api (h : (api env d).RunWhere (Trusted env) (Api.start w columns) as s) :
    ∃ bs, (serving d).machine.RunWhere (fun c b => forAgent c b)
      (Program.start (Platform.start w)) bs s.serving := by
  have hinv : s.Minted env ∧ ∃ bs, (serving d).machine.RunWhere (fun c b => forAgent c b)
      (Program.start (Platform.start w)) bs s.serving := by
    refine h.invariant (I := fun s => s.Minted env ∧ ∃ bs, (serving d).machine.RunWhere
      (fun c b => forAgent c b) (Program.start (Platform.start w)) bs s.serving) ?_ ?_
    · rintro s a s' htrust hs ⟨hm, bs, hrun⟩
      obtain ⟨hm', he | ⟨b, hg, hb⟩⟩ := api_step_forAgent htrust hm hs
      · exact ⟨hm', bs, he ▸ hrun⟩
      · exact ⟨hm', bs ++ [b], hrun.append (.cons hg hb (.nil _))⟩
    · exact ⟨by simp [Api.Minted, Api.start], [], .nil _⟩
  exact hinv.2

/-- In every state that the API can reach, as far as tokens are not forged, all rows refer to
stored rows. -/
theorem references_hold (ha : OnlyAgents w.db)
    (h : (api env d).RunWhere (Trusted env) (Api.start w columns) as s) :
    References s.serving.store.world.db := by
  obtain ⟨bs, hrun⟩ := serving_of_api h
  exact references_of_run ha hrun

end Runs

/-- The call of `welcomed` stores its search. -/
def Example.createActions : List ApiAction :=
  [.advance 0 (.inl (.readCache false)), .advance 0 (.inl (.create "search" 100))]

theorem references_hold_guests : ∃ s : Api,
    s.serving.store.world.db.searches.rows.map (·.agentId) = ["admin"] ∧
    References s.serving.store.world.db := by
  have hrun : ((api Example.environment Example.deployment).exec Example.welcomed
      Example.createActions).map
        (fun s => s.serving.store.world.db.searches.rows.map (·.agentId)) = some ["admin"] := by
    decide +kernel
  obtain ⟨s, hs, hst⟩ := Option.map_eq_some_iff.mp hrun
  have hcreated : (api Example.environment Example.deployment).RunWhere
      (Trusted Example.environment) Example.welcomed Example.createActions s := by
    refine (Machine.exec_eq_some_iff.mp hs).mono_of_mem ?_
    intro s a _ hmem
    simp only [Example.createActions, List.mem_cons, List.not_mem_nil, or_false] at hmem
    rcases hmem with rfl | rfl <;> trivial
  exact ⟨s, hst, references_hold ⟨rfl, rfl, rfl, rfl, rfl, rfl⟩
    (Example.welcomed_of_actions.append hcreated)⟩

end Ioka
