import Ioka.Platform.Currency
import Ioka.Security.Access

/-! # The API

A request is answered for the agent that its token stands for, and a token is the answer to a login
of that agent. So, as far as signatures cannot be forged, nothing is stored for an agent and no
balance changes before somebody has logged in as that agent. Outside the service only the emails,
the password hashes and the activity of agents are edited.
-/

namespace Ioka

open Python Relational Transition

/-- The columns of the agents table that only logins read. -/
structure LoginColumns where
  email : String
  passwordHash : Str
  isActive : Bool

/-- The service, the login columns of each agent and the answers to all logins so far. -/
structure Api where
  serving : Serving
  columns : String → LoginColumns
  issued : List TokenResponse

namespace Api

def start (w : World) (columns : String → LoginColumns) : Api :=
  ⟨Program.start (Platform.start w), columns, []⟩

/-- The rows of agents with all their columns. -/
def accounts (s : Api) : List Account :=
  s.serving.store.world.db.agents.rows.map fun a =>
    { a with
      email := (s.columns a.id).email
      passwordHash := (s.columns a.id).passwordHash
      isActive := (s.columns a.id).isActive }

end Api

/-- The requests that can write, with what they are validated to. -/
inductive ApiRequest
  | startOfferSearch (payload : SearchRequest) (calledAt : Time)
  | createOrder (payload : OrderCreate) (idempotencyKey : String)
  | issueOrder (orderId idempotencyKey : String)

namespace ApiRequest

/-- `Header(min_length=8, max_length=128)` -/
def headerAccepted : ApiRequest → Bool
  | .startOfferSearch .. => true
  | .createOrder _ key | .issueOrder _ key => 8 ≤ key.length ∧ key.length ≤ 128

/-- The call of the service on behalf of the agent. -/
def call (agentId : String) : ApiRequest → Job
  | .startOfferSearch payload calledAt => .inl ⟨agentId, payload, calledAt, .requested⟩
  | .createOrder payload key => .inr (.inr (.inl ⟨agentId, payload, key, .requested⟩))
  | .issueOrder orderId key => .inr (.inr (.inr ⟨agentId, orderId, key, .requested⟩))

end ApiRequest

inductive ApiAction
  | login (payload : LoginRequest) (now : Datetime) (random : Bytes)
  | request (credentials : Option HTTPAuthorizationCredentials) (now : Datetime)
      (request : ApiRequest)
  /-- A search is handed to a run of `process`. -/
  | deliver (searchId : String)
  | advance (i : ℕ) (x : JobChoice)
  /-- The login columns are written from elsewhere. -/
  | edit (columns : String → LoginColumns)

def api (env : Environment) (d : Deployment) : Machine Api ApiAction where
  step s
    | .login payload now random =>
      match login env s.accounts payload now random with
      | .ok r => some { s with issued := s.issued ++ [r] }
      | .error _ => some s
    | .request credentials now request =>
      match getCurrentAgent env s.accounts now credentials with
      | .ok agent =>
        if request.headerAccepted then
          ((serving d).machine.step s.serving (.spawn (request.call agent.id))).map fun c =>
            { s with serving := c }
        else some s
      | .error _ => some s
    | .deliver searchId =>
      ((serving d).machine.step s.serving (.spawn (.inr (.inl ⟨searchId, .requested⟩)))).map
        fun c => { s with serving := c }
    | .advance i x =>
      ((serving d).machine.step s.serving (.advance i x)).map fun c => { s with serving := c }
    | .edit columns => some { s with columns }

/-- What one step of the API does. -/
inductive ApiStep (env : Environment) (d : Deployment) (s : Api) : ApiAction → Api → Prop
  /-- A login fails, or a request is rejected before its call. -/
  | rejected {a : ApiAction} : ApiStep env d s a s
  | loggedIn {payload : LoginRequest} {now : Datetime} {random : Bytes} {account : Account}
      {r : TokenResponse} : Admits env s.accounts payload account →
      login env s.accounts payload now random = .ok r →
      createAccessToken env.hmac env.settings account.id now random =
        .ok (r.accessToken, r.expiresAt) →
      ApiStep env d s (.login payload now random) { s with issued := s.issued ++ [r] }
  | called {credentials : HTTPAuthorizationCredentials} {now : Datetime} {request : ApiRequest}
      {agent : Account} {c : Serving} :
      getCurrentAgent env s.accounts now (some credentials) = .ok agent →
      (serving d).machine.step s.serving (.spawn (request.call agent.id)) = some c →
      ApiStep env d s (.request (some credentials) now request) { s with serving := c }
  | delivered {searchId : String} {c : Serving} :
      (serving d).machine.step s.serving (.spawn (.inr (.inl ⟨searchId, .requested⟩))) = some c →
      ApiStep env d s (.deliver searchId) { s with serving := c }
  | advanced {i : ℕ} {x : JobChoice} {c : Serving} :
      (serving d).machine.step s.serving (.advance i x) = some c →
      ApiStep env d s (.advance i x) { s with serving := c }
  | edited {columns : String → LoginColumns} : ApiStep env d s (.edit columns) { s with columns }

theorem api_step {env : Environment} {d : Deployment} {s s' : Api} {a : ApiAction}
    (hs : (api env d).step s a = some s') : ApiStep env d s a s' := by
  cases a with
  | login payload now random =>
    simp only [api] at hs
    split at hs
    · rename_i r hok
      obtain rfl := Option.some.inj hs
      obtain ⟨account, hadmits, _, hcreate⟩ := login_eq_ok.mp hok
      exact .loggedIn hadmits hok hcreate
    · obtain rfl := Option.some.inj hs
      exact .rejected
  | request credentials now request =>
    simp only [api] at hs
    split at hs
    · rename_i agent hok
      split at hs
      · obtain ⟨c, hc, rfl⟩ := Option.map_eq_some_iff.mp hs
        cases credentials with
        | none => cases hok
        | some credentials => exact .called hok hc
      · obtain rfl := Option.some.inj hs
        exact .rejected
    · obtain rfl := Option.some.inj hs
      exact .rejected
  | deliver searchId =>
    simp only [api] at hs
    obtain ⟨c, hc, rfl⟩ := Option.map_eq_some_iff.mp hs
    exact .delivered hc
  | advance i x =>
    simp only [api] at hs
    obtain ⟨c, hc, rfl⟩ := Option.map_eq_some_iff.mp hs
    exact .advanced hc
  | edit columns =>
    obtain rfl := Option.some.inj hs
    exact .edited

/-- The token of a request is not forged. -/
def Trusted (env : Environment) (s : Api) : ApiAction → Prop
  | .request (some c) _ _ => Unforged env s.issued c.credentials
  | _ => True

/-- The action is a login of the agent, and is answered with a token. -/
def LogsIn (env : Environment) (agentId : String) (s : Api) : ApiAction → Prop
  | .login payload now random => ∃ account r, Admits env s.accounts payload account ∧
      account.id = agentId ∧ login env s.accounts payload now random = .ok r
  | _ => False

/-- The agent that a call is made for. -/
def Job.caller? : Job → Option String
  | .inl r => some r.agentId
  | .inr (.inl _) => none
  | .inr (.inr p) => some p.agentId

/-- There is no row for the agent, and the agent's own row is as it was. -/
structure Absent (agentId : String) (db₀ db : Database) : Prop where
  searches : ∀ s ∈ db.searches, s.agentId ≠ agentId
  offers : ∀ o ∈ db.offers, db.offerOwned agentId o = false
  orders : ∀ o ∈ db.orders, o.agentId ≠ agentId
  transactions : ∀ t ∈ db.transactions, t.agentId ≠ agentId
  records : ∀ r ∈ db.records, r.agentId ≠ agentId
  agents : db.agents.rows.filter (·.id = agentId) = db₀.agents.rows.filter (·.id = agentId)

section Steps

variable {agentId other : String} {db₀ db db' : Database} {d : Deployment} {s s' : Platform}
  {j j' : Job} {x : JobChoice}

theorem mem_of_filter_eq {α : Type} {p : α → Bool} {l l' : List α} {a : α}
    (h : l'.filter p = l.filter p) (ha : a ∈ l') (hp : p a = true) : a ∈ l := by
  have hmem : a ∈ l'.filter p := List.mem_filter.mpr ⟨ha, hp⟩
  rw [h] at hmem
  exact (List.mem_filter.mp hmem).1

theorem Absent.untouched (h : Absent agentId db₀ db) (hne : other ≠ agentId)
    (hu : Untouched other db db') : Absent agentId db₀ db' := by
  have hsearches : ∀ s ∈ db'.searches, s.agentId ≠ agentId := by
    rintro s hs rfl
    exact h.searches s (mem_of_filter_eq hu.searches hs (by simpa using hne.symm)) rfl
  refine ⟨hsearches, ?_, ?_, ?_, ?_, ?_⟩
  · intro o _
    rw [Bool.eq_false_iff, Ne, offerOwned_iff]
    rintro ⟨s, hs, _, hag⟩
    exact hsearches s hs hag
  · rintro o ho rfl
    exact h.orders o (mem_of_filter_eq hu.orders ho (by simpa using hne.symm)) rfl
  · rintro t ht rfl
    exact h.transactions t (mem_of_filter_eq hu.transactions ht (by simpa using hne.symm)) rfl
  · rintro r hr rfl
    exact h.records r (mem_of_filter_eq hu.records hr (by simpa using hne.symm)) rfl
  · have hsub (l : List Agent) : l.filter (·.id = agentId) =
        (l.filter (·.id ≠ other)).filter (·.id = agentId) := by
      rw [List.filter_filter]
      apply List.filter_congr
      intro a _
      by_cases ha : a.id = agentId
      · simp [ha, hne.symm]
      · simp [ha]
    rw [hsub, hu.agents, ← hsub]
    exact h.agents

theorem JobStep.caller?_eq (h : JobStep d s j x s' j') (hc : Coupled s.world.db)
    (hv : Job.Valid s.world.db j) : j'.caller? = j.caller? := by
  cases h with
  | start ha => cases StartSearch.advance_step ha <;> rfl
  | process => rfl
  | book ha =>
    obtain ⟨_, _, hcont⟩ := booking_effect ha hv hc
    cases hcont <;> rfl

theorem JobStep.absent (h : JobStep d s j x s' j') (hc : Coupled s.world.db)
    (hv : Job.Valid s.world.db j) (ho : Owners s.world.db) (hj : j.caller? ≠ some agentId)
    (ha : Absent agentId db₀ s.world.db) : Absent agentId db₀ s'.world.db := by
  cases hag : j.agentId? s.world.db with
  | some other =>
    refine ha.untouched ?_ (h.untouched hc hv ho hag)
    rintro rfl
    rcases j with r | r | p
    · exact hj hag
    · obtain ⟨q, hq, hqa⟩ := Option.map_eq_some_iff.mp hag
      exact ha.searches q (Database.search?_eq_some.mp hq).1 hqa
    · exact hj hag
  | none =>
    -- only a run of `process` has no agent, and it finds no search that it could write
    cases h with
    | start => cases hag
    | @process r r' y w hp =>
      rcases (ProcessSearch.advance_step hp).db with he | ⟨q, q', offers, hid, _, hw⟩
      · rwa [Platform.withWorld_world, he]
      · have hfound : s.world.db.search? r.searchId = some q :=
          Database.search?_eq_some.mpr ⟨hw.search_mem, hid⟩
        simp [Job.agentId?, hfound] at hag
    | book => cases hag

end Steps

/-! ## Runs of the API -/

/-- Nothing was done for the agent, and no token stands for the agent. -/
structure Spared (env : Environment) (d : Deployment) (w : World) (agentId : String)
    (s : Api) : Prop where
  run : ∃ as, (serving d).machine.Run (Program.start (Platform.start w)) as s.serving
  tokens : ∀ r ∈ s.issued, ∃ subject issued random, subject ≠ agentId ∧
    createAccessToken env.hmac env.settings subject issued random =
      .ok (r.accessToken, r.expiresAt)
  callers : ∀ j ∈ s.serving.procs, j.caller? ≠ some agentId
  absent : Absent agentId w.db s.serving.store.world.db

section Runs

variable {env : Environment} {d : Deployment} {w : World} {agentId : String} {s s' : Api}
  {a : ApiAction} {as : List ApiAction} {c : Serving} {columns : String → LoginColumns}
  {j : Job}

theorem ApiRequest.caller?_call (q : ApiRequest) : (q.call agentId).caller? = some agentId := by
  cases q <;> rfl

theorem Spared.spawn (h : Spared env d w agentId s) (hj : j.caller? ≠ some agentId)
    (hs : (serving d).machine.step s.serving (.spawn j) = some c) :
    Spared env d w agentId { s with serving := c } := by
  obtain ⟨as, hrun⟩ := h.run
  obtain ⟨_, rfl⟩ := Program.step_spawn_iff.mp hs
  refine ⟨⟨as ++ [.spawn j], hrun.append (.cons trivial hs (.nil _))⟩, h.tokens, ?_, h.absent⟩
  intro k hk
  rcases List.mem_append.mp hk with hk | hk
  · exact h.callers k hk
  · rwa [List.mem_singleton.mp hk]

theorem Spared.advance (ha : OnlyAgents w.db) (h : Spared env d w agentId s) {i : ℕ}
    {x : JobChoice} (hs : (serving d).machine.step s.serving (.advance i x) = some c) :
    Spared env d w agentId { s with serving := c } := by
  obtain ⟨as, hrun⟩ := h.run
  obtain ⟨hc, hv⟩ := steady_of_run hrun (steady_start (s := Platform.start w) ha.unpaid.coupled)
  obtain ⟨ho, _⟩ := traced_of_run ha hrun
  obtain ⟨j, t, j', hj, hadv, rfl⟩ := Program.step_advance_iff.mp hs
  have hmem := List.mem_of_getElem? hj
  have hstep := serving_step hadv
  refine ⟨⟨as ++ [.advance i x], hrun.append (.cons trivial hs (.nil _))⟩, h.tokens, ?_, ?_⟩
  · intro k hk
    rcases List.mem_or_eq_of_mem_set hk with hk | rfl
    · exact h.callers k hk
    · rw [hstep.caller?_eq hc (hv j hmem)]
      exact h.callers j hmem
  · exact hstep.absent hc (hv j hmem) ho (h.callers j hmem) h.absent

theorem Spared.step (ha : OnlyAgents w.db) (htrust : Trusted env s a)
    (hlogin : ¬ LogsIn env agentId s a) (hs : (api env d).step s a = some s')
    (h : Spared env d w agentId s) : Spared env d w agentId s' := by
  cases api_step hs with
  | rejected => exact h
  | @loggedIn payload now random account r hadmits hok hcreate =>
    refine ⟨h.run, ?_, h.callers, h.absent⟩
    intro r' hr'
    rcases List.mem_append.mp hr' with hr' | hr'
    · exact h.tokens r' hr'
    · obtain rfl := List.mem_singleton.mp hr'
      refine ⟨account.id, now, random, ?_, hcreate⟩
      intro hid
      exact hlogin ⟨account, r', hadmits, hid, hok⟩
  | called hok hc =>
    refine h.spawn ?_ hc
    rw [ApiRequest.caller?_call, Ne, Option.some.injEq]
    obtain ⟨r, hr, haccepted⟩ := accepted_of_unforged htrust hok
    obtain ⟨subject, issued, random, hne, hcreate⟩ := h.tokens r hr
    rw [(haccepted subject issued random hcreate).2.1]
    exact hne
  | delivered hc => exact h.spawn (by simp [Job.caller?]) hc
  | advanced hc => exact h.advance ha hc
  | edited => exact ⟨h.run, h.tokens, h.callers, h.absent⟩

theorem OnlyAgents.absent (ha : OnlyAgents w.db) : Absent agentId w.db w.db := by
  constructor
  · intro s hs
    simp [Table.mem_def, ha.searches] at hs
  · intro o ho
    simp [Table.mem_def, ha.offers] at ho
  · intro o ho
    simp [Table.mem_def, ha.orders] at ho
  · intro t ht
    simp [Table.mem_def, ha.transactions] at ht
  · intro r hr
    simp [Table.mem_def, ha.records] at hr
  · rfl

theorem OnlyAgents.spared (ha : OnlyAgents w.db) :
    Spared env d w agentId (Api.start w columns) := by
  refine ⟨⟨[], .nil _⟩, ?_, ?_, ha.absent⟩
  · simp [Api.start]
  · simp [Api.start, Program.start]

/-- In every run of the API, as far as tokens are not forged, somebody has logged in as the agent
before, or no call was made for the agent, nothing is stored for the agent and the agent's row is
as it was. -/
theorem logged_in_or_absent (agentId : String) (ha : OnlyAgents w.db)
    (h : (api env d).RunWhere (Trusted env) (Api.start w columns) as s) :
    (∃ bs a cs t, as = bs ++ a :: cs ∧
      (api env d).RunWhere (Trusted env) (Api.start w columns) bs t ∧ LogsIn env agentId t a) ∨
    ((∀ j ∈ s.serving.procs, j.caller? ≠ some agentId) ∧
      Absent agentId w.db s.serving.store.world.db) := by
  rcases h.or_exists (LogsIn env agentId) with h | h
  · right
    have hspared := h.invariant (I := Spared env d w agentId) ?_ ha.spared
    · exact ⟨hspared.callers, hspared.absent⟩
    · rintro s a t ⟨htrust, hlogin⟩ hs hI
      exact hI.step ha htrust hlogin hs
  · left
    exact h

end Runs

namespace Example

/-- The tables with two agents. -/
def guests : World where
  db := { bare.db with agents := ⟨[admin.toAgent, agent], by decide⟩ }
  history := []

def columns (agentId : String) : LoginColumns :=
  if agentId = "admin" then ⟨admin.email, admin.passwordHash, admin.isActive⟩
  else ⟨"guest@example.com", [], true⟩

def guest : Account where
  toAgent := agent
  email := "guest@example.com"
  passwordHash := []
  isActive := true

theorem admits_guests : Admits environment [admin, guest] ⟨"Agent@example.com", "abc12345!"⟩
    admin where
  found := by decide +kernel
  active := rfl
  verified := admits_admin.verified

theorem login_guests : login environment [admin, guest]
    ⟨"Agent@example.com", "abc12345!"⟩ midnight drawn = .ok answer :=
  login_eq_ok.mpr ⟨admin, admits_guests, rfl, createAccessToken_admin⟩

theorem accepted_guests : getCurrentAgent environment [admin, guest] midnight
    (some ⟨"Bearer", answer.accessToken⟩) = .ok admin :=
  (accepted_iff (by decide +kernel) createAccessToken_admin).mpr
    ⟨by decide, by decide +kernel, by decide +kernel, rfl⟩

/-- One agent has logged in and calls `start`. -/
def welcomed : Api :=
  ⟨⟨Platform.start guests, [.inl ⟨"admin", searchRequest, 100, .requested⟩]⟩, columns, [answer]⟩

def welcomeActions : List ApiAction :=
  [.login ⟨"Agent@example.com", "abc12345!"⟩ midnight drawn,
    .request (some ⟨"Bearer", answer.accessToken⟩) midnight (.startOfferSearch searchRequest 100)]

theorem accounts_guests (jobs : List Job) (tokens : List TokenResponse) :
    Api.accounts ⟨⟨Platform.start guests, jobs⟩, columns, tokens⟩ = [admin, guest] := rfl

theorem welcomed_of_actions : (api environment deployment).RunWhere (Trusted environment)
    (Api.start guests columns) welcomeActions welcomed := by
  refine .cons trivial (t := ⟨⟨Platform.start guests, []⟩, columns, [answer]⟩) ?_
    (.cons ?_ ?_ (.nil _))
  · simp only [api, Api.start, Program.start, accounts_guests, login_guests, List.nil_append]
  · exact fun _ _ signature _ hs _ _ => ⟨_, List.mem_singleton_self _, signature, hs⟩
  · simp only [api, accounts_guests, accepted_guests]
    rfl

end Example

/-- The other agent is absent. -/
theorem logged_in_or_absent_guests : Example.welcomed.serving.procs.length = 1 ∧
    Absent "agent" Example.guests.db Example.welcomed.serving.store.world.db := by
  refine ⟨rfl, ?_⟩
  rcases logged_in_or_absent "agent" ⟨rfl, rfl, rfl, rfl, rfl, rfl⟩
    Example.welcomed_of_actions with ⟨bs, a, cs, t, has, hbs, hlogin⟩ | ⟨_, habsent⟩
  · cases bs with
    | nil =>
      cases hbs
      obtain ⟨rfl, _⟩ := List.cons.inj has
      obtain ⟨account, _, hadmits, hid, _⟩ := hlogin
      have hfound := hadmits.found
      rw [Api.start, Program.start, Example.accounts_guests] at hfound
      obtain rfl := Option.some.inj (Example.admits_guests.found.symm.trans hfound)
      exact absurd hid (by decide)
    | cons b bs =>
      cases bs with
      | nil =>
        obtain ⟨_, has⟩ := List.cons.inj has
        obtain ⟨rfl, _⟩ := List.cons.inj has
        exact hlogin.elim
      | cons => simp [Example.welcomeActions] at has
  · exact habsent

end Ioka
