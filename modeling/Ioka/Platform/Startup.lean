import Ioka.Security.Access
import Ioka.Transition.Program

/-! # Startups of the API

Each process of the API looks for the default agent when it starts, and adds the row if there is
none. Of processes that start at the same time one adds it, and the others fail or find it. No
startup changes a row that is there. The settings of the default agent are taken to fit the columns
of its row, the email its 255 characters and the balance its 16 digits.
-/

namespace Ioka

open Python Relational Transition

def Account.uniques : List (Account → Option (List String)) :=
  [fun a => some [a.id], fun a => some [a.email]]

structure SeedSettings where
  defaultAgentEmail : String
  defaultAgentPassword : String
  defaultAgentBalance : Money

/-- How far a process has come in `seed_default_agent`. -/
inductive Startup
  | requested
  | missing
  | done (result : Except (Exc ⊕ Failure) Unit)
  deriving DecidableEq

inductive StartupChoice
  | read
  | insert (id : String) (salt : Bytes)

section Functions

variable (env : Environment) (settings : SeedSettings)

/-- The row of the default agent, with its identifier and the salt of its password. -/
def defaultAgent (id : String) (salt : Bytes) : Except Exc Account := do
  let passwordHash ← hashPassword env.pbkdf2 salt (str settings.defaultAgentPassword)
  return { id, balance := settings.defaultAgentBalance, currency := "UZS",
           email := env.lower settings.defaultAgentEmail, passwordHash, isActive := true }

/-- `select(Agent).where(Agent.email == settings.default_agent_email.lower())` -/
def selectDefault (agents : Table Account.uniques) : Option Account :=
  agents.select (·.email = env.lower settings.defaultAgentEmail)

/-- `seed_default_agent` -/
def seedDefaultAgent : Program (Table Account.uniques) Startup StartupChoice where
  fresh
    | .requested => true
    | _ => false
  advance agents
    | .requested, .read =>
      match selectDefault env settings agents with
      | some _ => some (agents, .done (.ok ()))
      | none => some (agents, .missing)
    | .missing, .insert id salt =>
      match defaultAgent env settings id salt with
      | .error e => some (agents, .done (.error (.inl e)))
      | .ok agent =>
        match agents.insert? agent with
        | some agents' => some (agents', .done (.ok ()))
        | none => some (agents, .done (.error (.inr .integrityError)))
    | _, _ => none

end Functions

/-- An identifier is drawn that no row has. -/
def FreshId (c : Config (Table Account.uniques) Startup) : Action Startup StartupChoice → Prop
  | .advance _ (.insert id _) => ∀ a ∈ c.store, a.id ≠ id
  | _ => True

instance (c : Config (Table Account.uniques) Startup) :
    ∀ a : Action Startup StartupChoice, Decidable (FreshId c a)
  | .advance _ (.insert id _) => inferInstanceAs (Decidable (∀ a ∈ c.store.rows, a.id ≠ id))
  | .advance _ .read => inferInstanceAs (Decidable True)
  | .spawn _ => inferInstanceAs (Decidable True)

/-- The rows that the startups found, or these and the default agent, which one of them added. -/
inductive Seeded (env : Environment) (settings : SeedSettings) (agents : Table Account.uniques)
    (c : Config (Table Account.uniques) Startup) : Prop
  | unchanged (hstore : c.store = agents) (hprocs : ∀ p ∈ c.procs, p = .requested ∨
      (p = .missing ∧ selectDefault env settings agents = none) ∨
      (p = .done (.ok ()) ∧ selectDefault env settings agents ≠ none))
  | added {a : Account} {id : String} {salt : Bytes}
      (hnone : selectDefault env settings agents = none)
      (ha : defaultAgent env settings id salt = .ok a) (hstore : c.store.rows = agents.rows ++ [a])
      (hdone : .done (.ok ()) ∈ c.procs)
      (herror : ∀ e, .done (.error e) ∈ c.procs → e = .inr .integrityError)

section Runs

variable {env : Environment} {settings : SeedSettings} {agents : Table Account.uniques}
  {c c' : Config (Table Account.uniques) Startup} {as : List (Action Startup StartupChoice)}
  {id : String} {salt : Bytes} {a : Account}

theorem defaultAgent_eq_ok : defaultAgent env settings id salt = .ok a ↔
    a = { id, balance := settings.defaultAgentBalance, currency := "UZS",
          email := env.lower settings.defaultAgentEmail,
          passwordHash := storedPassword salt (env.pbkdf2
            (utf8 settings.defaultAgentPassword.toList) salt PBKDF2_ITERATIONS),
          isActive := true } := by
  have hhash : hashPassword env.pbkdf2 salt (str settings.defaultAgentPassword) =
      .ok (storedPassword salt (env.pbkdf2 (utf8 settings.defaultAgentPassword.toList) salt
        PBKDF2_ITERATIONS)) := by
    rw [hashPassword, str, encode_text]
    rfl
  rw [defaultAgent, hhash]
  constructor
  · intro h
    cases h
    rfl
  · rintro rfl
    rfl

theorem exists_defaultAgent (env : Environment) (settings : SeedSettings) (id : String)
    (salt : Bytes) : ∃ a, defaultAgent env settings id salt = .ok a :=
  ⟨_, defaultAgent_eq_ok.mpr rfl⟩

theorem insert_defaultAgent (hfresh : ∀ b ∈ agents, b.id ≠ id)
    (ha : defaultAgent env settings id salt = .ok a) :
    (agents.insert? a).isSome ↔ selectDefault env settings agents = none := by
  obtain rfl := defaultAgent_eq_ok.mp ha
  rw [Table.isSome_insert?, selectDefault, Table.select_eq_none]
  constructor
  · intro h b hb
    have hemail := h b hb _ (List.mem_cons_of_mem _ (List.mem_singleton_self _))
    simpa using hemail
  · intro h b hb col hcol
    rcases List.mem_pair.mp hcol with rfl | rfl
    · exact Or.inr (by simpa using hfresh b hb)
    · exact Or.inr (by simpa using h b hb)

/-- What one step of `seed_default_agent` does. -/
theorem seedDefaultAgent_step {p p' : Startup} {x : StartupChoice}
    {agents' : Table Account.uniques}
    (h : (seedDefaultAgent env settings).advance agents p x = some (agents', p')) :
    (p = .requested ∧ agents' = agents ∧
      ((selectDefault env settings agents ≠ none ∧ p' = .done (.ok ())) ∨
        (selectDefault env settings agents = none ∧ p' = .missing))) ∨
    ∃ id salt a, p = .missing ∧ x = .insert id salt ∧
      defaultAgent env settings id salt = .ok a ∧
      ((agents.insert? a = some agents' ∧ p' = .done (.ok ())) ∨
        (agents.insert? a = none ∧ agents' = agents ∧
          p' = .done (.error (.inr .integrityError)))) := by
  cases p with
  | requested =>
    cases x with
    | read =>
      simp only [seedDefaultAgent] at h
      split at h
      · rename_i a hsome
        obtain ⟨rfl, rfl⟩ := Prod.mk.inj (Option.some.inj h)
        exact Or.inl ⟨rfl, rfl, Or.inl ⟨by simp [hsome], rfl⟩⟩
      · rename_i hnone
        obtain ⟨rfl, rfl⟩ := Prod.mk.inj (Option.some.inj h)
        exact Or.inl ⟨rfl, rfl, Or.inr ⟨hnone, rfl⟩⟩
    | insert id salt => cases h
  | missing =>
    cases x with
    | read => cases h
    | insert id salt =>
      obtain ⟨a, ha⟩ := exists_defaultAgent env settings id salt
      simp only [seedDefaultAgent, ha] at h
      refine Or.inr ⟨id, salt, a, rfl, rfl, ha, ?_⟩
      split at h
      · rename_i t hsome
        obtain ⟨rfl, rfl⟩ := Prod.mk.inj (Option.some.inj h)
        exact Or.inl ⟨hsome, rfl⟩
      · rename_i hnone
        obtain ⟨rfl, rfl⟩ := Prod.mk.inj (Option.some.inj h)
        exact Or.inr ⟨hnone, rfl, rfl⟩
  | done result => cases x <;> cases h

theorem Seeded.spawn {p : Startup} (h : Seeded env settings agents c)
    (hf : (seedDefaultAgent env settings).fresh p = true) :
    Seeded env settings agents ⟨c.store, c.procs ++ [p]⟩ := by
  obtain rfl : p = .requested := by
    cases p with
    | requested => rfl
    | missing => cases hf
    | done result => cases hf
  rcases h with ⟨hstore, hprocs⟩ | ⟨hnone, ha, hstore, hdone, herror⟩
  · refine .unchanged hstore fun q hq => ?_
    rcases List.mem_append.mp hq with hq | hq
    · exact hprocs q hq
    · exact Or.inl (List.mem_singleton.mp hq)
  · refine .added hnone ha hstore (List.mem_append_left _ hdone) fun e he => ?_
    rcases List.mem_append.mp he with he | he
    · exact herror e he
    · cases List.mem_singleton.mp he

theorem Seeded.advance {i : ℕ} {p p' : Startup} {x : StartupChoice}
    {store : Table Account.uniques} (h : Seeded env settings agents c)
    (hg : FreshId c (.advance i x)) (hp : c.procs[i]? = some p)
    (hadv : (seedDefaultAgent env settings).advance c.store p x = some (store, p')) :
    Seeded env settings agents ⟨store, c.procs.set i p'⟩ := by
  rcases h with ⟨hstore, hprocs⟩ | ⟨hnone, ha, hstore, hdone, herror⟩
  · obtain rfl := hstore
    rcases seedDefaultAgent_step hadv with
      ⟨rfl, rfl, hread⟩ | ⟨id, salt, a, rfl, rfl, ha, hwrite⟩
    · refine .unchanged rfl fun q hq => ?_
      rcases List.mem_or_eq_of_mem_set hq with hq | rfl
      · exact hprocs q hq
      · rcases hread with ⟨hsome, rfl⟩ | ⟨hnone, rfl⟩
        · exact Or.inr (Or.inr ⟨rfl, hsome⟩)
        · exact Or.inr (Or.inl ⟨rfl, hnone⟩)
    · -- No process has added the row, so that the row of this one is not refused.
      have hnone : selectDefault env settings c.store = none := by
        rcases hprocs _ (List.mem_of_getElem? hp) with hq | ⟨_, hnone⟩ | ⟨hq, _⟩
        · cases hq
        · exact hnone
        · cases hq
      have hsome := (insert_defaultAgent hg ha).mpr hnone
      rcases hwrite with ⟨hinsert, rfl⟩ | ⟨hinsert, _, _⟩
      · refine .added hnone ha (Table.insert?_eq_some.mp hinsert) (Program.mem_set_self hp) ?_
        intro e he
        rcases List.mem_or_eq_of_mem_set he with he | he
        · rcases hprocs _ he with hq | ⟨hq, _⟩ | ⟨hq, _⟩ <;> cases hq
        · cases he
      · rw [hinsert] at hsome
        cases hsome
  · rename_i a₀ id₀ salt₀
    have hfound : selectDefault env settings c.store ≠ none := by
      obtain rfl := defaultAgent_eq_ok.mp ha
      intro hn
      have hlast := Table.select_eq_none.mp hn _ (by
        rw [Table.mem_def, hstore]
        exact List.mem_append_right _ (List.mem_singleton_self _))
      simp at hlast
    rcases seedDefaultAgent_step hadv with
      ⟨rfl, rfl, hread⟩ | ⟨id, salt, a, rfl, rfl, ha', hwrite⟩
    · refine .added hnone ha hstore (Program.mem_set_of_ne hp hdone (by simp)) fun e he => ?_
      rcases List.mem_or_eq_of_mem_set he with he | rfl
      · exact herror e he
      · rcases hread with ⟨_, hq⟩ | ⟨_, hq⟩ <;> cases hq
    · have hiff := insert_defaultAgent hg ha'
      rcases hwrite with ⟨hinsert, _⟩ | ⟨_, rfl, rfl⟩
      · exact absurd (hiff.mp (by rw [hinsert]; rfl)) hfound
      · refine .added hnone ha hstore (Program.mem_set_of_ne hp hdone (by simp)) fun e he => ?_
        rcases List.mem_or_eq_of_mem_set he with he | he
        · exact herror e he
        · cases he
          rfl

theorem seeded_of_run (h : (seedDefaultAgent env settings).machine.RunWhere FreshId
    (Program.start agents) as c) : Seeded env settings agents c := by
  refine h.invariant (I := Seeded env settings agents) ?_ (.unchanged rfl (by simp [Program.start]))
  intro c a c' hg hs hI
  cases a with
  | spawn p =>
    obtain ⟨hf, rfl⟩ := Program.step_spawn_iff.mp hs
    exact hI.spawn hf
  | advance i x =>
    obtain ⟨p, s', p', hp, hadv, rfl⟩ := Program.step_advance_iff.mp hs
    exact hI.advance hg hp hadv

end Runs

/-- However many processes start at the same time, the rows that were there stay as they are, and
at most one row is added, for the default agent if there was none. Once a process has started, one
has not failed and the row is there; the others fail at most for the row of another. If there was
none before, the default agent can log in from then on. -/
theorem seeding (env : Environment) (settings : SeedSettings) {agents : Table Account.uniques}
    {c : Config (Table Account.uniques) Startup} {as : List (Action Startup StartupChoice)}
    (h : (seedDefaultAgent env settings).machine.RunWhere FreshId (Program.start agents) as c) :
    (c.store = agents ∨ selectDefault env settings agents = none ∧ ∃ id salt a,
      defaultAgent env settings id salt = .ok a ∧ c.store.rows = agents.rows ++ [a]) ∧
    (∀ e, .done (.error e) ∈ c.procs → e = .inr .integrityError) ∧
    ∀ result, .done result ∈ c.procs → .done (.ok ()) ∈ c.procs ∧
      selectDefault env settings c.store ≠ none ∧
      (selectDefault env settings agents = none → ∀ payload : LoginRequest,
        env.lower payload.email = env.lower settings.defaultAgentEmail →
        payload.password = settings.defaultAgentPassword → ∃ account,
          Admits env c.store.rows payload account ∧
          account.balance = settings.defaultAgentBalance) := by
  rcases seeded_of_run h with ⟨hstore, hprocs⟩ | ⟨hnone, ha, hstore, hdone, herror⟩
  · refine ⟨Or.inl hstore, ?_, ?_⟩
    · intro e he
      rcases hprocs _ he with hq | ⟨hq, _⟩ | ⟨hq, _⟩ <;> cases hq
    · intro result hr
      rcases hprocs _ hr with hq | ⟨hq, _⟩ | ⟨hq, hsome⟩
      · cases hq
      · cases hq
      · rw [hq] at hr
        exact ⟨hr, by rwa [hstore], fun hnone => absurd hnone hsome⟩
  · rename_i a id salt
    have hfound : selectDefault env settings c.store = some a := by
      rw [selectDefault, Table.select, hstore, List.find?_append, ← Table.select, ← selectDefault,
        hnone, defaultAgent_eq_ok.mp ha]
      simp
    refine ⟨Or.inr ⟨hnone, id, salt, a, ha, hstore⟩, herror, fun _ _ => ⟨hdone, ?_, ?_⟩⟩
    · simp [hfound]
    · intro _ payload hemail hpassword
      refine ⟨a, ⟨?_, ?_, ?_⟩, ?_⟩
      · rw [hemail]
        exact hfound
      · rw [defaultAgent_eq_ok.mp ha]
      · rw [defaultAgent_eq_ok.mp ha, verifyPassword, hpassword, str, verifyFields_storedPassword]
        simp
      · rw [defaultAgent_eq_ok.mp ha]

namespace Example

def seedSettings : SeedSettings := ⟨"agent@example.com", "abc12345!", 10000000⟩

def startups : Option (Config (Table Account.uniques) Startup) :=
  (seedDefaultAgent environment seedSettings).machine.execWhere FreshId (Program.start .empty)
    [.spawn .requested, .spawn .requested, .advance 0 .read, .advance 1 .read,
      .advance 1 (.insert "second" drawn), .advance 0 (.insert "first" drawn)]

end Example

/-- Two processes find no row. The second adds it, the first fails, and the agent can log in. -/
theorem seeding_race : ∃ c, Example.startups = some c ∧
    c.procs = [.done (.error (.inr .integrityError)), .done (.ok ())] ∧
    ∃ account, Admits Example.environment c.store.rows ⟨"Agent@example.com", "abc12345!"⟩
      account := by
  obtain ⟨c, hc, hprocs⟩ : ∃ c, Example.startups = some c ∧
      c.procs = [.done (.error (.inr .integrityError)), .done (.ok ())] :=
    Option.map_eq_some_iff.mp (by decide +kernel : Example.startups.map (·.procs) = some _)
  have hseed := seeding Example.environment Example.seedSettings
    (Machine.runWhere_of_execWhere hc)
  obtain ⟨_, _, hlogin⟩ := hseed.2.2 (.ok ()) (by simp [hprocs])
  obtain ⟨account, hadmits, _⟩ := hlogin rfl ⟨"Agent@example.com", "abc12345!"⟩
    (by decide +kernel) rfl
  exact ⟨c, hc, hprocs, account, hadmits⟩

end Ioka
