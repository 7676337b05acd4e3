import Ioka.Booking.Success
import Ioka.Platform.Reachable

/-! # Answers to failed requests

The status of the answer to a failed booking request, and what the request has written by then: a
client error stands for a database that the request has left as it was, and a failed booking for
one that differs by audit rows.
-/

namespace Ioka

open Relational Transition

/-- `AppError`, with the attributes of its subclasses. -/
structure AppError where
  statusCode : ℕ
  code : String
  message : String
  details : List (String × String)
  deriving DecidableEq

/-- The class of an error. The database's own is none of the application's. -/
def Failure.appError : Failure → Option AppError
  | .notFound message => some ⟨404, "not_found", message, []⟩
  | .conflict message => some ⟨409, "conflict", message, []⟩
  | .insufficientBalance message details => some ⟨422, "insufficient_balance", message, details⟩
  | .providerError message => some ⟨502, "provider_error", message, []⟩
  | .integrityError | .dbapiError | .cancelledError => none

/-- The status of the answer, by `app_error_handler` or else by the server. -/
def Failure.status (e : Failure) : ℕ := (e.appError.map (·.statusCode)).getD 500

/-- A status of 400 or more, and less than 500. -/
def Failure.isClientError (e : Failure) : Bool := 400 ≤ e.status ∧ e.status < 500

/-- The error that a booking request has ended with. -/
def Job.failure? : Job → Option Failure
  | .inr (.inr (.inl r)) => match r.phase with
    | .done (.error e) => some e
    | _ => none
  | .inr (.inr (.inr r)) => match r.phase with
    | .done (.error e) => some e
    | _ => none
  | _ => none

def Job.isCreate : Job → Bool
  | .inr (.inr (.inl _)) => true
  | _ => false

/-- A call of `create_order` that has written a row, and will not end with a client error. -/
def CreateOrder.Wrote (r : CreateOrder) : Prop :=
  ∃ result, r.phase = .done result ∧ ∀ e, result = .error e → e.isClientError = false

/-- A call of `issue_order` that has written a row, and will not end with a client error. -/
def IssueOrder.Wrote (r : IssueOrder) : Prop :=
  r.phase ≠ .requested ∧ ∀ e, r.phase = .done (.error e) → e.isClientError = false

def Job.Wrote : Job → Prop
  | .inr (.inr (.inl r)) => r.Wrote
  | .inr (.inr (.inr r)) => r.Wrote
  | _ => True

section Steps

variable {sha256 : String → String} {w w' : World}

theorem IssueOrder.Pending.capture_error {db : Database} {r : IssueOrder} (h : r.Pending db)
    (h₁ : OnePayment db) {ticket : ProviderTicket} {durationMs : ℤ} {e : Failure}
    (hcap : issueOrderCapture db r.agentId r.orderId r.idempotencyKey ticket durationMs =
      .error e) : e = .integrityError ∨ e = .dbapiError := by
  obtain ⟨⟨o, ho, hid, hown, _⟩, ⟨a, ha, haid⟩, ⟨t, ht, hto⟩⟩ := h
  rw [issueOrderCapture, agentOrder_eq_some.mpr ⟨ho, hid, hown⟩,
    Database.agent?_eq_some.mpr ⟨ha, haid⟩, h₁.transactionOf_eq_some.mpr ⟨ht, hto⟩] at hcap
  exact captureRows_error hcap

theorem releaseHold_error {db : Database} {agentId orderId error : String} {e : Failure}
    (h : releaseHold db agentId orderId error = .error e) :
    e = .integrityError ∨ e = .dbapiError := by
  unfold releaseHold at h
  split at h
  · unfold releaseRows at h
    split at h
    · split at h
      · left
        rcases bind_eq_error.mp h with h | ⟨_, _, h⟩
        · exact Database.writing_eq_error h
        · rcases bind_eq_error.mp h with h | ⟨_, _, h⟩
          · exact Database.writing_eq_error h
          · rcases bind_eq_error.mp h with h | ⟨_, _, h⟩
            · exact Database.writing_eq_error h
            · cases h
      · cases h
        exact Or.inr rfl
    · cases h
  · cases h

theorem IssueOrder.advance_wrote {r r' : IssueOrder} {x : IssueChoice}
    (hv : r.Active → r.Pending w.db) (h₁ : OnePayment w.db)
    (h : r.advance w x = some (w', r')) (hw : r.Wrote ∨ w'.db ≠ w.db) : r'.Wrote := by
  unfold advance at h
  split at h
  case h_1 transactionId hp =>
    have hdb : w'.db ≠ w.db := hw.resolve_left fun hwrote => hwrote.1 hp
    split at h
    · cases h
      exact absurd rfl hdb
    · cases h
      exact absurd rfl hdb
    · cases h
      exact ⟨by simp, by simp⟩
  case h_2 =>
    cases h
    exact ⟨by simp, by simp⟩
  case h_3 =>
    cases h
    exact ⟨by simp, by simp⟩
  case h_4 =>
    cases h
    exact ⟨by simp, by simp⟩
  case h_5 =>
    cases h
    refine ⟨by simp [finish], fun e' he => ?_⟩
    obtain rfl : Failure.cancelledError = e' := by simpa [finish] using he
    rfl
  case h_6 raised hp =>
    split at h
    · rename_i e hrel
      cases h
      refine ⟨by simp [finish], fun e' he => ?_⟩
      obtain rfl : e = e' := by simpa [finish] using he
      rcases releaseHold_error hrel with rfl | rfl <;> rfl
    · cases h
      refine ⟨by simp [finish], fun e' he => ?_⟩
      obtain rfl : Failure.providerError _ = e' := by simpa [finish] using he
      rfl
  case h_7 ticket durationMs hp =>
    split at h
    · rename_i e hcap
      cases h
      refine ⟨by simp [finish], fun e' he => ?_⟩
      obtain rfl : e = e' := by simpa [finish] using he
      rcases (hv (by simp [Active, hp])).capture_error h₁ hcap with rfl | rfl <;> rfl
    · cases h
      refine ⟨by simp [finish], fun e' he => ?_⟩
      simp [finish] at he
  case h_8 => cases h

theorem CreateOrder.replay_world (r : CreateOrder) (missing : CreatePhase) :
    (r.replay sha256 w missing).1 = w := by
  unfold replay
  split <;> rfl

theorem CreateOrder.advance_db {r r' : CreateOrder} {x : CreateChoice}
    (h : r.advance sha256 w x = some (w', r')) :
    w'.db = w.db ∨
    (∃ message row, r'.phase = .done (.error (.providerError message)) ∧
      w'.db = { w.db with audit := w.db.audit ++ [row] }) ∨
    ∃ order, r'.phase = .done (.ok order) := by
  unfold advance at h
  split at h
  case h_1 =>
    have he := congrArg (·.1.db) (Option.some.inj h)
    simp only [replay_world] at he
    exact Or.inl he.symm
  case h_2 =>
    split at h <;> cases h <;> exact Or.inl rfl
  case h_3 =>
    cases h
    exact Or.inl rfl
  case h_4 =>
    cases h
    exact Or.inl rfl
  case h_5 =>
    cases h
    exact Or.inl rfl
  case h_6 =>
    cases h
    exact Or.inl rfl
  case h_7 =>
    split at h
    · cases h
      exact Or.inl rfl
    · rename_i db' hr
      cases h
      obtain ⟨_, rfl⟩ := createOrderRefused_eq_ok.mp hr
      exact Or.inr (Or.inl ⟨_, _, rfl, rfl⟩)
  case h_8 =>
    split at h
    · cases h
      exact Or.inl rfl
    · cases h
      exact Or.inl rfl
    · cases h
      exact Or.inr (Or.inr ⟨_, rfl⟩)
  case h_9 =>
    have he := congrArg (·.1.db) (Option.some.inj h)
    simp only [replay_world] at he
    exact Or.inl he.symm
  case h_10 => cases h

theorem CreateOrder.advance_done {r : CreateOrder} {x : CreateChoice}
    {result : Except Failure Order} (h : r.phase = .done result) :
    r.advance sha256 w x = none := by
  simp [advance, h]

theorem CreateOrder.advance_wrote {r r' : CreateOrder} {x : CreateChoice}
    (h : r.advance sha256 w x = some (w', r')) (hw : r.Wrote ∨ w'.db ≠ w.db) : r'.Wrote := by
  rcases hw with ⟨result, hp, _⟩ | hne
  · rw [advance_done hp] at h
    cases h
  · rcases advance_db h with he | ⟨message, _, hp, _⟩ | ⟨order, hp⟩
    · exact absurd he hne
    · refine ⟨_, hp, fun e he => ?_⟩
      obtain rfl := Except.error.inj he
      rfl
    · exact ⟨_, hp, by simp⟩

theorem JobStep.wrote {d : Deployment} {s s' : Platform} {j j' : Job} {x : JobChoice}
    (h : JobStep d s j x s' j') (hc : Coupled s.world.db) (hv : Job.Valid s.world.db j)
    (hw : j.Wrote ∨ s'.world.db ≠ s.world.db) : j'.Wrote := by
  cases h with
  | start => trivial
  | process => trivial
  | book ha =>
    rcases Program.sum_advance ha with ⟨r, r', y, rfl, rfl, rfl, hr⟩ | ⟨r, r', y, rfl, rfl, rfl, hr⟩
    · exact CreateOrder.advance_wrote hr hw
    · exact IssueOrder.advance_wrote hv hc.onePayment hr hw

theorem Job.Wrote.failure {j : Job} {e : Failure} (h : j.Wrote) (hf : j.failure? = some e) :
    e.isClientError = false := by
  rcases j with r | r | r | r
  · cases hf
  · cases hf
  · obtain ⟨result, hp, herror⟩ := h
    simp only [failure?, hp] at hf
    split at hf
    · rename_i e' he
      obtain rfl := Option.some.inj hf
      exact herror e' (CreatePhase.done.inj he)
    · cases hf
  · simp only [failure?] at hf
    split at hf
    · rename_i e' he
      obtain rfl := Option.some.inj hf
      exact h.2 e' he
    · cases hf

theorem JobStep.isCreate_eq {d : Deployment} {s s' : Platform} {j j' : Job} {x : JobChoice}
    (h : JobStep d s j x s' j') : j'.isCreate = j.isCreate := by
  cases h with
  | start => rfl
  | process => rfl
  | book ha =>
    rcases Program.sum_advance ha with ⟨_, _, _, rfl, rfl, rfl, _⟩ | ⟨_, _, _, rfl, rfl, rfl, _⟩ <;>
      rfl

theorem JobStep.create {d : Deployment} {s s' : Platform} {j j' : Job} {x : JobChoice}
    (h : JobStep d s j x s' j') (hj : j.isCreate = true) : ∃ r r' y w,
      j = .inr (.inr (.inl r)) ∧ j' = .inr (.inr (.inl r')) ∧ s' = s.withWorld w ∧
      r.advance d.sha256 s.world y = some (w, r') := by
  cases h with
  | start => cases hj
  | process => cases hj
  | @book p p' x w ha =>
    rcases Program.sum_advance ha with ⟨r, r', y, rfl, rfl, rfl, hr⟩ | ⟨_, _, _, rfl, _, _, _⟩
    · exact ⟨r, r', y, w, rfl, rfl, rfl, hr⟩
    · cases hj

end Steps

section Runs

variable {d : Deployment} {w : World} {c c' c₁ c₂ : Serving} {i : ℕ} {j j' : Job} {x : JobChoice}
  {as bs cs : List (Action Job JobChoice)} {e : Failure}

/-- What its own steps keep of a job is kept through a run. -/
theorem job_of_run {J : Job → Prop}
    (hstep : ∀ s j x s' j', Coupled s.world.db → Job.Valid s.world.db j → JobStep d s j x s' j' →
      J j → J j')
    (h : (serving d).machine.Run c as c') (hc : Steady c) (hi : c.procs[i]? = some j) (hj : J j) :
    ∃ j', c'.procs[i]? = some j' ∧ J j' := by
  have hinv : Steady c' ∧ ∃ j', c'.procs[i]? = some j' ∧ J j' := by
    refine h.invariant (I := fun c => Steady c ∧ ∃ j, c.procs[i]? = some j ∧ J j) ?_
      ⟨hc, j, hi, hj⟩
    rintro c a c' _ hs ⟨hc, j, hi, hj⟩
    refine ⟨steady_of_run (G := fun _ _ => True) (.cons trivial hs (.nil c')) hc, ?_⟩
    have hlt : i < c.procs.length := (List.getElem?_eq_some_iff.mp hi).1
    cases a with
    | spawn q =>
      obtain ⟨_, rfl⟩ := Program.step_spawn_iff.mp hs
      exact ⟨j, (List.getElem?_append_left hlt).trans hi, hj⟩
    | advance k x =>
      obtain ⟨q, s', q', hq, ha, rfl⟩ := Program.step_advance_iff.mp hs
      by_cases hk : k = i
      · subst hk
        obtain rfl : q = j := Option.some.inj (hq.symm.trans hi)
        exact ⟨q', List.getElem?_set_self hlt, hstep _ _ _ _ _ hc.1
          (hc.2 q (List.mem_of_getElem? hi)) (serving_step ha) hj⟩
      · exact ⟨j, (List.getElem?_set_ne hk).trans hi, hj⟩
  exact hinv.2

theorem create_done {r : CreateOrder} {result : Except Failure Order} (hp : r.phase = .done result)
    (s : Platform) (x : JobChoice) : (serving d).advance s (.inr (.inr (.inl r))) x = none := by
  apply Option.eq_none_iff_forall_ne_some.mpr
  rintro ⟨s', j'⟩ hadv
  obtain ⟨q, r', y, w, he, _, _, hr⟩ := (serving_step hadv).create rfl
  obtain rfl : q = r := by simpa using he.symm
  rw [CreateOrder.advance_done hp] at hr
  cases hr

/-- The call that took a step in a run, and the call that it has become at the end. -/
theorem exists_job_of_step (h : (serving d).machine.Run c as c')
    (has : as = bs ++ .advance i x :: cs) (h₁ : (serving d).machine.Run c bs c₁)
    (h₂ : (serving d).machine.step c₁ (.advance i x) = some c₂) :
    (serving d).machine.Run c₂ cs c' ∧ ∃ j j', c₁.procs[i]? = some j ∧ c₂.procs[i]? = some j' ∧
      JobStep d c₁.store j x c₂.store j' := by
  subst has
  obtain ⟨c₃, h₃, hrest⟩ := h.exists_of_append
  obtain rfl := Machine.Run.unique h₃ h₁
  cases hrest with
  | cons _ hs hrest =>
    obtain rfl := Option.some.inj (hs.symm.trans h₂)
    obtain ⟨j, s', j', hj, ha, rfl⟩ := Program.step_advance_iff.mp hs
    exact ⟨hrest, j, j', hj, List.getElem?_set_self (List.getElem?_eq_some_iff.mp hj).1,
      serving_step ha⟩

theorem not_mem_of_ended (hi : c.procs[i]? = some j)
    (hend : ∀ s x, (serving d).advance s j x = none) (h : (serving d).machine.Run c cs c')
    (y : JobChoice) : .advance i y ∉ cs := by
  intro hy
  obtain ⟨ds, es, rfl⟩ := List.append_of_mem hy
  obtain ⟨c₃, h₃, h₄⟩ := h.exists_of_append
  cases h₄ with
  | cons _ hs _ =>
    obtain ⟨q, s', q', hq, ha, _⟩ := Program.step_advance_iff.mp hs
    obtain rfl := Option.some.inj (hq.symm.trans (Program.getElem?_procs_of_run hi hend h₃))
    rw [hend] at ha
    cases ha

/-- A booking request that ends with a client error has not written in any of its steps. One of
`create_order` that fails has written at most in its last step, an audit row after an error of the
provider. -/
theorem failure_writes (hu : Unpaid w.db)
    (h : (serving d).machine.Run (Program.start (Platform.start w)) as c)
    (hi : c.procs[i]? = some j) (hf : j.failure? = some e) (has : as = bs ++ .advance i x :: cs)
    (h₁ : (serving d).machine.Run (Program.start (Platform.start w)) bs c₁)
    (h₂ : (serving d).machine.step c₁ (.advance i x) = some c₂) :
    (e.isClientError = true → c₂.store.world.db = c₁.store.world.db) ∧
    (j.isCreate = true → c₂.store.world.db = c₁.store.world.db ∨
      e.status = 502 ∧ (∀ y, .advance i y ∉ cs) ∧ ∃ row, c₂.store.world.db =
        { c₁.store.world.db with audit := c₁.store.world.db.audit ++ [row] }) := by
  have hsteady := steady_of_run h₁ (steady_start (s := Platform.start w) hu.coupled)
  have hsteady₂ := steady_of_run (G := fun _ _ => True) (.cons trivial h₂ (.nil c₂)) hsteady
  obtain ⟨hrest, q, q', hq, hq', hs⟩ := exists_job_of_step h has h₁ h₂
  constructor
  · intro hclient
    by_contra hne
    have hwrote := hs.wrote hsteady.1 (hsteady.2 q (List.mem_of_getElem? hq)) (Or.inr hne)
    obtain ⟨j', hj', hkept⟩ := job_of_run (J := Job.Wrote)
      (fun _ _ _ _ _ hc hv hs hw => hs.wrote hc hv (Or.inl hw)) hrest hsteady₂ hq' hwrote
    obtain rfl := Option.some.inj (hj'.symm.trans hi)
    rw [hkept.failure hf] at hclient
    cases hclient
  · intro hcreate
    -- The call is one of `create_order` at the step, and what has ended stays as it is.
    obtain ⟨j', hj', hsame⟩ := job_of_run (J := fun j => j.isCreate = q'.isCreate)
      (fun _ _ _ _ _ _ _ hs hj => hs.isCreate_eq.trans hj) hrest hsteady₂ hq' rfl
    obtain rfl := Option.some.inj (hj'.symm.trans hi)
    have hkind := hs.isCreate_eq.symm.trans (hsame.symm.trans hcreate)
    obtain ⟨r, r', y, w', rfl, rfl, hstore, hr⟩ := hs.create hkind
    rw [hstore, Platform.withWorld_world]
    rcases CreateOrder.advance_db hr with he | ⟨message, row, hp, he⟩ | ⟨order, hp⟩
    · exact Or.inl he
    · have hend := Program.getElem?_procs_of_run hq' (create_done hp) hrest
      obtain rfl := Option.some.inj (hend.symm.trans hi)
      simp only [Job.failure?, hp, Option.some.injEq] at hf
      subst hf
      exact Or.inr ⟨rfl, not_mem_of_ended hq' (create_done hp) hrest, row, he⟩
    · have hend := Program.getElem?_procs_of_run hq' (create_done hp) hrest
      obtain rfl := Option.some.inj (hend.symm.trans hi)
      simp [Job.failure?, hp] at hf

end Runs

namespace Example

/-- The provider refuses a booking. -/
def refusedSteps : List (Action Job JobChoice) :=
  bookJobs 0 [.spawn (createRequest "create"), .advance 0 (.inl .replay),
    .advance 0 (.inl (.checkOffer 100)), .advance 0 (.inl .call),
    .advance 0 (.inl (.raise ⟨"", "TimeoutError", true⟩))]

end Example

/-- The last step of the refused booking adds an audit row and nothing else. -/
theorem failure_writes_refused : ∃ c₁ c₂ : Serving,
    (serving Example.deployment).machine.step c₁
      (.advance 0 (.inr (.inr (.inl (.auditRefusal 5))))) = some c₂ ∧
    c₂.store.world.db.audit.length = 1 ∧
    (c₂.store.world.db = c₁.store.world.db ∨ ∃ row, c₂.store.world.db =
      { c₁.store.world.db with audit := c₁.store.world.db.audit ++ [row] }) := by
  have hrun : ((serving Example.deployment).machine.exec
      (Program.start (Platform.start Example.booked)) (Example.refusedSteps ++
        [.advance 0 (.inr (.inr (.inl (.auditRefusal 5))))])).map
      (fun c => (c.procs.map Job.failure?, c.procs.map Job.isCreate,
        c.store.world.db.audit.length)) =
      some ([some (.providerError "Airline provider rejected the booking")], [true], 1) := by
    decide +kernel
  obtain ⟨c, hc, he⟩ := Option.map_eq_some_iff.mp hrun
  simp only [Prod.mk.injEq] at he
  have h := Machine.exec_eq_some_iff.mp hc
  obtain ⟨c₁, h₁, hlast⟩ := h.exists_of_append
  obtain ⟨j, hprocs⟩ := List.length_eq_one_iff.mp
    (by simpa using congrArg List.length he.2.1 : c.procs.length = 1)
  rw [hprocs] at he
  cases hlast with
  | cons _ hs hnil =>
    cases hnil
    have hwrites := failure_writes Example.unpaid_booked h (by rw [hprocs]; rfl)
      (by simpa using he.1) rfl h₁ hs
    exact ⟨c₁, c, hs, he.2.2, (hwrites.2 (by simpa using he.2.1)).imp_right (·.2.2)⟩

end Ioka
