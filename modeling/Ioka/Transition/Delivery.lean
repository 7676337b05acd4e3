import Mathlib.Data.List.Nodup
import Mathlib.Data.List.Count
import Mathlib.Data.Set.Finite.Basic
import Ioka.Transition.Program
import Ioka.Transition.Simulation

/-! # Delivery at least once

A queue in front of a program. A message that a process publishes is delivered to a
consumer, which starts a process for it. It is unacknowledged until that process has ended
well; a message that is given back before, because its process failed or its consumer was
lost, is delivered again, and the process that it was given to may go on regardless.
-/

namespace Transition

/-- What a program publishes, and how its consumers handle it. -/
structure Intake (σ π μ : Type*) where
  /-- The messages published so far, in order. -/
  published : σ → List μ
  /-- The process that a consumer starts for a message that it can read. -/
  handler : μ → Option π
  /-- The processes that only consumers start. -/
  handles : π → Bool
  /-- The process has returned. -/
  settled : π → Bool
  /-- How many messages a consumer has at a time. -/
  prefetch : ℕ

/-- A message at a consumer, by its place in the queue, with the process it was given to. -/
structure Delivery where
  message : ℕ
  consumer : ℕ
  process : ℕ
  deriving DecidableEq

/-- The processes and the queue. -/
structure Delivering (σ π : Type*) where
  config : Config σ π
  unacked : List Delivery
  acked : List ℕ

inductive QueueAction (π χ : Type*)
  | serve (a : Action π χ)
  | deliver (message consumer : ℕ)
  | ack (d : Delivery)
  | giveBack (d : Delivery)

namespace Delivering

variable {σ π : Type*}

/-- Nothing has been delivered yet. -/
def start (c : Config σ π) : Delivering σ π := ⟨c, [], []⟩

/-- The places of the messages that are not with the queue any more. -/
def taken (c : Delivering σ π) : List ℕ := c.unacked.map Delivery.message ++ c.acked

/-- How many messages a consumer has. -/
def load (c : Delivering σ π) (consumer : ℕ) : ℕ := c.unacked.countP fun d => d.consumer = consumer

end Delivering

namespace Intake

variable {σ π χ μ : Type*} (Q : Intake σ π μ) (P : Program σ π χ)

/-- The action starts a process that only consumers start. -/
def starts : Action π χ → Bool
  | .spawn p => Q.handles p
  | .advance _ _ => false

/-- The process that the delivery of a message starts. -/
def handlerAt (c : Delivering σ π) (message : ℕ) : Option π :=
  (Q.published c.config.store)[message]?.bind Q.handler

/-- The process of a delivery has returned. -/
def returned (c : Delivering σ π) (d : Delivery) : Bool :=
  c.config.procs[d.process]?.any Q.settled

def machine : Machine (Delivering σ π) (QueueAction π χ) where
  step c
    | .serve a =>
      if Q.starts a then none
      else (P.machine.step c.config a).map fun c' => { c with config := c' }
    | .deliver message consumer =>
      if message ∈ c.taken ∨ Q.prefetch ≤ c.load consumer then none
      else (Q.handlerAt c message).bind fun p =>
        (P.machine.step c.config (.spawn p)).map fun c' => { c with
          config := c'
          unacked := c.unacked ++ [⟨message, consumer, c.config.procs.length⟩] }
    | .ack d =>
      if d ∈ c.unacked ∧ Q.returned c d then
        some { c with unacked := c.unacked.erase d, acked := c.acked ++ [d.message] }
      else none
    | .giveBack d =>
      if d ∈ c.unacked then some { c with unacked := c.unacked.erase d } else none

variable {Q P} {c c' : Delivering σ π} {a : Action π χ} {d : Delivery} {n k : ℕ}

theorem step_serve_iff : (Q.machine P).step c (.serve a) = some c' ↔
    Q.starts a = false ∧ ∃ e, P.machine.step c.config a = some e ∧ c' = { c with config := e } := by
  simp only [machine, Option.ite_none_left_eq_some, Option.map_eq_some_iff, eq_comm (a := c'),
    Bool.not_eq_true]

theorem step_deliver_iff : (Q.machine P).step c (.deliver n k) = some c' ↔
    n ∉ c.taken ∧ c.load k < Q.prefetch ∧ ∃ p, Q.handlerAt c n = some p ∧ P.fresh p = true ∧
      c' = ⟨⟨c.config.store, c.config.procs ++ [p]⟩,
        c.unacked ++ [⟨n, k, c.config.procs.length⟩], c.acked⟩ := by
  simp only [machine, Option.ite_none_left_eq_some, not_or, Nat.not_le, Option.bind_eq_some_iff,
    Option.map_eq_some_iff, Program.step_spawn_iff, and_assoc]
  constructor
  · rintro ⟨hn, hk, p, hp, e, hf, rfl, rfl⟩
    exact ⟨hn, hk, p, hp, hf, rfl⟩
  · rintro ⟨hn, hk, p, hp, hf, rfl⟩
    exact ⟨hn, hk, p, hp, _, hf, rfl, rfl⟩

theorem step_ack_iff : (Q.machine P).step c (.ack d) = some c' ↔
    d ∈ c.unacked ∧ Q.returned c d = true ∧
      c' = ⟨c.config, c.unacked.erase d, c.acked ++ [d.message]⟩ := by
  simp only [machine, Option.ite_none_right_eq_some, Option.some.injEq, eq_comm (a := c'),
    and_assoc]

theorem step_giveBack_iff : (Q.machine P).step c (.giveBack d) = some c' ↔
    d ∈ c.unacked ∧ c' = ⟨c.config, c.unacked.erase d, c.acked⟩ := by
  simp only [machine, Option.ite_none_right_eq_some, Option.some.injEq, eq_comm (a := c')]

/-! ## What the queue keeps -/

/-- A process that only consumers start is started for a published message. -/
def Admits (Q : Intake σ π μ) (e : Config σ π) (a : Action π χ) : Prop :=
  Q.starts a = true → ∃ m p, m ∈ Q.published e.store ∧ Q.handler m = some p ∧ a = .spawn p

/-- What holds of a program and its consumers: a process returns only when its message is
done with, and what is done with stays so. `about` says which message a process handles. -/
structure Sound (Q : Intake σ π μ) (P : Program σ π χ) (I : Config σ π → Prop)
    (about : π → μ → Prop) (Done : σ → μ → Prop) : Prop where
  invariant : ∀ e a e', Q.Admits e a → P.machine.step e a = some e' → I e → I e'
  published : ∀ e a e', P.machine.step e a = some e' →
    Q.published e.store <+: Q.published e'.store
  handler : ∀ m p, Q.handler m = some p → about p m
  handles : ∀ p m, about p m → Q.handles p = true
  about_unique : ∀ s p m m', m ∈ Q.published s → m' ∈ Q.published s → about p m → about p m' →
    m = m'
  about_advance : ∀ s p x s' p' m, P.advance s p x = some (s', p') → (about p' m ↔ about p m)
  stable : ∀ e a e' m, P.machine.step e a = some e' → I e → m ∈ Q.published e.store →
    Done e.store m → Done e'.store m
  settled : ∀ e p m, I e → p ∈ e.procs → m ∈ Q.published e.store → about p m →
    Q.settled p = true → Done e.store m

/-- What the queue keeps: no message is at two consumers, or at a consumer and acknowledged;
each delivery has its process; each acknowledged message is done with. -/
structure Kept (Q : Intake σ π μ) (I : Config σ π → Prop) (about : π → μ → Prop)
    (Done : σ → μ → Prop) (c : Delivering σ π) : Prop where
  config : I c.config
  exclusive : c.taken.Nodup
  capacity : ∀ k, c.load k ≤ Q.prefetch
  attached : ∀ d ∈ c.unacked, ∃ m p, (Q.published c.config.store)[d.message]? = some m ∧
    c.config.procs[d.process]? = some p ∧ about p m
  done : ∀ n ∈ c.acked, ∃ m, (Q.published c.config.store)[n]? = some m ∧ Done c.config.store m

section Kept

variable {I : Config σ π → Prop} {about : π → μ → Prop} {Done : σ → μ → Prop}
  {G : Delivering σ π → QueueAction π χ → Prop} {as : List (QueueAction π χ)}
  {e e' : Config σ π} {p : π} {m : μ} {i : ℕ}

theorem admits_of_not_starts (h : Q.starts a = false) : Q.Admits e a := by
  intro hs
  rw [h] at hs
  cases hs

theorem admits_handler (hm : (Q.published e.store)[n]? = some m) (hp : Q.handler m = some p) :
    Q.Admits e (.spawn p : Action π χ) :=
  fun _ => ⟨m, p, List.mem_of_getElem? hm, hp, rfl⟩

theorem kept_start (h : I e) : Q.Kept I about Done (Delivering.start e) where
  config := h
  exclusive := List.nodup_nil
  capacity _ := Nat.zero_le _
  attached _ hd := absurd hd List.not_mem_nil
  done _ hn := absurd hn List.not_mem_nil

theorem getElem?_grown {l l' : List μ} (h : l <+: l') (hn : l[n]? = some m) :
    l'[n]? = some m := by
  obtain ⟨r, rfl⟩ := h
  exact (List.getElem?_append_left (List.getElem?_eq_some_iff.mp hn).1).trans hn

theorem Sound.attached_step (hQ : Q.Sound P I about Done) (h : P.machine.step e a = some e')
    (hp : e.procs[i]? = some p) (hm : about p m) : ∃ p', e'.procs[i]? = some p' ∧ about p' m := by
  have hlt : i < e.procs.length := (List.getElem?_eq_some_iff.mp hp).1
  cases a with
  | spawn q =>
    obtain ⟨_, rfl⟩ := Program.step_spawn_iff.mp h
    exact ⟨p, (List.getElem?_append_left hlt).trans hp, hm⟩
  | advance j x =>
    obtain ⟨q, s', q', hq, ha, rfl⟩ := Program.step_advance_iff.mp h
    by_cases hij : j = i
    · subst hij
      obtain rfl : q = p := Option.some.inj (hq.symm.trans hp)
      exact ⟨q', List.getElem?_set_self hlt, (hQ.about_advance _ _ _ _ _ m ha).mpr hm⟩
    · exact ⟨p, (List.getElem?_set_ne hij).trans hp, hm⟩

/-- A step of the program keeps what the queue keeps. -/
theorem Sound.kept_config (hQ : Q.Sound P I about Done) (ha : Q.Admits c.config a)
    (h : P.machine.step c.config a = some e) (hc : Q.Kept I about Done c) :
    Q.Kept I about Done { c with config := e } where
  config := hQ.invariant _ _ _ ha h hc.config
  exclusive := hc.exclusive
  capacity := hc.capacity
  attached := by
    intro d hd
    obtain ⟨m, p, hm, hp, hab⟩ := hc.attached d hd
    obtain ⟨p', hp', hab'⟩ := hQ.attached_step h hp hab
    exact ⟨m, p', getElem?_grown (hQ.published _ _ _ h) hm, hp', hab'⟩
  done := by
    intro n hn
    obtain ⟨m, hm, hd⟩ := hc.done n hn
    exact ⟨m, getElem?_grown (hQ.published _ _ _ h) hm,
      hQ.stable _ _ _ m h hc.config (List.mem_of_getElem? hm) hd⟩

theorem load_erase (d : Delivery) : ({ c with unacked := c.unacked.erase d }).load k ≤ c.load k :=
  List.Sublist.countP_le List.erase_sublist

theorem taken_erase (hd : d ∈ c.unacked) :
    (d.message :: ((c.unacked.erase d).map Delivery.message ++ c.acked)).Perm c.taken := by
  have hperm := (List.perm_cons_erase hd).map Delivery.message
  rw [List.map_cons] at hperm
  rw [Delivering.taken]
  exact (hperm.symm.append_right c.acked)

theorem Sound.kept_step (hQ : Q.Sound P I about Done) {a : QueueAction π χ}
    (h : (Q.machine P).step c a = some c') (hc : Q.Kept I about Done c) :
    Q.Kept I about Done c' := by
  cases a with
  | serve a =>
    obtain ⟨hnot, e, he, rfl⟩ := step_serve_iff.mp h
    exact hQ.kept_config (admits_of_not_starts hnot) he hc
  | deliver n k =>
    obtain ⟨hn, hk, p, hp, hf, rfl⟩ := step_deliver_iff.mp h
    obtain ⟨m, hm, hhandler⟩ := Option.bind_eq_some_iff.mp hp
    have hstep : P.machine.step c.config (.spawn p) =
        some ⟨c.config.store, c.config.procs ++ [p]⟩ := Program.step_spawn_iff.mpr ⟨hf, rfl⟩
    have hc' := hQ.kept_config (admits_handler hm hhandler) hstep hc
    refine ⟨hc'.config, ?_, ?_, ?_, hc'.done⟩
    · have hnodup := List.nodup_cons.mpr ⟨hn, hc.exclusive⟩
      refine (List.Perm.nodup_iff ?_).mp hnodup
      simp only [Delivering.taken, List.map_append, List.map_cons, List.map_nil, List.append_assoc]
      exact List.perm_middle.symm
    · intro j
      have hj := hc.capacity j
      simp only [Delivering.load, List.countP_append, List.countP_singleton] at hk hj ⊢
      by_cases hjk : k = j
      · subst hjk
        simp only [decide_true, if_true]
        exact hk
      · simpa [hjk] using hj
    · intro d hd
      rcases List.mem_append.mp hd with hd | hd
      · exact hc'.attached d hd
      · rw [List.mem_singleton.mp hd]
        exact ⟨m, p, hm, List.getElem?_concat_length, hQ.handler m p hhandler⟩
  | ack d =>
    obtain ⟨hd, hr, rfl⟩ := step_ack_iff.mp h
    have hperm := taken_erase hd
    refine ⟨hc.config, ?_, fun j => Nat.le_trans (load_erase d) (hc.capacity j), ?_, ?_⟩
    · refine (List.Perm.nodup_iff ?_).mp (hperm.nodup_iff.mpr hc.exclusive)
      rw [Delivering.taken, ← List.append_assoc]
      exact (List.perm_append_singleton _ _).symm
    · exact fun d' hd' => hc.attached d' (List.mem_of_mem_erase hd')
    · intro n hn
      rcases List.mem_append.mp hn with hn | hn
      · exact hc.done n hn
      · obtain ⟨m, p, hm, hp, hab⟩ := hc.attached d hd
        rw [List.mem_singleton.mp hn]
        rw [returned, hp, Option.any_some] at hr
        exact ⟨m, hm, hQ.settled _ p m hc.config (List.mem_of_getElem? hp)
          (List.mem_of_getElem? hm) hab hr⟩
  | giveBack d =>
    obtain ⟨hd, rfl⟩ := step_giveBack_iff.mp h
    refine ⟨hc.config, ?_, fun j => Nat.le_trans (load_erase d) (hc.capacity j), ?_, hc.done⟩
    · exact ((taken_erase hd).nodup_iff.mpr hc.exclusive).of_cons
    · exact fun d' hd' => hc.attached d' (List.mem_of_mem_erase hd')

/-- The queue loses nothing: what it keeps holds after every run. -/
theorem Sound.kept_of_run (hQ : Q.Sound P I about Done) (h : (Q.machine P).RunWhere G c as c')
    (hc : Q.Kept I about Done c) : Q.Kept I about Done c' :=
  h.invariant (fun _ _ _ _ hs hc => hQ.kept_step hs hc) hc

end Kept

/-! ## The run of the program -/

/-- Each step of the queue is a step of the program that the queue admits, or none. -/
theorem simulates_config (Q : Intake σ π μ) (P : Program σ π χ)
    {G : Delivering σ π → QueueAction π χ → Prop} {H : Config σ π → Action π χ → Prop}
    {R : Delivering σ π → Prop}
    (hR : ∀ c a c', R c → G c a → (Q.machine P).step c a = some c' → R c')
    (hserve : ∀ c a, R c → G c (.serve a) → Q.starts a = false → H c.config a)
    (hdeliver : ∀ c n k m p, R c → G c (.deliver n k) → (Q.published c.config.store)[n]? = some m →
      Q.handler m = some p → H c.config (.spawn p)) :
    (Q.machine P).Simulates G P.machine H fun c e => R c ∧ e = c.config := by
  rintro c a c' e ⟨hc, rfl⟩ hg hs
  have hc' := hR c a c' hc hg hs
  cases a with
  | serve a =>
    obtain ⟨hnot, e, he, rfl⟩ := step_serve_iff.mp hs
    exact ⟨[a], e, .cons (hserve c a hc hg hnot) he (.nil e), hc', rfl⟩
  | deliver n k =>
    obtain ⟨_, _, p, hp, hf, rfl⟩ := step_deliver_iff.mp hs
    obtain ⟨m, hm, hhandler⟩ := Option.bind_eq_some_iff.mp hp
    have hstep : P.machine.step c.config (.spawn p) =
        some ⟨c.config.store, c.config.procs ++ [p]⟩ := Program.step_spawn_iff.mpr ⟨hf, rfl⟩
    exact ⟨[.spawn p], _, .cons (hdeliver c n k m p hc hg hm hhandler) hstep (.nil _), hc', rfl⟩
  | ack d =>
    obtain ⟨_, _, rfl⟩ := step_ack_iff.mp hs
    exact ⟨[], c.config, .nil _, hc', rfl⟩
  | giveBack d =>
    obtain ⟨_, rfl⟩ := step_giveBack_iff.mp hs
    exact ⟨[], c.config, .nil _, hc', rfl⟩

/-! ## One process at a time -/

/-- A process that a consumer started goes on only while its message is with the consumer. -/
def attachedOnly (Q : Intake σ π μ) (c : Delivering σ π) : QueueAction π χ → Bool
  | .serve (.advance i _) => c.config.procs[i]?.all fun p =>
    !Q.handles p || c.unacked.any fun d => d.process = i
  | _ => true

/-- No process behind that of a delivery handles the same message. -/
def Latest (Q : Intake σ π μ) (about : π → μ → Prop) (c : Delivering σ π) : Prop :=
  ∀ d ∈ c.unacked, ∀ i p m, (Q.published c.config.store)[d.message]? = some m →
    c.config.procs[i]? = some p → about p m → i ≤ d.process

section Latest

variable {I : Config σ π → Prop} {about : π → μ → Prop} {Done : σ → μ → Prop} {p : π} {m : μ}
  {i : ℕ}

theorem latest_start (e : Config σ π) : Q.Latest about (Delivering.start e) :=
  fun _ hd => absurd hd List.not_mem_nil

theorem Sound.latest_step (hQ : Q.Sound P I about Done)
    (hnodup : ∀ e, I e → (Q.published e.store).Nodup) {a : QueueAction π χ}
    (h : (Q.machine P).step c a = some c') (hc : Q.Kept I about Done c)
    (hl : Q.Latest about c) : Q.Latest about c' := by
  cases a with
  | serve a =>
    obtain ⟨hnot, e, he, rfl⟩ := step_serve_iff.mp h
    intro d hd i p m hm hp hab
    -- The message was published before the step, and so is the process that handles it.
    obtain ⟨m₀, _, hm₀, _, _⟩ := hc.attached d hd
    obtain rfl : m₀ = m :=
      Option.some.inj ((getElem?_grown (hQ.published _ _ _ he) hm₀).symm.trans hm)
    cases a with
    | spawn q =>
      obtain ⟨_, rfl⟩ := Program.step_spawn_iff.mp he
      rcases Program.getElem?_concat hp with hp | ⟨_, rfl⟩
      · exact hl d hd i p m₀ hm₀ hp hab
      · rw [starts, hQ.handles p m₀ hab] at hnot
        cases hnot
    | advance j x =>
      obtain ⟨q, s', q', hq, ha, rfl⟩ := Program.step_advance_iff.mp he
      by_cases hij : j = i
      · subst hij
        have hlt : j < c.config.procs.length := (List.getElem?_eq_some_iff.mp hq).1
        obtain rfl : q' = p := Option.some.inj ((List.getElem?_set_self hlt).symm.trans hp)
        exact hl d hd j q m₀ hm₀ hq ((hQ.about_advance _ _ _ _ _ m₀ ha).mp hab)
      · exact hl d hd i p m₀ hm₀ ((List.getElem?_set_ne hij).symm.trans hp) hab
  | deliver n k =>
    obtain ⟨hn, _, p, hp, _, rfl⟩ := step_deliver_iff.mp h
    obtain ⟨m, hm, hhandler⟩ := Option.bind_eq_some_iff.mp hp
    intro d hd i q m' hm' hq hab
    have hi : i ≤ c.config.procs.length := by
      have hlt := (List.getElem?_eq_some_iff.mp hq).1
      rw [List.length_append, List.length_singleton] at hlt
      exact Nat.lt_succ_iff.mp hlt
    rcases List.mem_append.mp hd with hold | hnew
    · rcases Program.getElem?_concat hq with hq | ⟨_, rfl⟩
      · exact hl d hold i q m' hm' hq hab
      · -- The new process handles another message than an unacknowledged one.
        obtain rfl := hQ.about_unique _ q m m' (List.mem_of_getElem? hm)
          (List.mem_of_getElem? hm') (hQ.handler m q hhandler) hab
        have hsame : n = d.message := by
          have hlt := (List.getElem?_eq_some_iff.mp hm).1
          exact (List.getElem?_inj hlt (hnodup _ hc.config)).mp (hm.trans hm'.symm)
        have hmem : d.message ∈ c.taken := List.mem_append_left _ (List.mem_map_of_mem hold)
        exact absurd (hsame ▸ hmem) hn
    · rw [List.mem_singleton.mp hnew]
      exact hi
  | ack d =>
    obtain ⟨_, _, rfl⟩ := step_ack_iff.mp h
    exact fun d' hd' => hl d' (List.mem_of_mem_erase hd')
  | giveBack d =>
    obtain ⟨_, rfl⟩ := step_giveBack_iff.mp h
    exact fun d' hd' => hl d' (List.mem_of_mem_erase hd')

/-- Where processes stop when their message is given back, a process that goes on is the last
one that handles its message. -/
theorem last_of_attached {x : χ} (hc : Q.Kept I about Done c)
    (hl : Q.Latest about c) (hg : Q.attachedOnly c (.serve (.advance i x)) = true)
    (hp : c.config.procs[i]? = some p) (hh : Q.handles p = true) :
    ∃ m, about p m ∧ ∀ k q, c.config.procs[k]? = some q → about q m → k ≤ i := by
  rw [attachedOnly, hp, Option.all_some, hh, Bool.not_true, Bool.false_or, List.any_eq_true] at hg
  obtain ⟨d, hd, hi⟩ := hg
  obtain rfl : d.process = i := of_decide_eq_true hi
  obtain ⟨m, p', hm, hp', hab⟩ := hc.attached d hd
  obtain rfl : p' = p := Option.some.inj (hp'.symm.trans hp)
  exact ⟨m, hab, fun k q hq habq => hl d hd k q m hm hq habq⟩

end Latest

/-! ## What the queue can still do -/

section Progress

variable {I : Config σ π → Prop} {about : π → μ → Prop} {Done : σ → μ → Prop} {e : Config σ π}
  {p : π} {m : μ} {i : ℕ}

theorem exists_idle (c : Delivering σ π) : ∃ k, c.load k = 0 := by
  obtain ⟨k, hk⟩ := Infinite.exists_notMem_finset (c.unacked.map Delivery.consumer).toFinset
  refine ⟨k, List.countP_eq_zero.mpr fun d hd hdk => hk ?_⟩
  rw [List.mem_toFinset, ← of_decide_eq_true hdk]
  exact List.mem_map_of_mem hd

theorem exists_deliver (hm : (Q.published c.config.store)[n]? = some m)
    (hp : Q.handler m = some p) (hf : P.fresh p = true) (hpre : 0 < Q.prefetch)
    (hn : n ∉ c.taken) : ∃ k c', (Q.machine P).step c (.deliver n k) = some c' ∧
      c' = ⟨⟨c.config.store, c.config.procs ++ [p]⟩,
        c.unacked ++ [⟨n, k, c.config.procs.length⟩], c.acked⟩ := by
  obtain ⟨k, hk⟩ := exists_idle c
  refine ⟨k, _, step_deliver_iff.mpr ⟨hn, hk ▸ hpre, p, ?_, hf, rfl⟩, rfl⟩
  rw [handlerAt, hm, Option.bind_some, hp]

theorem exists_redeliver (hexc : c.taken.Nodup) (hm : (Q.published c.config.store)[n]? = some m)
    (hp : Q.handler m = some p) (hf : P.fresh p = true) (hpre : 0 < Q.prefetch)
    (hn : n ∉ c.acked) : ∃ as k unacked, (Q.machine P).Run c as
      ⟨⟨c.config.store, c.config.procs ++ [p]⟩,
        unacked ++ [⟨n, k, c.config.procs.length⟩], c.acked⟩ ∧ as.length ≤ 2 := by
  by_cases hu : n ∈ c.unacked.map Delivery.message
  · obtain ⟨d, hd, rfl⟩ := List.mem_map.mp hu
    have hback : (Q.machine P).step c (.giveBack d) = some ⟨c.config, c.unacked.erase d, c.acked⟩ :=
      step_giveBack_iff.mpr ⟨hd, rfl⟩
    have hfree : d.message ∉ (c.unacked.erase d).map Delivery.message ++ c.acked :=
      (List.nodup_cons.mp ((taken_erase hd).nodup_iff.mpr hexc)).1
    obtain ⟨k, c', hs, rfl⟩ := exists_deliver (P := P)
      (c := ⟨c.config, c.unacked.erase d, c.acked⟩) hm hp hf hpre hfree
    exact ⟨_, k, _, .cons trivial hback (.cons trivial hs (.nil _)), le_rfl⟩
  · have hfree : n ∉ c.taken := by
      rw [Delivering.taken, List.mem_append]
      exact not_or.mpr ⟨hu, hn⟩
    obtain ⟨k, c', hs, rfl⟩ := exists_deliver (P := P) hm hp hf hpre hfree
    exact ⟨_, k, _, .cons trivial hs (.nil _), Nat.le_succ 1⟩

theorem serve_run {xs : List χ} (h : P.machine.Run c.config (xs.map (.advance i)) e) :
    (Q.machine P).Run c (xs.map fun x => .serve (.advance i x)) { c with config := e } := by
  induction xs generalizing c with
  | nil =>
    cases h
    exact .nil _
  | cons x xs ih =>
    cases h with
    | @cons _ t _ _ _ _ hs hrest =>
      have hstep : (Q.machine P).step c (.serve (.advance i x)) = some { c with config := t } :=
        step_serve_iff.mpr ⟨rfl, t, hs, rfl⟩
      exact .cons trivial hstep (ih (c := { c with config := t }) hrest)

/-- A message that is not acknowledged can be handled by the steps its process takes alone, and
acknowledged. -/
theorem exists_acked {xs : List χ} {t : σ × π} (hexc : c.taken.Nodup)
    (hm : (Q.published c.config.store)[n]? = some m) (hp : Q.handler m = some p)
    (hf : P.fresh p = true) (hpre : 0 < Q.prefetch) (hn : n ∉ c.acked)
    (h : P.alone.Run (c.config.store, p) xs t) (hr : Q.settled t.2 = true) :
    ∃ as c', (Q.machine P).Run c as c' ∧ as.length ≤ xs.length + 3 ∧
      (∀ x ∈ xs, .serve (.advance c.config.procs.length x) ∈ as) ∧
      c'.acked = c.acked ++ [n] ∧ c'.config = ⟨t.1, c.config.procs ++ [t.2]⟩ := by
  obtain ⟨as, k, unacked, hdeliver, hlen⟩ := exists_redeliver hexc hm hp hf hpre hn
  let d : Delivery := ⟨n, k, c.config.procs.length⟩
  let c₁ : Delivering σ π :=
    ⟨⟨c.config.store, c.config.procs ++ [p]⟩, unacked ++ [d], c.acked⟩
  have hproc : c₁.config.procs[c.config.procs.length]? = some p := List.getElem?_concat_length
  have hserve := serve_run (Q := Q) (c := c₁) (Program.run_of_alone hproc h)
  have hack : (Q.machine P).step
      { c₁ with config := ⟨t.1, c₁.config.procs.set c.config.procs.length t.2⟩ } (.ack d) =
        some ⟨⟨t.1, c₁.config.procs.set c.config.procs.length t.2⟩,
          (unacked ++ [d]).erase d, c.acked ++ [n]⟩ := by
    refine step_ack_iff.mpr ⟨List.mem_append_right _ (List.mem_singleton.mpr rfl), ?_, rfl⟩
    have hlt : c.config.procs.length < c₁.config.procs.length :=
      (List.getElem?_eq_some_iff.mp hproc).1
    rw [returned, List.getElem?_set_self hlt, Option.any_some, hr]
  refine ⟨_, _, hdeliver.append (hserve.append (.cons trivial hack (.nil _))), ?_, ?_, rfl, ?_⟩
  · simp only [List.length_append, List.length_map, List.length_singleton]
    omega
  · intro x hx
    exact List.mem_append_right _ (List.mem_append_left _ (List.mem_map_of_mem hx))
  · rw [List.set_append_right _ _ (Nat.le_refl _), Nat.sub_self]
    rfl

end Progress

end Intake

end Transition
