import Ioka.Platform.Growth

/-! # Reachable states of the booking service

What a step does to the store whichever request takes it, and what a request
may rely on between two of its blocks. Both survive the steps of all other
requests, so an invariant of the store has to be checked on effects only.
-/

namespace Ioka

open Relational Transition

/-! ## Effects -/

/-- The event is a provider call that the request is about to make. -/
def Event.CalledBy : Event → Request → Prop
  | .bookCalled providerOfferId key, .inl r =>
    ∃ offer, r.phase = .offered offer ∧ offer.providerOfferId = providerOfferId ∧
      r.idempotencyKey = key
  | .issueCalled orderId providerBookingId key, .inr r =>
    r.phase = .held providerBookingId ∧ r.orderId = orderId ∧ r.idempotencyKey = key
  | _, _ => False

/-- The request is at the block that the phase names. -/
def Phase.Of : Phase → IssueOrder → Prop
  | .hold key, r => r.phase = .requested ∧ r.idempotencyKey = key
  | .capture ticket, r => ∃ given, r.phase = .ticketed given ∧ given.kept = some ticket
  | .release, r => ∃ e, r.phase = .refused e

/-- What a step of a request does to the store. -/
inductive Effect (sha256 : String → String) (w : World) : Request → World → Prop
  | quiet {p : Request} {audit : List AuditLog} {es : List Event} : (∀ e ∈ es, e.CalledBy p) →
      Effect sha256 w p (w.commit { w.db with audit := audit } es)
  | moved {r : IssueOrder} {db' : Database} {phase : Phase} {a : Agent} {o o' : Order}
      {t? : Option BalanceTransaction} {t' : BalanceTransaction} {es : List Event} :
      phase.Of r → o.id = r.orderId → a.id = r.agentId → Moved phase w.db db' a o o' t? t' es →
      Effect sha256 w (.inr r) (w.commit db' es)
  | created {r : CreateOrder} {db' : Database} {orderId : String} {offer : Offer}
      {booking : ProviderBooking} :
      (∃ given, r.phase = .booked offer given ∧ given.kept = some booking) → offer ∈ w.db.offers →
      Created w.db db' (newOrder orderId r.agentId r.payload offer booking)
        (newRecord r.agentId r.idempotencyKey (r.payloadHash sha256) orderId) →
      Effect sha256 w (.inl r)
        (w.commit db' [.orderCommitted r.agentId r.idempotencyKey r.payload orderId])

section Quiet

variable {sha256 : String → String} {w : World} {p : Request} {e : Event}

theorem Effect.same : Effect sha256 w p w := by
  have h : Effect sha256 w p (w.commit { w.db with audit := w.db.audit } []) := .quiet (by simp)
  rwa [World.commit_self] at h

theorem Effect.called (he : e.CalledBy p) : Effect sha256 w p (w.called e) := by
  have h : Effect sha256 w p (w.commit { w.db with audit := w.db.audit } [e]) :=
    .quiet (by simpa using he)
  exact h

end Quiet

/-- What a database keeps while only bookings go on. -/
structure Extends (db db' : Database) : Prop where
  agents : ∀ a ∈ db.agents, ∃ b ∈ db'.agents, b.id = a.id ∧ b.currency = a.currency
  orders : ∀ o ∈ db.orders, ∃ p ∈ db'.orders, SameBooking o p
  transactions : ∀ t ∈ db.transactions, ∃ u ∈ db'.transactions, SamePayment t u
  records : ∀ r ∈ db.records, r ∈ db'.records
  searches : db'.searches = db.searches
  offers : db'.offers = db.offers

namespace Extends

variable {db db' db'' : Database}

theorem refl (db : Database) : Extends db db where
  agents a ha := ⟨a, ha, rfl, rfl⟩
  orders o ho := ⟨o, ho, .refl o⟩
  transactions t ht := ⟨t, ht, .refl t⟩
  records _ hr := hr
  searches := rfl
  offers := rfl

theorem trans (h : Extends db db') (h' : Extends db' db'') : Extends db db'' where
  agents a ha := by
    obtain ⟨b, hb, hid, hcur⟩ := h.agents a ha
    obtain ⟨c, hc, hid', hcur'⟩ := h'.agents b hb
    exact ⟨c, hc, hid'.trans hid, hcur'.trans hcur⟩
  orders o ho := by
    obtain ⟨p, hp, hop⟩ := h.orders o ho
    obtain ⟨q, hq, hpq⟩ := h'.orders p hp
    exact ⟨q, hq, hop.trans hpq⟩
  transactions t ht := by
    obtain ⟨u, hu, htu⟩ := h.transactions t ht
    obtain ⟨v, hv, huv⟩ := h'.transactions u hu
    exact ⟨v, hv, htu.trans huv⟩
  records r hr := h'.records r (h.records r hr)
  searches := h'.searches.trans h.searches
  offers := h'.offers.trans h.offers

theorem grows (h : Extends db db') : Grows db db' where
  agents := h.agents
  searches s hs := ⟨s, by rwa [h.searches], .refl s⟩
  offers o ho := by rwa [h.offers]
  orders := h.orders
  transactions := h.transactions
  records := h.records

end Extends

theorem Moved.extends {phase : Phase} {db db' : Database} {a : Agent} {o o' : Order}
    {t? : Option BalanceTransaction} {t' : BalanceTransaction} {es : List Event}
    (h : Moved phase db db' a o o' t? t' es) (h₁ : OnePayment db) : Extends db db' where
  agents b hb := by
    by_cases hid : b.id = a.id
    · obtain rfl := Database.agent_ext hb h.agent_mem hid
      exact ⟨_, h.mem_agents.mpr (Or.inl rfl), rfl, rfl⟩
    · exact ⟨b, h.mem_agents.mpr (Or.inr ⟨hb, hid⟩), rfl, rfl⟩
  orders p hp := by
    by_cases hid : p.id = o.id
    · obtain rfl := Database.order_ext hp h.order_mem hid
      exact ⟨o', h.mem_orders.mpr (Or.inl rfl), h.move.sameBooking⟩
    · exact ⟨p, h.mem_orders.mpr (Or.inr ⟨hp, hid⟩), .refl p⟩
  transactions u hu := by
    by_cases hid : u.orderId = o.id
    · have ht : t? = some u :=
        h.payment.symm.trans (h₁.transactionOf_eq_some.mpr ⟨hu, hid⟩)
      subst ht
      exact ⟨t', (h.mem_transactions h₁).mpr (Or.inl rfl), h.move.samePayment⟩
    · exact ⟨u, (h.mem_transactions h₁).mpr (Or.inr ⟨hu, hid⟩), .refl u⟩
  records r hr := by rwa [h.records]
  searches := h.searches
  offers := h.offers

theorem Created.extends {db db' : Database} {o : Order} {r : IdempotencyRecord}
    (h : Created db db' o r) : Extends db db' where
  agents a ha := ⟨a, by rwa [h.agents], rfl, rfl⟩
  orders p hp := ⟨p, h.mem_orders.mpr (Or.inl hp), .refl p⟩
  transactions t ht := ⟨t, by rwa [h.transactions], .refl t⟩
  records r hr := by simp [Table.mem_def, h.records, Table.mem_def.mp hr]
  searches := h.searches
  offers := h.offers

section Effect

variable {sha256 : String → String} {w w' : World} {p : Request}

theorem Effect.extends (h : Effect sha256 w p w') (hc : Coupled w.db) : Extends w.db w'.db := by
  cases h with
  | quiet =>
    have hx := Extends.refl w.db
    exact ⟨hx.agents, hx.orders, hx.transactions, hx.records, rfl, rfl⟩
  | moved _ _ _ hm => exact hm.extends hc.onePayment
  | created _ _ hcr => exact hcr.extends

theorem Effect.coupled (h : Effect sha256 w p w') (hc : Coupled w.db) : Coupled w'.db := by
  cases h with
  | quiet => exact ⟨hc.onePayment, hc.orderOf, hc.standing⟩
  | moved _ _ _ hm => exact hm.coupled hc
  | created _ _ hcr => exact hcr.coupled (newOrder_new ..) hc

end Effect

/-! ## What requests rely on -/

/-- The offer that a request has read is stored. -/
def CreateOrder.Valid (db : Database) (r : CreateOrder) : Prop :=
  match r.phase with
  | .offered offer | .booking offer | .booked offer _ | .refused offer _ => offer ∈ db.offers
  | _ => True

/-- The rows that a request has locked in its hold are still there. -/
structure IssueOrder.Pending (db : Database) (r : IssueOrder) : Prop where
  order : ∃ o ∈ db.orders, o.id = r.orderId ∧ o.agentId = r.agentId ∧
    (r.idempotencyKey ≠ "" → o.issueIdempotencyKey = some r.idempotencyKey) ∧
    ∀ b, r.phase = .held b ∨ r.phase = .issuing b → o.providerBookingId = b
  agent : ∃ a ∈ db.agents, a.id = r.agentId
  payment : ∃ t ∈ db.transactions, t.orderId = r.orderId

theorem IssueOrder.Pending.owns {db : Database} {r : IssueOrder} (h : r.Pending db) :
    r.Owns db := by
  obtain ⟨o, ho, hid, hown, _⟩ := h.order
  exact ⟨o, ho, hid, hown⟩

def Request.Valid (db : Database) (p : Request) : Prop :=
  p.elim (fun r => r.Valid db) fun r => r.Active → r.Pending db

section Requests

variable {sha256 : String → String} {w w' : World} {db db' : Database} {p p' : Request}

theorem Request.Valid.owns (h : p.Valid db) : ∀ r, p = .inr r → r.Active → r.Owns db := by
  rintro r rfl ha
  exact (h ha).owns

theorem Request.Valid.mono (h : p.Valid db) (hx : Grows db db') : p.Valid db' := by
  rcases p with r | r
  · obtain ⟨_, _, _, phase⟩ := r
    cases phase with
    | offered offer | booking offer | booked offer | refused offer => exact hx.offers offer h
    | _ => trivial
  · intro ha
    obtain ⟨⟨o, ho, hid, hown, hkey, hb⟩, ⟨a, ham, haid⟩, ⟨t, ht, hto⟩⟩ := h ha
    obtain ⟨o', ho', hs⟩ := hx.orders o ho
    obtain ⟨a', ham', hid', _⟩ := hx.agents a ham
    obtain ⟨t', ht', hp⟩ := hx.transactions t ht
    refine ⟨⟨o', ho', hs.id.trans hid, hs.agentId.trans hown, ?_, ?_⟩,
      ⟨a', ham', hid'.trans haid⟩, ⟨t', ht', hp.orderId.trans hto⟩⟩
    · intro hk
      exact hs.key _ hk (hkey hk)
    · intro b hph
      exact hs.providerBookingId.trans (hb b hph)

theorem Request.valid_of_fresh (h : (booking sha256).fresh p = true) : p.Valid db := by
  rcases p with r | r
  · have hp : r.phase = .requested := (booking_fresh_create sha256).mp h
    simp [Valid, CreateOrder.Valid, hp]
  · have hp : r.phase = .requested := (booking_fresh_issue sha256).mp h
    simp [Valid, IssueOrder.Active, hp]

theorem CreateStep.effect {r r' : CreateOrder} (h : CreateStep sha256 w r w' r')
    (hv : r.Valid w.db) : Effect sha256 w (.inl r) w' ∧ r'.Valid w'.db := by
  cases h with
  | replayed => exact ⟨.same, trivial⟩
  | failed => exact ⟨.same, trivial⟩
  | unseen => exact ⟨.same, trivial⟩
  | offered _ ho => exact ⟨.same, createOrderOffer_mem ho⟩
  | @called offer hp =>
    exact ⟨.called ⟨offer, hp, rfl, rfl⟩, by simpa [CreateOrder.Valid, hp] using hv⟩
  | answered hp => exact ⟨.same, by simpa [CreateOrder.Valid, hp] using hv⟩
  | raised hp => exact ⟨.same, by simpa [CreateOrder.Valid, hp] using hv⟩
  | audited _ hr =>
    obtain ⟨_, rfl⟩ := createOrderRefused_eq_ok.mp hr
    exact ⟨.quiet (by simp), trivial⟩
  | conflicted => exact ⟨.same, trivial⟩
  | committed hp hk hc =>
    exact ⟨.created ⟨_, hp, hk⟩ (by simpa [CreateOrder.Valid, hp] using hv) hc, trivial⟩

theorem IssueStep.effect {r r' : IssueOrder} (h : IssueStep w r w' r')
    (hv : r.Active → r.Pending w.db) (hc : Coupled w.db) :
    Effect sha256 w (.inr r) w' ∧ (r'.Active → r'.Pending w'.db) := by
  cases h with
  | failed => exact ⟨.same, False.elim⟩
  | found => exact ⟨.same, False.elim⟩
  | @held db' a o t' debit hp ho ha hm =>
    have hph : (Phase.hold r.idempotencyKey).Of r := ⟨hp, rfl⟩
    refine ⟨.moved hph ho ha hm, fun _ => ⟨?_, ?_, ?_⟩⟩
    · refine ⟨o.holding r.idempotencyKey, hm.mem_orders.mpr (Or.inl rfl), ho,
        hm.owner.trans ha, fun _ => rfl, ?_⟩
      rintro b (hb | hb)
      · exact IssuePhase.held.inj hb
      · cases hb
    · exact ⟨_, hm.mem_agents.mpr (Or.inl rfl), ha⟩
    · exact ⟨t', (hm.mem_transactions hc.onePayment).mpr (Or.inl rfl), hm.orderId.trans ho⟩
  | @called b hp =>
    obtain ⟨⟨o, ho, hid, hown, hkey, hb⟩, h₂, h₃⟩ := hv (by simp [IssueOrder.Active, hp])
    refine ⟨.called ⟨hp, rfl, rfl⟩, fun _ => ⟨⟨o, ho, hid, hown, hkey, ?_⟩, h₂, h₃⟩⟩
    rintro b' (hb' | hb')
    · cases hb'
    · exact (hb b (Or.inl hp)).trans (IssuePhase.issuing.inj hb')
  | answered hp =>
    obtain ⟨⟨o, ho, hid, hown, hkey, _⟩, h₂, h₃⟩ := hv (by simp [IssueOrder.Active, hp])
    exact ⟨.same, fun _ => ⟨⟨o, ho, hid, hown, hkey, by simp⟩, h₂, h₃⟩⟩
  | raised hp =>
    obtain ⟨⟨o, ho, hid, hown, hkey, _⟩, h₂, h₃⟩ := hv (by simp [IssueOrder.Active, hp])
    exact ⟨.same, fun _ => ⟨⟨o, ho, hid, hown, hkey, by simp⟩, h₂, h₃⟩⟩
  | unreleased => exact ⟨.same, False.elim⟩
  | released hp ho ha hm =>
    have hph : Phase.release.Of r := ⟨_, hp⟩
    exact ⟨.moved hph ho ha hm, False.elim⟩
  | recaptured => exact ⟨.same, False.elim⟩
  | @captured _ kept _ _ _ _ hp hk ho ha hm =>
    have hph : (Phase.capture kept).Of r := ⟨_, hp, hk⟩
    exact ⟨.moved hph ho ha hm, False.elim⟩

/-- A request goes on with another phase, and with the same arguments. -/
inductive Request.Continues : Request → Request → Prop
  | create (r : CreateOrder) (phase : CreatePhase) :
      Continues (.inl r) (.inl { r with phase := phase })
  | issue (r : IssueOrder) (phase : IssuePhase) :
      Continues (.inr r) (.inr { r with phase := phase })

theorem CreateStep.continues {r r' : CreateOrder} (h : CreateStep sha256 w r w' r') :
    Request.Continues (.inl r) (.inl r') := by
  cases h <;> exact .create r _

theorem IssueStep.continues {r r' : IssueOrder} (h : IssueStep w r w' r') :
    Request.Continues (.inr r) (.inr r') := by
  cases h <;> exact .issue r _

/-- A step of a request has an effect and leaves the request what it relies on. -/
theorem booking_effect {x : Choice} (h : (booking sha256).advance w p x = some (w', p'))
    (hv : p.Valid w.db) (hc : Coupled w.db) :
    Effect sha256 w p w' ∧ p'.Valid w'.db ∧ p.Continues p' := by
  rcases booking_step hv.owns h with ⟨r, r', rfl, rfl, hs⟩ | ⟨r, r', rfl, rfl, hs⟩
  · obtain ⟨he, hv'⟩ := hs.effect hv
    exact ⟨he, hv', hs.continues⟩
  · obtain ⟨he, hv'⟩ := hs.effect hv hc
    exact ⟨he, hv', hs.continues⟩

end Requests

/-! ## Runs -/

/-- The store is coupled, and every request has what it relies on. -/
def Sound (c : Booking) : Prop :=
  Program.Holds (fun w => Coupled w.db) (fun w p => Request.Valid w.db p) c

section Runs

variable {sha256 : String → String} {c c' : Booking} {a : Action Request Choice}
  {as : List (Action Request Choice)} {G : Booking → Action Request Choice → Prop}

theorem sound_start {w : World} (h : Coupled w.db) : Sound (Program.start w) :=
  Program.holds_start h

theorem sound_of_run (h : (booking sha256).machine.RunWhere G c as c') (hc : Sound c) :
    Sound c' := by
  refine Program.holds_of_run ?_ ?_ h hc
  · intro c p _ hf _
    exact Request.valid_of_fresh hf
  · intro c i x p s' p' _ _ ha hI hJ
    obtain ⟨he, hp', _⟩ := booking_effect ha hJ hI
    exact ⟨he.coupled hI, hp', fun q _ hq => hq.mono (he.extends hI).grows⟩

theorem sound_of_step (h : (booking sha256).machine.step c a = some c') (hc : Sound c) :
    Sound c' :=
  sound_of_run (G := fun _ _ => True) (.cons trivial h (.nil c')) hc

theorem effect_of_step (h : (booking sha256).machine.step c a = some c') (hc : Sound c) :
    (∃ p, a = .spawn p ∧ c' = ⟨c.store, c.procs ++ [p]⟩) ∨
    ∃ i x p p', a = .advance i x ∧ c.procs[i]? = some p ∧ p.Valid c.store.db ∧
      Effect sha256 c.store p c'.store ∧ p.Continues p' ∧ c'.procs = c.procs.set i p' := by
  cases a with
  | spawn p =>
    obtain ⟨_, rfl⟩ := Program.step_spawn_iff.mp h
    exact Or.inl ⟨p, rfl, rfl⟩
  | advance i x =>
    obtain ⟨p, s', p', hp, ha, rfl⟩ := Program.step_advance_iff.mp h
    have hv := hc.2 p (List.mem_of_getElem? hp)
    obtain ⟨he, _, hcont⟩ := booking_effect ha hv hc.1
    exact Or.inr ⟨i, x, p, p', rfl, hp, hv, he, hcont, rfl⟩

/-- An invariant of the store that every effect of the admitted requests preserves. -/
theorem invariant_of_requests {I : World → Prop} {K : Request → Prop}
    (hspawn : ∀ c p, G c (.spawn p) → K p) (hcont : ∀ p p', p.Continues p' → K p → K p')
    (hstep : ∀ w p w', Coupled w.db → p.Valid w.db → K p → Effect sha256 w p w' → I w → I w')
    (h : (booking sha256).machine.RunWhere G c as c') (hc : Sound c)
    (hK : ∀ p ∈ c.procs, K p) (hI : I c.store) : I c'.store := by
  refine (h.invariant (I := fun c => Sound c ∧ (∀ p ∈ c.procs, K p) ∧ I c.store) ?_
    ⟨hc, hK, hI⟩).2.2
  rintro c a c' hg hs ⟨hc, hK, hI⟩
  refine ⟨sound_of_step hs hc, ?_⟩
  rcases effect_of_step hs hc with ⟨p, rfl, rfl⟩ | ⟨i, x, p, p', _, hp, hv, he, hpp, hps⟩
  · refine ⟨fun q hq => ?_, hI⟩
    rcases List.mem_append.mp hq with hq | hq
    · exact hK q hq
    · rw [List.mem_singleton.mp hq]
      exact hspawn c p hg
  · have hKp : K p := hK p (List.mem_of_getElem? hp)
    refine ⟨fun q hq => ?_, hstep _ p _ hc.1 hv hKp he hI⟩
    rw [hps] at hq
    rcases List.mem_or_eq_of_mem_set hq with hq | rfl
    · exact hK q hq
    · exact hcont p q hpp hKp

/-- An invariant of the store that every effect preserves holds along every run. -/
theorem invariant_of_effect {I : World → Prop}
    (hstep : ∀ w p w', Coupled w.db → Effect sha256 w p w' → I w → I w')
    (h : (booking sha256).machine.RunWhere G c as c') (hc : Sound c) (hI : I c.store) :
    I c'.store :=
  invariant_of_requests (K := fun _ => True) (fun _ _ _ => trivial) (fun _ _ _ _ => trivial)
    (fun w p w' hc _ _ he hI => hstep w p w' hc he hI) h hc (fun _ _ => trivial) hI

/-- What every request has on arrival, gets back in each step of its own, and keeps in the steps
of the others, beside an invariant of the store. -/
theorem requests_of_run {I : World → Prop} {J : World → Request → Prop}
    (hspawn : ∀ w p, (booking sha256).fresh p = true → J w p)
    (hstep : ∀ w p x w' p', Coupled w.db → p.Valid w.db → I w →
      (booking sha256).advance w p x = some (w', p') → I w' ∧ J w' p')
    (hother : ∀ w p w' q, Coupled w.db → Effect sha256 w p w' → J w q → J w' q)
    (h : (booking sha256).machine.RunWhere G c as c') (hc : Sound c) (hI : I c.store)
    (hJ : ∀ p ∈ c.procs, J c.store p) : I c'.store ∧ ∀ p ∈ c'.procs, J c'.store p := by
  have hinv : Program.Holds (fun w => Coupled w.db ∧ I w) (fun w p => p.Valid w.db ∧ J w p) c' := by
    refine Program.holds_of_run ?_ ?_ h ⟨⟨hc.1, hI⟩, fun p hp => ⟨hc.2 p hp, hJ p hp⟩⟩
    · intro c p _ hf _
      exact ⟨Request.valid_of_fresh hf, hspawn _ p hf⟩
    · rintro c i x p s' p' _ _ ha ⟨hc, hI⟩ ⟨hv, _⟩
      obtain ⟨he, hv', _⟩ := booking_effect ha hv hc
      obtain ⟨hI', hJ'⟩ := hstep _ p x s' p' hc hv hI ha
      refine ⟨⟨he.coupled hc, hI'⟩, ⟨hv', hJ'⟩, ?_⟩
      rintro q _ ⟨hq, hJq⟩
      exact ⟨hq.mono (he.extends hc).grows, hother _ p s' q hc he hJq⟩
  exact ⟨hinv.1.2, fun p hp => (hinv.2 p hp).2⟩

end Runs

end Ioka
