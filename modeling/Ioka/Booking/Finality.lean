import Ioka.Booking.Ledger

/-! # Finality of issued orders

No move starts from an issued order, so the order, its payment and the money
moved for it stay as they are, whatever tickets and errors arrive later. Every
request that returns does so with the issued row itself.
-/

namespace Ioka

open Relational Transition

/-! ## Steps -/

section Step

variable {sha256 : String → String} {w w' : World} {p : Request} {phase : Phase}
  {db' : Database} {a : Agent} {o o' q : Order} {t? : Option BalanceTransaction}
  {t' : BalanceTransaction} {es : List Event}

theorem Move.not_issued (h : Move phase a o t? o' t' es) (hs : Standing o t?) :
    o.status ≠ .issued := by
  cases h with
  | debit hne => exact hne
  | debitAgain hne => exact hne
  | join hne => exact hne
  | capture hne => exact hne
  | release hh =>
    have hst := hs.status
    intro hi
    rw [hi] at hst
    simp [Pairing, hh] at hst

theorem Moved.not_issued (h : Moved phase w.db db' a o o' t? t' es) (hc : Coupled w.db) :
    o.status ≠ .issued :=
  h.move.not_issued (h.payment ▸ hc.standing o h.order_mem)

/-- What an issued order is left with. -/
structure SameIssued (o : Order) (w w' : World) : Prop where
  order : o ∈ w'.db.orders
  payment : w'.db.transactionOf o.id = w.db.transactionOf o.id
  movements : movements w'.history o.id = movements w.history o.id

theorem SameIssued.trans {w'' : World} (h : SameIssued o w w') (h' : SameIssued o w' w'') :
    SameIssued o w w'' :=
  ⟨h'.order, h'.payment.trans h.payment, h'.movements.trans h.movements⟩

theorem Effect.sameIssued (h : Effect sha256 w p w') (hc : Coupled w.db) (hq : q ∈ w.db.orders)
    (hi : q.status = .issued) : SameIssued q w w' := by
  cases h with
  | quiet hes => exact ⟨hq, rfl, movements_called hes⟩
  | @moved r db' phase a o o' t? t' es _ _ _ hm =>
    have hne : q.id ≠ o.id := by
      intro hid
      obtain rfl := Database.order_ext hq hm.order_mem hid
      exact hm.not_issued hc hi
    exact ⟨hm.mem_orders.mpr (Or.inr ⟨hq, hne⟩), hm.transactionOf_of_ne hne,
      hm.movements_of_ne hne⟩
  | created _ _ hcr =>
    exact ⟨hcr.mem_orders.mpr (Or.inl hq), hcr.transactionOf, movements_created⟩

theorem Coupled.captured_of_issued (hc : Coupled w.db) (hq : q ∈ w.db.orders)
    (hi : q.status = .issued) {t : BalanceTransaction} (ht : w.db.transactionOf q.id = some t) :
    t.status = .captured := by
  obtain ⟨u, hu, hs⟩ := hc.exists_captured hq hi
  obtain rfl := Option.some.inj (ht.symm.trans hu)
  exact hs

theorem IssueStep.db_of_issued {r r' : IssueOrder} (h : IssueStep w r w' r') (hc : Coupled w.db)
    (hq : q ∈ w.db.orders) (hi : q.status = .issued) (hr : r.orderId = q.id) :
    w'.db = w.db := by
  have hno : ∀ {phase db' a o o' t? t' es}, o.id = r.orderId →
      ¬ Moved phase w.db db' a o o' t? t' es := by
    intro phase db' a o o' t? t' es ho hm
    obtain rfl := Database.order_ext hm.order_mem hq (ho.trans hr)
    exact hm.not_issued hc hi
  cases h with
  | held _ ho _ hm => exact absurd hm (hno ho)
  | released _ ho _ hm => exact absurd hm (hno ho)
  | captured _ _ ho _ hm => exact absurd hm (hno ho)
  | _ => rfl

theorem IssueStep.done_of_issued {r r' : IssueOrder} (h : IssueStep w r w' r')
    (hc : Coupled w.db) (hq : q ∈ w.db.orders) (hi : q.status = .issued)
    (hr : r.orderId = q.id) (hph : r.phase = .requested) :
    ∃ result, r'.phase = .done result := by
  cases h with
  | failed => exact ⟨_, rfl⟩
  | found => exact ⟨_, rfl⟩
  | held _ ho _ hm =>
    obtain rfl := Database.order_ext hm.order_mem hq (ho.trans hr)
    exact absurd hi (hm.not_issued hc)
  | called hp | answered hp | raised hp | unreleased hp | released hp | recaptured hp
  | captured hp =>
    rw [hph] at hp
    cases hp

end Step

/-! ## Results -/

/-- A request that returned did so with the stored row of its order, issued and captured. -/
def IssueOrder.Returned (db : Database) (r : IssueOrder) : Prop :=
  ∀ o a s, r.phase = .done (.ok (o, a, s)) →
    o ∈ db.orders ∧ o.id = r.orderId ∧ o.status = .issued ∧ s = .captured

section Results

variable {sha256 : String → String} {w w' : World} {c : Booking}
  {as : List (Action Request Choice)}

theorem IssueStep.returned {r r' : IssueOrder} (h : IssueStep w r w' r') (hc : Coupled w.db) :
    r'.Returned w'.db := by
  intro o a s hd
  cases h with
  | failed => cases hd
  | @found o' a' _ ho hid _ hi =>
    cases hd
    exact ⟨ho, hid, hi, rfl⟩
  | held => cases hd
  | called => cases hd
  | answered => cases hd
  | raised => cases hd
  | unreleased => cases hd
  | released => cases hd
  | @recaptured ticket o' a' t _ ho hid _ hi ht =>
    cases hd
    exact ⟨ho, hid, hi, hc.captured_of_issued ho hi ht⟩
  | @captured _ _ db' a' o' t _ _ hid _ hm =>
    cases hd
    exact ⟨hm.mem_orders.mpr (Or.inl rfl), hid, rfl, rfl⟩

theorem returned_of_run (hu : Unpaid w.db)
    (h : (booking sha256).machine.Run (Program.start w) as c) :
    ∀ r, .inr r ∈ c.procs → r.Returned c.store.db := by
  have hret := (requests_of_run (I := fun _ => True)
    (J := fun w p => ∀ r, p = .inr r → r.Returned w.db) ?_ ?_ ?_ h (sound_start hu.coupled) trivial
    (by simp [Program.start])).2
  · intro r hr
    exact hret _ hr r rfl
  · rintro w p hf r rfl o a s hd
    simp [hd] at hf
  · intro w p x w' p' hc hv _ ha
    refine ⟨trivial, ?_⟩
    rintro r rfl
    rcases booking_step hv.owns ha with ⟨_, _, _, ⟨⟩, _⟩ | ⟨r₀, r₁, rfl, ⟨rfl⟩, hs⟩
    exact hs.returned hc
  · rintro w p w' q hc he hret r rfl o a s hd
    obtain ⟨ho, hid, hi, hs⟩ := hret r rfl o a s hd
    exact ⟨(he.sameIssued hc ho hi).order, hid, hi, hs⟩

end Results

/-! ## Runs -/

/-- What holds after any run from a state in which an order is issued: the order, its payment
and its movements are the same, no request for it changes the database, and no request for it
that arrived in the meantime can call the provider. -/
structure IssueFinal (sha256 : String → String) (o : Order) (c c' : Booking) : Prop where
  same : SameIssued o c.store c'.store
  still : ∀ i x r c'', c'.procs[i]? = some (.inr r) → r.orderId = o.id →
    (booking sha256).machine.step c' (.advance i x) = some c'' → c''.store.db = c'.store.db
  uncalled : ∀ i r, c.procs.length ≤ i → c'.procs[i]? = some (.inr r) → r.orderId = o.id →
    (booking sha256).machine.step c' (.advance i (.inr .call)) = none

section Runs

variable {sha256 : String → String} {w : World} {c c' : Booking} {o : Order} {n : ℕ}
  {a : Action Request Choice} {as : List (Action Request Choice)}
  {G : Booking → Action Request Choice → Prop}

theorem sameIssued_of_run (h : (booking sha256).machine.RunWhere G c as c') (hc : Sound c)
    (ho : o ∈ c.store.db.orders) (hi : o.status = .issued) : SameIssued o c.store c'.store := by
  refine invariant_of_effect (I := fun w => SameIssued o c.store w) ?_ h hc ⟨ho, rfl, rfl⟩
  intro w p w' hw he hs
  exact hs.trans (he.sameIssued hw hs.order hi)

/-- The requests for an order from the given index on are before their hold or at their end. -/
def Uncalled (o : Order) (n : ℕ) (c : Booking) : Prop :=
  ∀ i r, n ≤ i → c.procs[i]? = some (.inr r) → r.orderId = o.id →
    r.phase = .requested ∨ ∃ result, r.phase = .done result

theorem uncalled_of_step (h : (booking sha256).machine.step c a = some c') (hc : Sound c)
    (ho : o ∈ c.store.db.orders) (hi : o.status = .issued) (hu : Uncalled o n c) :
    Uncalled o n c' := by
  intro i r hni hr hid
  cases a with
  | spawn p =>
    obtain ⟨hf, rfl⟩ := Program.step_spawn_iff.mp h
    rcases Program.getElem?_concat hr with hr | ⟨_, rfl⟩
    · exact hu i r hni hr hid
    · -- The request has just arrived.
      exact Or.inl ((booking_fresh_issue sha256).mp hf)
  | advance j x =>
    obtain ⟨p, s', p', hp, ha, rfl⟩ := Program.step_advance_iff.mp h
    by_cases hij : j = i
    · subst hij
      have hlt : j < c.procs.length := (List.getElem?_eq_some_iff.mp hp).1
      rw [List.getElem?_set_self hlt] at hr
      obtain rfl := Option.some.inj hr
      have hv := hc.2 p (List.mem_of_getElem? hp)
      rcases booking_step hv.owns ha with ⟨_, _, _, ⟨⟩, _⟩ | ⟨r₀, r₁, rfl, ⟨rfl⟩, hs⟩
      have hid₀ : r₀.orderId = o.id := by
        cases hs.continues with
        | issue => exact hid
      rcases hu j r₀ hni hp hid₀ with hph | ⟨result, hph⟩
      · exact Or.inr (hs.done_of_issued hc.1 ho hi hid₀ hph)
      · exact absurd hph (hs.not_done result)
    · rw [List.getElem?_set_ne hij] at hr
      exact hu i r hni hr hid

theorem issueFinal_of_run (h : (booking sha256).machine.Run c as c') (hc : Sound c)
    (ho : o ∈ c.store.db.orders) (hi : o.status = .issued) : IssueFinal sha256 o c c' := by
  have hc' := sound_of_run h hc
  have hs := sameIssued_of_run h hc ho hi
  refine ⟨hs, ?_, ?_⟩
  · intro i x r c'' hr hid hst
    obtain ⟨p, s', p', hp, ha, rfl⟩ := Program.step_advance_iff.mp hst
    obtain rfl : p = .inr r := Option.some.inj (hp.symm.trans hr)
    have hv := hc'.2 _ (List.mem_of_getElem? hp)
    rcases booking_step hv.owns ha with ⟨_, _, ⟨⟩, _⟩ | ⟨r₀, r₁, ⟨rfl⟩, rfl, hstep⟩
    exact hstep.db_of_issued hc'.1 hs.order hi hid
  · have hinv : Uncalled o c.procs.length c' := by
      refine (h.invariant (I := fun d => Sound d ∧ o ∈ d.store.db.orders ∧
        Uncalled o c.procs.length d) ?_ ⟨hc, ho, ?_⟩).2.2
      · rintro d a d' _ hst ⟨hd, hod, hud⟩
        have hstep := Machine.RunWhere.cons (G := fun _ _ => True) trivial hst (.nil d')
        exact ⟨sound_of_step hst hd, (sameIssued_of_run hstep hd hod hi).order,
          uncalled_of_step hst hd hod hi hud⟩
      · intro i r hle hr _
        rw [List.getElem?_eq_none hle] at hr
        cases hr
    intro i r hle hr hid
    rcases hinv i r hle hr hid with hph | ⟨result, hph⟩
    · simp [Program.machine, hr, booking, Program.sum, IssueOrder.program, IssueOrder.advance, hph]
    · simp [Program.machine, hr, booking, Program.sum, IssueOrder.program, IssueOrder.advance, hph]

/-- All requests for an order that return agree, and an issued order is final. -/
theorem issue_final (hu : Unpaid w.db) (h : (booking sha256).machine.Run (Program.start w) as c) :
    (∀ r r' o a s o' a' s', .inr r ∈ c.procs → .inr r' ∈ c.procs → r.orderId = r'.orderId →
      r.phase = .done (.ok (o, a, s)) → r'.phase = .done (.ok (o', a', s')) →
      o.ticketNumber.isSome ∧ o.issuedAt.isSome ∧ o'.ticketNumber = o.ticketNumber ∧
        o'.issuedAt = o.issuedAt ∧ s = .captured ∧ s' = .captured) ∧
    ∀ o ∈ c.store.db.orders, o.status = .issued → ∀ bs c',
      (booking sha256).machine.Run c bs c' → IssueFinal sha256 o c c' := by
  have hc := sound_of_run h (sound_start hu.coupled)
  have hret := returned_of_run hu h
  constructor
  · intro r r' o a s o' a' s' hr hr' hid hd hd'
    obtain ⟨ho, hoid, hi, hs⟩ := hret r hr o a s hd
    obtain ⟨ho', hoid', _, hs'⟩ := hret r' hr' o' a' s' hd'
    obtain rfl : o' = o := Database.order_ext ho' ho (hoid'.trans (hid.symm.trans hoid.symm))
    have hst := hc.1.standing o' ho
    exact ⟨hst.ticket.mpr hi, hst.issuedAt.mpr hi, rfl, rfl, hs, hs'⟩
  · intro o ho hi bs c' hrun
    exact issueFinal_of_run hrun hc ho hi

/-- Two requests share a hold and get different tickets; the second one returns the first. -/
def twoTickets : List (Action Request Choice) :=
  [.spawn (Example.issueRequest "key"), .spawn (Example.issueRequest "key"),
    .advance 0 (.inr (.hold "transaction")), .advance 1 (.inr (.hold "unused")),
    .advance 0 (.inr .call), .advance 1 (.inr .call),
    .advance 1 (.inr (.answer ⟨"250-0000000002", 501⟩)), .advance 0 (.inr (.answer Example.ticket)),
    .advance 0 (.inr (.capture 5)), .advance 1 (.inr (.capture 6))]

/-- The ticket number of a request that returned. -/
def Request.ticketNumber? : Request → Option String
  | .inr ⟨_, _, _, .done (.ok (o, _, _))⟩ => o.ticketNumber
  | _ => none

theorem issue_final_twoTickets : ∃ c : Booking,
    (booking id).machine.Run (Program.start Example.booked) twoTickets c ∧
    c.procs.map Request.ticketNumber? = [some "250-0000000001", some "250-0000000001"] ∧
    ∀ o ∈ c.store.db.orders, o.status = .issued → IssueFinal id o c c := by
  have hrun : ((booking id).machine.exec (Program.start Example.booked) twoTickets).map
      (fun c => c.procs.map Request.ticketNumber?) =
        some [some "250-0000000001", some "250-0000000001"] := by decide
  obtain ⟨c, hc, htk⟩ := Option.map_eq_some_iff.mp hrun
  have h := Machine.exec_eq_some_iff.mp hc
  exact ⟨c, h, htk, fun o ho hi =>
    (issue_final Example.unpaid_booked h).2 o ho hi [] c (.nil c)⟩

end Runs

end Ioka
