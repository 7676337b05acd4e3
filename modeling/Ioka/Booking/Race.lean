import Ioka.Booking.Service
import Ioka.Booking.Steps

/-! # Racing duplicates of a booking

Calls with one key get one booking from the provider, so all but the first of
them insert an order with a booking reference that is stored already. The
handler that turns a constraint violation into a replay covers the commit of the
persist block, but the reference is checked at its flush: a call whose persist
block finds the reference stored ends in a database error, and so does every
call if the columns do not take the booking.
-/

namespace Ioka

open Relational Transition

abbrev Bookings := Config World CreateOrder

/-- The arguments that duplicate calls share, and what the provider answers them. -/
structure Duplicates where
  agentId : String
  key : String
  payload : OrderCreate
  offer : Offer
  booking : ProviderBooking

/-- Duplicate calls arrive at any time, the offer is unexpired, and the provider always gives
the same booking. New ids are fresh. -/
def Duplicates.admits (d : Duplicates) (c : Bookings) : Action CreateOrder CreateChoice → Bool
  | .spawn r => r.agentId = d.agentId ∧ r.idempotencyKey = d.key ∧ r.payload = d.payload
  | .advance _ (.checkOffer now) => now < d.offer.expiresAt
  | .advance _ (.answer booking) => booking = d.booking
  | .advance _ (.raise _) | .advance _ .cancel => false
  | .advance _ (.persist orderId _) => c.store.db.orders.rows.all fun o => o.id ≠ orderId
  | _ => true

/-- A persist block can store its booking, and finds no order with the reference. -/
def persistsUnstored (c : Bookings) : Action CreateOrder CreateChoice → Bool
  | .advance i (.persist _ _) =>
    match c.procs[i]? with
    | some r =>
      match r.phase with
      | .booked _ booking => booking.kept.any fun kept =>
          c.store.db.orders.rows.all fun o => o.bookingReference ≠ kept.bookingReference
      | _ => true
    | none => true
  | _ => true

section Persist

variable {db : Database} {agentId key payloadHash orderId : String} {payload : OrderCreate}
  {offer : Offer} {booking : ProviderBooking} {durationMs : ℤ}

theorem insertOrder_of_stored {o p : Order} (hp : p ∈ db.orders)
    (h : p.bookingReference = o.bookingReference) :
    db.insertOrder o = .error .integrityError := by
  cases hi : db.orders.insert? o with
  | none => rw [Database.insertOrder, hi]; rfl
  | some t =>
    have hall : ∀ q ∈ db.orders, Distinct Order.uniques q o :=
      Table.isSome_insert?.mp (by rw [hi]; rfl)
    have hd := hall p hp (fun o => some [o.bookingReference]) (by simp [Order.uniques])
    simp [h] at hd

theorem createOrderPersist_of_stored (h : ∀ kept, booking.kept = some kept →
      ∃ p ∈ db.orders, p.bookingReference = kept.bookingReference) :
    ∃ e, createOrderPersist db agentId payload key payloadHash offer booking orderId durationMs =
      .flushFailed e := by
  unfold createOrderPersist
  cases hk : booking.kept with
  | none => exact ⟨_, rfl⟩
  | some kept =>
    obtain ⟨p, hp, href⟩ := h kept hk
    have hi : db.insertOrder (newOrder orderId agentId payload offer kept) =
        .error .integrityError := insertOrder_of_stored hp href
    simp only [hi]
    exact ⟨_, rfl⟩

theorem createOrderPersist_of_unstored {kept : ProviderBooking} (payload : OrderCreate)
    (payloadHash : String) (offer : Offer) (durationMs : ℤ) (hk : booking.kept = some kept)
    (hid : ∀ o ∈ db.orders, o.id ≠ orderId)
    (href : ∀ o ∈ db.orders, o.bookingReference ≠ kept.bookingReference)
    (hrec : ∀ r ∈ db.records, r.agentId = agentId → r.scope = "create_order" → r.key ≠ key) :
    ∃ db', createOrderPersist db agentId payload key payloadHash offer booking orderId durationMs =
      .committed (newOrder orderId agentId payload offer kept) db' := by
  have ho : (db.orders.insert? (newOrder orderId agentId payload offer kept)).isSome := by
    rw [Table.isSome_insert?]
    intro o ho
    simp [Distinct, Order.uniques, newOrder, hid o ho, href o ho, em]
  have hr : (db.records.insert? (newRecord agentId key payloadHash orderId)).isSome := by
    rw [Table.isSome_insert?]
    intro r hr
    have hne := hrec r hr
    simp only [Distinct, IdempotencyRecord.uniques, newRecord, List.mem_singleton, forall_eq,
      reduceCtorEq, ne_eq, Option.some.injEq, List.cons.injEq, and_true, not_and, false_or]
    exact hne
  obtain ⟨t, ht⟩ := Option.isSome_iff_exists.mp ho
  obtain ⟨u, hu⟩ := Option.isSome_iff_exists.mp hr
  have hu' : (newOrder orderId agentId payload offer kept).id = orderId := rfl
  simp only [createOrderPersist, hk, Database.insertOrder, Database.insertRecord,
    Database.writing, ht, hu, hu']
  exact ⟨_, rfl⟩

end Persist

namespace Duplicates

variable (d : Duplicates) (sha256 : String → String)

def payloadHash : String := requestHash sha256 d.payload.modelDump

/-- The booking reference that a row of the calls has, if the columns take the booking. -/
def reference? : Option String := d.booking.kept.map (·.bookingReference)

/-- The offer is there for the agent. -/
def Offered (db : Database) : Prop := agentOffer db d.agentId d.payload.offerId = some d.offer

/-- No order of the calls is stored. -/
structure Open (db : Database) : Prop where
  records : ∀ r ∈ db.records, r.agentId = d.agentId → r.scope = "create_order" → r.key ≠ d.key
  references : ∀ o ∈ db.orders, d.reference? ≠ some o.bookingReference

/-- The order of the calls is stored with its record. -/
structure Stored (db : Database) (o : Order) : Prop where
  order : o ∈ db.orders
  record : newRecord d.agentId d.key (d.payloadHash sha256) o.id ∈ db.records
  reference : d.reference? = some o.bookingReference

/-- A call with the shared arguments that has met no error. -/
structure Proceeds (db : Database) (r : CreateOrder) : Prop where
  agentId : r.agentId = d.agentId
  key : r.idempotencyKey = d.key
  payload : r.payload = d.payload
  phase : match r.phase with
    | .requested | .unseen => True
    | .offered offer | .booking offer => offer = d.offer
    | .booked offer booking => offer = d.offer ∧ booking = d.booking
    | .done result => ∃ o, d.Stored sha256 db o ∧ result = .ok o
    | .refused _ _ | .conflicted _ => False

/-- Every call that has ended returned the one order that is stored for the key. -/
def AllReturn (c : Bookings) : Prop :=
  ∃ o, ∀ r ∈ c.procs, ∀ result, r.phase = .done result →
    result = .ok o ∧ d.Stored sha256 c.store.db o

variable {d sha256} {db db' : Database} {o p : Order} {r : CreateOrder}

theorem Stored.eq (h : d.Stored sha256 db o) (h' : d.Stored sha256 db p) : o = p :=
  Database.order_ext_of_reference h.order h'.order
    (Option.some.inj (h.reference.symm.trans h'.reference))

theorem Stored.idempotentOrder (h : d.Stored sha256 db o) :
    idempotentOrder db d.agentId "create_order" d.key (d.payloadHash sha256) = .ok (some o) := by
  have ho : db.order? o.id = some o := Database.order?_eq_some.mpr ⟨h.order, rfl⟩
  unfold Ioka.idempotentOrder
  rw [select_newRecord h.record]
  simp [newRecord, ho]

theorem Open.idempotentOrder (h : d.Open db) :
    idempotentOrder db d.agentId "create_order" d.key (d.payloadHash sha256) = .ok none :=
  idempotentOrder_none h.records

theorem Proceeds.payloadHash (h : d.Proceeds sha256 db r) :
    r.payloadHash sha256 = d.payloadHash sha256 := by
  rw [CreateOrder.payloadHash, h.payload]
  rfl

theorem Proceeds.mono (h : d.Proceeds sha256 db r)
    (hs : ∀ o, d.Stored sha256 db o → d.Stored sha256 db' o) : d.Proceeds sha256 db' r := by
  obtain ⟨ha, hk, hp, hph⟩ := h
  refine ⟨ha, hk, hp, ?_⟩
  cases hr : r.phase with
  | done result =>
    rw [hr] at hph
    obtain ⟨o, ho, he⟩ := hph
    exact ⟨o, hs o ho, he⟩
  | _ =>
    rw [hr] at hph
    exact hph

/-! ## Steps -/

/-- The offer is there, and at most one order of the calls. -/
structure Ready (d : Duplicates) (sha256 : String → String) (db : Database) : Prop where
  offered : d.Offered db
  order : d.Open db ∨ ∃ o, d.Stored sha256 db o

section Step

variable {c : Bookings} {i : ℕ} {w w' : World} {r' : CreateOrder} {x : CreateChoice}

theorem Proceeds.replay_open (h : d.Proceeds sha256 w.db r) (ho : d.Open w.db)
    (missing : CreatePhase) : r.replay sha256 w missing = (w, { r with phase := missing }) := by
  rw [CreateOrder.replay, h.agentId, h.key, h.payloadHash, ho.idempotentOrder]

theorem Proceeds.replay_stored (h : d.Proceeds sha256 w.db r) (ho : d.Stored sha256 w.db o)
    (missing : CreatePhase) : r.replay sha256 w missing = (w, r.finish (.ok o)) := by
  rw [CreateOrder.replay, h.agentId, h.key, h.payloadHash, ho.idempotentOrder]

theorem stored_of_created {orderId : String} {kept : ProviderBooking}
    (hk : d.booking.kept = some kept)
    (h : Created db db' (newOrder orderId d.agentId d.payload d.offer kept)
      (newRecord d.agentId d.key (d.payloadHash sha256) orderId)) :
    d.Stored sha256 db' (newOrder orderId d.agentId d.payload d.offer kept) := by
  refine ⟨?_, ?_, by simp [reference?, hk, newOrder]⟩
  · rw [Table.mem_def, h.orders]
    simp
  · rw [Table.mem_def, h.records]
    simp [newOrder]

theorem Ready.persist (hI : d.Ready sha256 db) {orderId : String} {kept : ProviderBooking}
    (durationMs : ℤ) (hk : d.booking.kept = some kept) (hids : ∀ o ∈ db.orders, o.id ≠ orderId)
    (hrefs : ∀ o ∈ db.orders, o.bookingReference ≠ kept.bookingReference) :
    ∃ o db', createOrderPersist db d.agentId d.payload d.key (d.payloadHash sha256) d.offer
        d.booking orderId durationMs = .committed o db' ∧
      d.Stored sha256 db' o ∧ d.Offered db' ∧ ∀ p, ¬ d.Stored sha256 db p := by
  rcases hI.order with ho | ⟨o, ho⟩
  · obtain ⟨db', hc⟩ := createOrderPersist_of_unstored d.payload (d.payloadHash sha256) d.offer
      durationMs hk hids hrefs ho.records
    obtain ⟨_, _, _, hcr⟩ := createOrderPersist_committed hc
    refine ⟨_, db', hc, stored_of_created hk hcr, ?_,
      fun p hp => ho.references p hp.order hp.reference⟩
    have hof : agentOffer db d.agentId d.payload.offerId = some d.offer := hI.offered
    rw [Offered, agentOffer, hcr.offers, hcr.searches]
    exact hof
  · have href := ho.reference
    rw [reference?, hk] at href
    exact absurd (Option.some.inj href).symm (hrefs o ho.order)

theorem advance_proceeds (hadm : d.admits c (.advance i x) = true)
    (huns : persistsUnstored c (.advance i x) = true) (hr : c.procs[i]? = some r)
    (h : r.advance sha256 c.store x = some (w', r')) (hI : d.Ready sha256 c.store.db)
    (hJ : d.Proceeds sha256 c.store.db r) :
    d.Ready sha256 w'.db ∧ d.Proceeds sha256 w'.db r' ∧
      ∀ o, d.Stored sha256 c.store.db o → d.Stored sha256 w'.db o := by
  have hph := hJ.phase
  unfold CreateOrder.advance at h
  split at h
  case h_1 hp =>
    rcases hI.order with ho | ⟨o, ho⟩
    · rw [hJ.replay_open ho] at h
      cases h
      exact ⟨hI, ⟨hJ.agentId, hJ.key, hJ.payload, trivial⟩, fun _ h => h⟩
    · rw [hJ.replay_stored ho] at h
      cases h
      exact ⟨hI, ⟨hJ.agentId, hJ.key, hJ.payload, o, ho, rfl⟩, fun _ h => h⟩
  case h_2 now hp =>
    have hnow : now < d.offer.expiresAt := by simpa [admits] using hadm
    have ho : createOrderOffer c.store.db r.agentId r.payload now = .ok d.offer := by
      have hof : agentOffer c.store.db d.agentId d.payload.offerId = some d.offer := hI.offered
      rw [createOrderOffer, hJ.agentId, hJ.payload, hof]
      exact if_neg (not_le.mpr hnow)
    rw [ho] at h
    cases h
    exact ⟨hI, ⟨hJ.agentId, hJ.key, hJ.payload, rfl⟩, fun _ h => h⟩
  case h_3 offer hp =>
    rw [hp] at hph
    cases h
    exact ⟨hI, ⟨hJ.agentId, hJ.key, hJ.payload, hph⟩, fun _ h => h⟩
  case h_4 offer booking hp =>
    rw [hp] at hph
    have hb : booking = d.booking := by simpa [admits] using hadm
    cases h
    exact ⟨hI, ⟨hJ.agentId, hJ.key, hJ.payload, hph, hb⟩, fun _ h => h⟩
  case h_5 | h_6 => cases hadm
  case h_7 e durationMs hp =>
    rw [hp] at hph
    exact hph.elim
  case h_8 offer booking orderId durationMs hp =>
    rw [hp] at hph
    obtain ⟨rfl, rfl⟩ := hph
    have hids : ∀ o ∈ c.store.db.orders, o.id ≠ orderId := by
      simpa [admits, Table.mem_def] using hadm
    obtain ⟨kept, hk, hrefs⟩ : ∃ kept, d.booking.kept = some kept ∧
        ∀ o ∈ c.store.db.orders, o.bookingReference ≠ kept.bookingReference := by
      simpa [persistsUnstored, hr, hp, Table.mem_def, Option.any_eq_true] using huns
    obtain ⟨o, db', hc, hst, hof, hno⟩ := hI.persist durationMs hk hids hrefs
    rw [hJ.agentId, hJ.payload, hJ.key, hJ.payloadHash, hc] at h
    cases h
    exact ⟨⟨hof, Or.inr ⟨o, hst⟩⟩, ⟨hJ.agentId, hJ.key, hJ.payload, o, hst, rfl⟩,
      fun p hp => absurd hp (hno p)⟩
  case h_9 e hp =>
    rw [hp] at hph
    exact hph.elim
  case h_10 => cases h

theorem advance_of_not_unstored (huns : persistsUnstored c (.advance i x) = false)
    (hr : c.procs[i]? = some r) (h : r.advance sha256 c.store x = some (w', r')) :
    ∃ e, r' = r.finish (.error e) := by
  cases x with
  | persist orderId durationMs =>
    cases hp : r.phase with
    | booked offer booking =>
      have hrefs : ∀ kept, booking.kept = some kept →
          ∃ p ∈ c.store.db.orders, p.bookingReference = kept.bookingReference := by
        intro kept hk
        simpa [persistsUnstored, hr, hp, hk, Table.mem_def] using huns
      obtain ⟨e, he⟩ : ∃ e, createOrderPersist c.store.db r.agentId r.payload r.idempotencyKey
          (r.payloadHash sha256) offer booking orderId durationMs = .flushFailed e :=
        createOrderPersist_of_stored hrefs
      simp only [CreateOrder.advance, hp, he, Option.some.injEq, Prod.mk.injEq] at h
      exact ⟨e, h.2.symm⟩
    | _ => simp [persistsUnstored, hr, hp] at huns
  | _ => simp [persistsUnstored] at huns

end Step

/-! ## Runs -/

section Runs

variable {w : World} {c c' : Bookings} {as : List (Action CreateOrder CreateChoice)}

theorem allReturn_of_run (hoff : d.Offered w.db) (hopen : d.Open w.db)
    (h : (CreateOrder.program sha256).machine.RunWhere
      (fun c a => d.admits c a = true ∧ persistsUnstored c a = true) (Program.start w) as c) :
    d.AllReturn sha256 c := by
  have hinv : Program.Holds (fun w => d.Ready sha256 w.db)
      (fun w r => d.Proceeds sha256 w.db r) c := by
    refine Program.holds_of_run ?_ ?_ h (Program.holds_start ⟨hoff, Or.inl hopen⟩)
    · rintro c r ⟨hadm, _⟩ hf _
      obtain ⟨ha, hk, hp⟩ : r.agentId = d.agentId ∧ r.idempotencyKey = d.key ∧
          r.payload = d.payload := by simpa [admits] using hadm
      refine ⟨ha, hk, hp, ?_⟩
      cases hph : r.phase with
      | requested => trivial
      | _ => simp [CreateOrder.program, hph] at hf
    · rintro c i x r s' r' ⟨hadm, huns⟩ hr ha hI hJ
      obtain ⟨hI', hJ', hst⟩ := advance_proceeds hadm huns hr ha hI hJ
      exact ⟨hI', hJ', fun q _ hq => hq.mono hst⟩
  have hdone : ∀ r ∈ c.procs, ∀ result, r.phase = .done result →
      ∃ o, d.Stored sha256 c.store.db o ∧ result = .ok o := by
    intro r hr result hph
    have hp := (hinv.2 r hr).phase
    rw [hph] at hp
    exact hp
  by_cases hex : ∃ o, d.Stored sha256 c.store.db o
  · obtain ⟨o, ho⟩ := hex
    refine ⟨o, fun r hr result hph => ?_⟩
    obtain ⟨p, hp, rfl⟩ := hdone r hr result hph
    exact ⟨by rw [hp.eq ho], ho⟩
  · -- No call has ended yet.
    refine ⟨newOrder "" d.agentId d.payload d.offer d.booking, fun r hr result hph => ?_⟩
    obtain ⟨p, hp, _⟩ := hdone r hr result hph
    exact absurd ⟨p, hp⟩ hex

theorem run_of_allReturn (h : (CreateOrder.program sha256).machine.RunWhere
    (fun c a => d.admits c a = true) c as c') (hall : d.AllReturn sha256 c') :
    (CreateOrder.program sha256).machine.RunWhere
      (fun c a => d.admits c a = true ∧ persistsUnstored c a = true) c as c' := by
  induction h with
  | nil c => exact .nil c
  | @cons s t u a as hg hs hrest ih =>
    refine .cons ⟨hg, ?_⟩ hs (ih hall)
    by_contra huns
    have hfalse : persistsUnstored s a = false := by simpa using huns
    cases a with
    | spawn r => simp [persistsUnstored] at hfalse
    | advance i x =>
      -- The call that cannot store its booking keeps its error to the end.
      obtain ⟨r, s', r', hr, ha, rfl⟩ := Program.step_advance_iff.mp hs
      obtain ⟨e, he⟩ := advance_of_not_unstored hfalse hr ha
      have hlt : i < s.procs.length := (List.getElem?_eq_some_iff.mp hr).1
      have hend := Program.getElem?_procs_of_run (i := i) (p := r') (List.getElem?_set_self hlt)
        (by intro v y; subst he; rfl) hrest
      obtain ⟨o, ho⟩ := hall
      obtain ⟨hres, _⟩ := ho r' (List.mem_of_getElem? hend) (.error e)
        (by rw [he]; rfl)
      cases hres

/-- The calls return the one order exactly in the runs whose persist blocks can all store their
booking and find its reference unstored. -/
theorem all_return_iff (hoff : d.Offered w.db) (hopen : d.Open w.db)
    (h : (CreateOrder.program sha256).machine.RunWhere (fun c a => d.admits c a = true)
      (Program.start w) as c) :
    d.AllReturn sha256 c ↔ (CreateOrder.program sha256).machine.RunWhere
      (fun c a => d.admits c a = true ∧ persistsUnstored c a = true) (Program.start w) as c :=
  ⟨run_of_allReturn h, allReturn_of_run hoff hopen⟩

end Runs

end Duplicates

/-! ## Two calls -/

namespace Example

def duplicates : Duplicates := ⟨"agent", "create", payload, offer, providerBooking⟩

def duplicateCall : CreateOrder := ⟨"agent", payload, "create", .requested⟩

/-- A call that checks for a replay, checks the offer and books it. -/
def bookingSteps (i : ℕ) : List (Action CreateOrder CreateChoice) :=
  [.advance i .replay, .advance i (.checkOffer 100), .advance i .call,
    .advance i (.answer providerBooking)]

/-- Two calls book before either of them is stored. -/
def racing : List (Action CreateOrder CreateChoice) :=
  [.spawn duplicateCall, .spawn duplicateCall] ++ bookingSteps 0 ++ bookingSteps 1 ++
    [.advance 0 (.persist "order" 5), .advance 1 (.persist "duplicate" 6)]

theorem offered_duplicates : duplicates.Offered offered.db := rfl

theorem open_duplicates : duplicates.Open offered.db :=
  ⟨by simp [offered, Table.mem_def, Table.empty], by simp [offered, Table.mem_def, Table.empty]⟩

end Example

section Two

open Example

theorem all_return_iff_single : ∃ c : Bookings, (CreateOrder.program id).machine.RunWhere
      (fun c a => duplicates.admits c a = true) (Program.start offered)
      (.spawn duplicateCall :: bookingSteps 0 ++ [.advance 0 (.persist "order" 5)]) c ∧
    duplicates.AllReturn id c := by
  have hrun : ((CreateOrder.program id).machine.execWhere
      (fun c a => duplicates.admits c a = true ∧ persistsUnstored c a = true)
      (Program.start offered)
      (.spawn duplicateCall :: bookingSteps 0 ++ [.advance 0 (.persist "order" 5)])).isSome =
        true := by decide
  obtain ⟨c, hc⟩ := Option.isSome_iff_exists.mp hrun
  have h := Machine.runWhere_of_execWhere hc
  have h' := h.mono fun _ _ hg => hg.1
  exact ⟨c, h', (Duplicates.all_return_iff offered_duplicates open_duplicates h').mpr h⟩

/-- The second call is told of a database error. -/
theorem not_all_return_racing : ∃ c : Bookings, (CreateOrder.program id).machine.RunWhere
      (fun c a => duplicates.admits c a = true) (Program.start offered) racing c ∧
    (∃ r ∈ c.procs, r.phase = .done (.error .integrityError)) ∧ ¬ duplicates.AllReturn id c := by
  have hrun : ((CreateOrder.program id).machine.execWhere
      (fun c a => duplicates.admits c a = true) (Program.start offered) racing).map
        (fun c => c.procs.map fun r =>
          match r.phase with
          | .done (.error e) => some e
          | _ => none) = some [none, some .integrityError] := by decide
  obtain ⟨c, hc, herr⟩ := Option.map_eq_some_iff.mp hrun
  have h := Machine.runWhere_of_execWhere hc
  obtain ⟨r, hr, hph⟩ : ∃ r ∈ c.procs, r.phase = .done (.error .integrityError) := by
    have hm : some Failure.integrityError ∈ c.procs.map fun r =>
        match r.phase with
        | .done (.error e) => some e
        | _ => none := herr ▸ (by simp)
    obtain ⟨r, hr, he⟩ := List.mem_map.mp hm
    refine ⟨r, hr, ?_⟩
    split at he
    · rename_i e hph
      rw [hph, Option.some.inj he]
    · cases he
  refine ⟨c, h, ⟨r, hr, hph⟩, ?_⟩
  rintro ⟨o, ho⟩
  cases (ho r hr _ hph).1

end Two

end Ioka
