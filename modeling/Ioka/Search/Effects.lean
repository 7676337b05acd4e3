import Mathlib.Data.List.Forall2
import Ioka.Search.Service

/-! # What a block of search processing writes

Each block either leaves the database or rewrites the row of one search and
stores new offers for it. The outcomes are listed once for each block, with the
conditions under which they occur.
-/

namespace Ioka

open Relational Transition

/-- The rows of a database before and after a commit that rewrites one search. -/
structure Rewritten (db db' : Database) (s s' : FlightSearch) (offers : List Offer) : Prop where
  search_mem : s ∈ db.searches
  id : s'.id = s.id
  owners : ∀ o ∈ offers, o.searchId = s.id
  searches : db'.searches.rows = amend (fun q => q.id = s.id) (fun _ => s') db.searches.rows
  offers : db'.offers.rows = db.offers.rows ++ offers
  agents : db'.agents = db.agents
  orders : db'.orders = db.orders
  transactions : db'.transactions = db.transactions
  records : db'.records = db.records

/-- New offers break a unique constraint, with a stored one or among themselves. -/
def Clashes (db : Database) (offers : List Offer) : Prop :=
  ¬ (db.offers.rows ++ offers).Pairwise (Distinct Offer.uniques)

instance (db : Database) (offers : List Offer) : Decidable (Clashes db offers) :=
  inferInstanceAs (Decidable (¬ _))

/-- The rows of an answer cannot be stored: a column refuses an item, or they clash. -/
def Refused (db : Database) (provider searchId : String) (newId : ℕ → String)
    (items : List ProviderOffer) : Prop :=
  ∀ kept, keptItems items = some kept → Clashes db (newOffers provider searchId newId kept)

instance (db : Database) (provider searchId : String) (newId : ℕ → String)
    (items : List ProviderOffer) : Decidable (Refused db provider searchId newId items) :=
  decidable_of_iff ((keptItems items).all fun kept =>
    Clashes db (newOffers provider searchId newId kept)) (by simp [Refused, Option.all_eq_true])

section Offers

variable {db db' : Database} {offers : List Offer}

theorem insertOffers_eq_ok : db.insertOffers offers = .ok db' ↔
    ∃ tab : Table Offer.uniques, tab.rows = db.offers.rows ++ offers ∧
      db' = { db with offers := tab } := by
  induction offers generalizing db with
  | nil =>
    rw [Database.insertOffers, List.append_nil]
    constructor
    · intro h
      cases h
      exact ⟨db'.offers, rfl, rfl⟩
    · rintro ⟨tab, htab, rfl⟩
      rw [Table.ext htab]
  | cons o offers ih =>
    rw [Database.insertOffers, bind_eq_ok]
    constructor
    · rintro ⟨db₁, h₁, h⟩
      obtain ⟨tab₁, ht₁, rfl⟩ := Database.writing_eq_ok.mp h₁
      obtain ⟨tab, ht, rfl⟩ := ih.mp h
      refine ⟨tab, ?_, rfl⟩
      rw [ht, Table.insert?_eq_some.mp ht₁, List.append_assoc]
      rfl
    · rintro ⟨tab, ht, rfl⟩
      have hu := tab.unique
      rw [ht, ← List.singleton_append, ← List.append_assoc] at hu
      have h₁ : db.offers.insert? o = some ⟨_, (List.pairwise_append.mp hu).1⟩ :=
        Table.insert?_eq_some.mpr rfl
      refine ⟨_, Database.writing_eq_ok.mpr ⟨_, h₁, rfl⟩, ih.mpr ⟨tab, ?_, rfl⟩⟩
      rw [ht, List.append_assoc]
      rfl

theorem insertOffers_eq_error {e : Failure} (h : db.insertOffers offers = .error e) :
    Clashes db offers := by
  intro hp
  have hok := insertOffers_eq_ok.mpr ⟨⟨_, hp⟩, rfl, rfl⟩
  rw [h] at hok
  cases hok

theorem not_clashes_of_ok (h : db.insertOffers offers = .ok db') : ¬ Clashes db offers := by
  obtain ⟨tab, ht, _⟩ := insertOffers_eq_ok.mp h
  rw [Clashes, not_not, ← ht]
  exact tab.unique

end Offers

section Blocks

variable {db : Database} {provider searchId : String} {request : ProviderSearchRequest}
  {items kept : List ProviderOffer} {newId : ℕ → String} {now : Time} {durationMs : ℤ} {e : Raised}

theorem keptItems_eq_some : keptItems items = some kept ↔
    List.Forall₂ (fun item k => item.kept = some k) items kept := by
  unfold keptItems
  induction items generalizing kept with
  | nil => simp [eq_comm]
  | cons item items ih =>
    simp only [List.mapM_cons, Option.bind_eq_bind, Option.bind_eq_some_iff, Option.pure_def,
      Option.some.injEq, List.forall₂_cons_left_iff]
    constructor
    · rintro ⟨k, hk, ks, hks, rfl⟩
      exact ⟨k, ks, hk, ih.mp hks, rfl⟩
    · rintro ⟨k, ks, hk, hks, rfl⟩
      exact ⟨k, hk, ks, ih.mpr hks, rfl⟩

theorem length_of_keptItems (h : keptItems items = some kept) : kept.length = items.length :=
  (keptItems_eq_some.mp h).length_eq.symm

theorem exists_of_mem_keptItems {k : ProviderOffer} (h : keptItems items = some kept)
    (hk : k ∈ kept) : ∃ item ∈ items, item.kept = some k := by
  have hall := keptItems_eq_some.mp h
  clear h
  induction hall with
  | nil => cases hk
  | cons hitem _ ih =>
    rcases List.mem_cons.mp hk with rfl | hk
    · exact ⟨_, List.mem_cons_self, hitem⟩
    · obtain ⟨item, hmem, he⟩ := ih hk
      exact ⟨item, List.mem_cons_of_mem _ hmem, he⟩

theorem newOffers_owners {id : String} : ∀ o ∈ newOffers provider id newId items,
    o.searchId = id := by
  intro o ho
  obtain ⟨i, hi, rfl⟩ := List.mem_mapIdx.mp ho
  rfl

theorem newOffers_eq_nil {id : String} : newOffers provider id newId items = [] ↔ items = [] := by
  simp [newOffers]

theorem amend_search_eq {s : FlightSearch} {f : FlightSearch → FlightSearch}
    (hs : s ∈ db.searches) :
    amend (fun q => q.id = s.id) f db.searches.rows =
      amend (fun q => q.id = s.id) (fun _ => f s) db.searches.rows :=
  amend_congr fun q hq h => by rw [Database.search_ext hq hs (by simpa using h)]

theorem exists_rewrite {s : FlightSearch} {f : FlightSearch → FlightSearch} {offers : List Offer}
    {tab : Table Offer.uniques} (hs : s ∈ db.searches) (hf : ∀ q, (f q).id = q.id)
    (ho : ∀ o ∈ offers, o.searchId = s.id) (ht : tab.rows = db.offers.rows ++ offers) :
    ∃ searches, Database.updateSearch { db with offers := tab } s.id f =
        .ok { db with offers := tab, searches := searches } ∧
      ∀ audit, Rewritten db { db with offers := tab, searches := searches, audit := audit } s (f s)
        offers := by
  obtain ⟨searches, hr, hu⟩ := Database.exists_updateSearch { db with offers := tab } s.id hf
  exact ⟨searches, hu, fun _ =>
    ⟨hs, hf s, ho, hr.trans (amend_search_eq hs), ht, rfl, rfl, rfl, rfl⟩⟩

theorem processStart_eq (db : Database) (searchId : String) :
    ((∀ s, db.search? searchId = some s → s.status.Final) ∧
      processStart db searchId = .ok (none, db)) ∨
    ∃ s db', db.search? searchId = some s ∧ ¬ s.status.Final ∧
      processStart db searchId = .ok (some s.providerRequest, db') ∧
      Rewritten db db' s { s with status := .inProgress } [] ∧
      db'.audit = (db.addStatusAudit "flight_search" s.id "provider_search_started"
        (some s.status.value) SearchStatus.inProgress.value).audit := by
  unfold processStart
  cases hs : db.search? searchId with
  | none => exact Or.inl ⟨by simp, rfl⟩
  | some s =>
    by_cases hf : s.status.Final
    · exact Or.inl ⟨by simp [hf], by simp only [if_pos hf]⟩
    · obtain ⟨searches, hu, hw⟩ := exists_rewrite (f := fun s => { s with status := .inProgress })
        (Database.search?_eq_some.mp hs).1 (fun _ => rfl) (by simp) (List.append_nil _).symm
      simp only [if_neg hf]
      exact Or.inr ⟨s, _, rfl, hf, bind_eq_ok.mpr ⟨_, hu, rfl⟩, hw _, rfl⟩

/-- The answer is stored unless it is refused, whatever the status of the search is by then. -/
theorem processSave_eq (db : Database) (provider searchId : String)
    (request : ProviderSearchRequest) (items : List ProviderOffer) (newId : ℕ → String)
    (now : Time) (durationMs : ℤ) :
    (db.search? searchId = none ∧
      processSave db provider searchId request items newId now durationMs = .ok db) ∨
    ∃ s, db.search? searchId = some s ∧
      ((Refused db provider s.id newId items ∧
          ∃ e, processSave db provider searchId request items newId now durationMs = .error e) ∨
        ∃ kept db', keptItems items = some kept ∧
          ¬ Clashes db (newOffers provider s.id newId kept) ∧
          processSave db provider searchId request items newId now durationMs = .ok db' ∧
          Rewritten db db' s { s with status := .completed, completedAt := some now }
            (newOffers provider s.id newId kept) ∧
          db'.audit = ((db.addProviderAudit "search" "flight_search" s.id
              (searchRequestPayload request)
              (some (.obj [("offers_count", .int items.length)])) durationMs 200
              none).addStatusAudit "flight_search" s.id "provider_search_completed"
            (some s.status.value) SearchStatus.completed.value).audit) := by
  unfold processSave
  cases hs : db.search? searchId with
  | none => exact Or.inl ⟨rfl, rfl⟩
  | some s =>
    right
    refine ⟨s, rfl, ?_⟩
    cases hk : keptItems items with
    | none =>
      refine Or.inl ⟨fun kept h => ?_, _, rfl⟩
      rw [hk] at h
      cases h
    | some kept =>
      cases hi : db.insertOffers (newOffers provider s.id newId kept) with
      | error e =>
        refine Or.inl ⟨fun kept' h => ?_, e, by simp only [hi]; rfl⟩
        obtain rfl := Option.some.inj (hk.symm.trans h)
        exact insertOffers_eq_error hi
      | ok db₁ =>
        obtain ⟨tab, ht, rfl⟩ := insertOffers_eq_ok.mp hi
        obtain ⟨searches, hu, hw⟩ := exists_rewrite
          (f := fun s => { s with status := .completed, completedAt := some now })
          (Database.search?_eq_some.mp hs).1 (fun _ => rfl) newOffers_owners ht
        exact Or.inr ⟨kept, _, rfl, not_clashes_of_ok hi,
          bind_eq_ok.mpr ⟨_, hi, bind_eq_ok.mpr ⟨_, hu, rfl⟩⟩, hw _, rfl⟩

/-- A failure whose text can be stored is recorded whatever the status of the search is by then. -/
theorem processFail_eq (db : Database) (searchId : String) (request : ProviderSearchRequest)
    (e : Raised) (durationMs : ℤ) :
    (db.search? searchId = none ∧ processFail db searchId request e durationMs = .ok db) ∨
    (∃ s, db.search? searchId = some s ∧ ¬ Storable e.message ∧
      processFail db searchId request e durationMs = .error .dbapiError) ∨
    ∃ s db', db.search? searchId = some s ∧ Storable e.message ∧
      processFail db searchId request e durationMs = .ok db' ∧
      Rewritten db db' s { s with
        status := e.searchStatus
        errorCode := some e.searchErrorCode
        errorMessage := some e.message } [] ∧
      db'.audit = ((db.addProviderAudit "search" "flight_search" s.id
          (searchRequestPayload request) none durationMs (if e.timeout then 504 else 502)
          (some e.message)).addStatusAudit "flight_search" s.id "provider_search_failed"
        (some s.status.value) e.searchStatus.value).audit := by
  unfold processFail
  cases hs : db.search? searchId with
  | none => exact Or.inl ⟨rfl, rfl⟩
  | some s =>
    right
    by_cases hm : Storable e.message
    case neg => exact Or.inl ⟨s, rfl, hm, by simp only [if_neg hm]⟩
    obtain ⟨searches, hu, hw⟩ := exists_rewrite (f := fun s => { s with
        status := e.searchStatus
        errorCode := some e.searchErrorCode
        errorMessage := some e.message })
      (Database.search?_eq_some.mp hs).1 (fun _ => rfl) (by simp) (List.append_nil _).symm
    simp only [if_pos hm]
    exact Or.inr ⟨s, _, rfl, hm, bind_eq_ok.mpr ⟨_, hu, rfl⟩, hw _, rfl⟩

end Blocks

namespace Rewritten

variable {db db' : Database} {s s' q : FlightSearch} {offers : List Offer} {o : Offer}

theorem mem_searches (h : Rewritten db db' s s' offers) :
    q ∈ db'.searches ↔ q = s' ∨ (q ∈ db.searches ∧ q.id ≠ s.id) := by
  rw [Table.mem_def, h.searches, mem_amend]
  simp only [decide_eq_true_eq, decide_eq_false_iff_not]
  refine or_congr_left ⟨?_, ?_⟩
  · rintro ⟨_, _, _, rfl⟩
    rfl
  · rintro rfl
    exact ⟨s, h.search_mem, rfl, rfl⟩

theorem search?_self (h : Rewritten db db' s s' offers) : db'.search? s.id = some s' :=
  Database.search?_eq_some.mpr ⟨h.mem_searches.mpr (Or.inl rfl), h.id⟩

theorem mem_offers (h : Rewritten db db' s s' offers) :
    o ∈ db'.offers ↔ o ∈ db.offers ∨ o ∈ offers := by
  rw [Table.mem_def, h.offers, List.mem_append, Table.mem_def]

theorem fresh (h : Rewritten db db' s s' offers) (ho : o ∈ offers) : o ∉ db.offers := by
  intro hold
  have hnd : db'.offers.rows.Nodup := Database.offers_nodup
  rw [h.offers, List.nodup_append] at hnd
  exact hnd.2.2 o hold o ho rfl

theorem offersOf_self (h : Rewritten db db' s s' offers) :
    db'.offersOf s.id = db.offersOf s.id ++ offers := by
  have hown : offers.filter (fun o => o.searchId = s.id) = offers :=
    List.filter_eq_self.mpr fun o ho => by simp [h.owners o ho]
  rw [Database.offersOf, h.offers, List.filter_append, hown, Database.offersOf]

theorem offersOf_of_ne {id : String} (h : Rewritten db db' s s' offers) (hne : id ≠ s.id) :
    db'.offersOf id = db.offersOf id := by
  have hnil : offers.filter (fun o => o.searchId = id) = [] :=
    List.filter_eq_nil_iff.mpr fun o ho => by simp [h.owners o ho, hne.symm]
  rw [Database.offersOf, h.offers, List.filter_append, hnil, List.append_nil, Database.offersOf]

end Rewritten

end Ioka
