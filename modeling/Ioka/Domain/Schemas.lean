import Ioka.Domain.Types
import Ioka.Json.Reordering

/-! # Request bodies and their hash

The validated bodies as the services receive them, their JSON form, and the hash
under which a body is remembered. Collisions apart, the hash tells bodies apart.
-/

namespace Ioka

structure Passenger where
  firstName : String
  lastName : String
  birthDate : Date
  documentNumber : String
  documentExpiry : Date
  citizenship : String
  deriving DecidableEq

structure OrderCreate where
  offerId : String
  passenger : Passenger
  deriving DecidableEq

inductive CabinClass
  | economy | premiumEconomy | business
  deriving DecidableEq

def CabinClass.value : CabinClass → String
  | .economy => "ECONOMY"
  | .premiumEconomy => "PREMIUM_ECONOMY"
  | .business => "BUSINESS"

structure SearchRequest where
  origin : String
  destination : String
  departureDate : Date
  adults : ℤ
  cabinClass : CabinClass
  adults_bounds : 1 ≤ adults ∧ adults ≤ 9
  deriving DecidableEq

def Passenger.modelDump (p : Passenger) : Json := .obj [
  ("first_name", .str p.firstName),
  ("last_name", .str p.lastName),
  ("birth_date", .str p.birthDate.isoformat),
  ("document_number", .str p.documentNumber),
  ("document_expiry", .str p.documentExpiry.isoformat),
  ("citizenship", .str p.citizenship)]

def OrderCreate.modelDump (o : OrderCreate) : Json := .obj [
  ("offer_id", .str o.offerId),
  ("passenger", o.passenger.modelDump)]

/-- The members of `payload.model_dump(mode="json")`. -/
def SearchRequest.modelDump (s : SearchRequest) : List (String × Json) := [
  ("origin", .str s.origin),
  ("destination", .str s.destination),
  ("departure_date", .str s.departureDate.isoformat),
  ("adults", .int s.adults),
  ("cabin_class", .str s.cabinClass.value)]

/-- `{"agent_id": agent_id, **payload.model_dump(mode="json")}` -/
def searchKeyPayload (agentId : String) (payload : SearchRequest) : Json :=
  .obj (("agent_id", .str agentId) :: payload.modelDump)

/-- `request_hash`, over the hexadecimal SHA-256 digest of a text's bytes. -/
def requestHash (sha256 : String → String) (payload : Json) : String := sha256 payload.canonical

theorem Passenger.sortKeys_modelDump (p : Passenger) : p.modelDump.sortKeys = .obj [
    ("birth_date", .str p.birthDate.isoformat),
    ("citizenship", .str p.citizenship),
    ("document_expiry", .str p.documentExpiry.isoformat),
    ("document_number", .str p.documentNumber),
    ("first_name", .str p.firstName),
    ("last_name", .str p.lastName)] := by
  simp [modelDump, Json.sortKeys, Json.sortMembers, List.insertionSort, List.orderedInsert]

theorem OrderCreate.sortKeys_modelDump (o : OrderCreate) : o.modelDump.sortKeys = .obj [
    ("offer_id", .str o.offerId),
    ("passenger", o.passenger.modelDump.sortKeys)] := by
  simp [modelDump, Json.sortKeys, Json.sortMembers, List.insertionSort]

/-- Without collisions of the digest, bodies with one hash are one body. -/
theorem OrderCreate.requestHash_inj {sha256 : String → String} (hs : Function.Injective sha256)
    {a b : OrderCreate} (h : requestHash sha256 a.modelDump = requestHash sha256 b.modelDump) :
    a = b := by
  have hj := Json.dumps_injective (hs h)
  simp only [sortKeys_modelDump, Passenger.sortKeys_modelDump, Json.obj.injEq, List.cons.injEq,
    Prod.mk.injEq, Json.str.injEq, true_and, and_true] at hj
  obtain ⟨ho, hb, hc, he, hn, hf, hl⟩ := hj
  obtain ⟨ao, ⟨_, _, _, _, _, _⟩⟩ := a
  obtain ⟨bo, ⟨_, _, _, _, _, _⟩⟩ := b
  simp_all [Date.isoformat_injective.eq_iff]

theorem CabinClass.value_injective : Function.Injective CabinClass.value := by
  intro c d h
  cases c <;> cases d <;> simp_all [CabinClass.value]

theorem sortKeys_searchKeyPayload (agentId : String) (s : SearchRequest) :
    (searchKeyPayload agentId s).sortKeys = .obj [
      ("adults", .int s.adults),
      ("agent_id", .str agentId),
      ("cabin_class", .str s.cabinClass.value),
      ("departure_date", .str s.departureDate.isoformat),
      ("destination", .str s.destination),
      ("origin", .str s.origin)] := by
  simp [searchKeyPayload, SearchRequest.modelDump, Json.sortKeys, Json.sortMembers,
    List.insertionSort, List.orderedInsert]

/-- Without collisions of the digest, one cache key means one agent and one request. -/
theorem searchKey_inj {sha256 : String → String} (hs : Function.Injective sha256) {a b : String}
    {s t : SearchRequest} (h : requestHash sha256 (searchKeyPayload a s) =
      requestHash sha256 (searchKeyPayload b t)) : a = b ∧ s = t := by
  have hj := Json.dumps_injective (hs h)
  simp only [sortKeys_searchKeyPayload, Json.obj.injEq, List.cons.injEq, Prod.mk.injEq,
    Json.str.injEq, Json.int.injEq, true_and, and_true] at hj
  obtain ⟨hn, ha, hc, hd, he, ho⟩ := hj
  obtain ⟨_, _, _, _, _, _⟩ := s
  obtain ⟨_, _, _, _, _, _⟩ := t
  simp_all [Date.isoformat_injective.eq_iff, CabinClass.value_injective.eq_iff]

/-- Without collisions of the digest, payloads have one hash exactly if they are the same up to
the order of the keys at every depth. -/
theorem requestHash_eq_iff {sha256 : String → String} (hs : Function.Injective sha256) {v w : Json}
    (hd : v.distinctKeys = true) : requestHash sha256 v = requestHash sha256 w ↔ Json.Same v w :=
  hs.eq_iff.trans (Json.canonical_eq_iff hd)

theorem requestHash_eq_iff_nested :
    requestHash id (.obj [("offer_id", .str "é\n"), ("passenger", .obj [("a", .null),
      ("b", .arr [.int (-3)])])]) =
    requestHash id (.obj [("passenger", .obj [("b", .arr [.int (-3)]), ("a", .null)]),
      ("offer_id", .str "é\n")]) := by
  refine (requestHash_eq_iff Function.injective_id (by decide)).mpr ?_
  refine ⟨_, .swap _ _ _, rfl, rfl, rfl, ⟨_, .swap _ _ _, rfl, trivial, rfl, ⟨rfl, trivial⟩,
    trivial⟩, trivial⟩

end Ioka
