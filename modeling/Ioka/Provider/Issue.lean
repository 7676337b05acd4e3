import Ioka.Provider.Mock

/-! # The tickets of the mock airline

`issue` computes the number of a ticket from a digest of the booking id and the key, and
remembers it by the key alone: a second call with the key gets the first ticket, whatever
booking it names.
-/

namespace Ioka

/-- `f"{n:010d}"` for a number of at most ten digits -/
def pad10 (n : ℕ) : List Char :=
  (List.range 10).reverse.map fun i => (n / 10 ^ i % 10).digitChar

/-- The mock airline with its dictionary of tickets, the last one first. -/
structure MockAirline where
  provider : MockAirlineProvider
  tickets : List (String × ProviderTicket)

namespace MockAirline

/-- An airline that nobody has called. -/
def idle : MockAirline := ⟨⟨[]⟩, []⟩

variable (sha256 : String → String)

/-- The number of the ticket for a booking and a new idempotency key. -/
def ticketNumberOf (providerBookingId key : String) : String :=
  let digest := sha256 (providerBookingId ++ ":" ++ key)
  "250-" ++ String.ofList (pad10 (intOfHex (slice 10 digest) % 10000000000))

def book (p : MockAirline) (key : String) : ProviderBooking × MockAirline :=
  let (booking, provider) := p.provider.book sha256 key
  (booking, { p with provider := provider })

/-- `issue`, which makes a ticket only for a key without one. -/
def issue (p : MockAirline) (providerBookingId key : String) (now : Time) :
    ProviderTicket × MockAirline :=
  match p.tickets.lookup key with
  | some ticket => (ticket, p)
  | none =>
    let ticket := ⟨ticketNumberOf sha256 providerBookingId key, now⟩
    (ticket, { p with tickets := (key, ticket) :: p.tickets })

variable {sha256} {p : MockAirline} {b key : String} {now : Time}

variable (sha256) in
theorem issue_cases (p : MockAirline) (b key : String) (now : Time) :
    (∃ t, (key, t) ∈ p.tickets ∧ p.issue sha256 b key now = (t, p)) ∨
    (key ∉ p.tickets.map (·.1) ∧ p.issue sha256 b key now =
      (⟨ticketNumberOf sha256 b key, now⟩,
        { p with tickets := (key, ⟨ticketNumberOf sha256 b key, now⟩) :: p.tickets })) := by
  unfold issue
  cases hl : p.tickets.lookup key with
  | some t =>
    obtain ⟨l, l', hsplit, _⟩ := List.lookup_eq_some_iff.mp hl
    exact Or.inl ⟨t, hsplit ▸ List.mem_append_right _ List.mem_cons_self, rfl⟩
  | none =>
    refine Or.inr ⟨fun hkey => ?_, rfl⟩
    obtain ⟨⟨k, t⟩, hm, rfl⟩ := List.mem_map.mp hkey
    simpa using List.lookup_eq_none_iff.mp hl _ hm

theorem mem_issue (p : MockAirline) (b key : String) (now : Time) :
    (key, (p.issue sha256 b key now).1) ∈ (p.issue sha256 b key now).2.tickets := by
  rcases issue_cases sha256 p b key now with ⟨t, hm, he⟩ | ⟨_, he⟩
  · rw [he]
    exact hm
  · rw [he]
    exact List.mem_cons_self

theorem tickets_issue (p : MockAirline) (b key : String) (now : Time) :
    p.tickets ⊆ (p.issue sha256 b key now).2.tickets := by
  rcases issue_cases sha256 p b key now with ⟨t, _, he⟩ | ⟨_, he⟩
  · rw [he]
    exact List.Subset.refl _
  · rw [he]
    exact List.subset_cons_self _ _

theorem length_ticketNumberOf (b key : String) :
    (ticketNumberOf sha256 b key).toList.length = 14 := by
  simp [ticketNumberOf, pad10]

theorem storable_pad10 (n : ℕ) : Storable (String.ofList (pad10 n)) := by
  have hdigit : ∀ k < 10, Nat.digitChar k ≠ '\x00' := by decide
  intro hm
  rw [String.toList_ofList, pad10, List.mem_map] at hm
  obtain ⟨i, _, hi⟩ := hm
  exact hdigit _ (Nat.mod_lt _ (by decide)) hi

theorem kept_ticketNumberOf {t : ProviderTicket}
    (h : t.ticketNumber = ticketNumberOf sha256 b key) : t.kept = some t := by
  refine ProviderTicket.kept_of_fits (h ▸ ⟨?_, ?_⟩)
  · rw [length_ticketNumberOf]
    decide
  · exact Storable.append (by decide) (storable_pad10 _)

end MockAirline

end Ioka
