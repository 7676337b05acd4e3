import Ioka.Search.Blocks
import Ioka.Database.World
import Ioka.Transition.Program

/-! # Runs of search processing

`process` as a process that advances one session block or one half of the
provider call at a time. The queue may deliver a message again while an earlier
delivery is still under way, so any number of runs on a search may overlap.
-/

namespace Ioka

open Transition

inductive ProcessPhase
  | requested
  /-- The search is `IN_PROGRESS`. -/
  | started (request : ProviderSearchRequest)
  /-- `provider.search` is under way. -/
  | searching (request : ProviderSearchRequest)
  | answered (request : ProviderSearchRequest) (items : List ProviderOffer)
  | raised (request : ProviderSearchRequest) (error : Raised)
  | done (result : Except Failure Unit)

/-- A run of `process`. -/
structure ProcessSearch where
  searchId : String
  phase : ProcessPhase

inductive ProcessChoice
  | start
  | call
  | answer (items : List ProviderOffer)
  | raise (error : Raised)
  /-- The provider's call ends in a `CancelledError`. -/
  | cancel
  /-- `errorText` is the text of the database error, if the block fails. -/
  | save (newId : ℕ → String) (now : Time) (durationMs : ℤ) (errorText : String)
  | fail (durationMs : ℤ)

namespace ProcessSearch

def finish (r : ProcessSearch) (result : Except Failure Unit) : ProcessSearch :=
  { r with phase := .done result }

def advance (provider : String) (w : World) (r : ProcessSearch) (x : ProcessChoice) :
    Option (World × ProcessSearch) :=
  match r.phase, x with
  | .requested, .start =>
    match processStart w.db r.searchId with
    | .error e => some (w, r.finish (.error e))
    | .ok (none, db) => some (w.commit db [], r.finish (.ok ()))
    | .ok (some request, db) => some (w.commit db [], { r with phase := .started request })
  | .started request, .call =>
    some (w.called (.searchCalled r.searchId), { r with phase := .searching request })
  | .searching request, .answer items => some (w, { r with phase := .answered request items })
  | .searching request, .raise error => some (w, { r with phase := .raised request error })
  | .searching _, .cancel => some (w, r.finish (.error .cancelledError))
  | .answered request items, .save newId now durationMs errorText =>
    match processSave w.db provider r.searchId request items newId now durationMs with
    -- The handler around the call also catches what the save raises.
    | .error e => some (w, { r with phase := .raised request ⟨errorText, e.typeName, false⟩ })
    | .ok db => some (w.commit db [], r.finish (.ok ()))
  | .raised request error, .fail durationMs =>
    match processFail w.db r.searchId request error durationMs with
    | .error e => some (w, r.finish (.error e))
    | .ok db => some (w.commit db [], r.finish (.ok ()))
  | _, _ => none

end ProcessSearch

/-- Any runs of `process` on any searches, their steps in any order. -/
def processing (provider : String) : Program World ProcessSearch ProcessChoice where
  fresh r := r.phase matches .requested
  advance := ProcessSearch.advance provider

@[simp] theorem processing_fresh (provider : String) {r : ProcessSearch} :
    (processing provider).fresh r = true ↔ r.phase = .requested := by
  cases hp : r.phase <;> simp [processing, hp]

abbrev Processing := Config World ProcessSearch

namespace Example

def item : ProviderOffer where
  providerOfferId := "seed-0"
  origin := "TAS"
  destination := "SKD"
  departureAt := 2000
  arrivalAt := 3000
  carrier := "Ioka Airways"
  flightNumber := "IO210"
  fareFamily := "BASIC"
  baggage := "Carry-on 8 kg"
  totalAmount := ⟨100, 0⟩
  currency := "UZS"
  expiresAt := 900
  rawPayload := .obj []

end Example

end Ioka
