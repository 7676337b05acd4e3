import Ioka.Booking.Audit
import Ioka.Booking.Success
import Ioka.Search.Steps

/-! # The log of provider calls

The row of a provider call is written by the block that stores the result of the
call. It is lost where that block finds nothing to store, or is rolled back. Each
run keeps an account of its own call and of the rows that it wrote, and a call is
audited exactly as long as every result finds its block able to store it.
-/

namespace Ioka

open Relational Transition

/-- A run of `process`, `create_order` or `issue_order`. -/
abbrev Work := ProcessSearch ⊕ Request

/-- What a run notes of its own steps. -/
inductive CallNote
  | called
  | logged (row : AuditLog)
  /-- The provider's answer was saved, or was found to be recorded already. -/
  | kept

def Event.isCall : Event → Bool
  | .bookCalled .. | .issueCalled .. | .searchCalled _ => true
  | _ => false

/-- The search has the offers of the answer. -/
def answerRecorded (db : Database) (provider searchId : String) (items : List ProviderOffer) :
    Bool :=
  (keptItems items).any fun kept => kept.all fun item => (db.offersOf searchId).any fun o =>
    o.provider = provider ∧ o.providerOfferId = item.providerOfferId

/-- The step saves the provider's answer, or finds it recorded. -/
def keepsAnswer (provider : String) (w : World) : Work → Work → Bool
  | .inl p, .inl q =>
    match p.phase, q.phase with
    | .answered .., .done _ => (w.db.search? p.searchId).isSome
    -- The save was refused, maybe because another run has stored the same offers.
    | .answered _ items, .raised .. => answerRecorded w.db provider p.searchId items
    | _, _ => false
  | .inr (.inl p), .inr (.inl q) =>
    match p.phase, q.phase with
    | .booked .., .done (.ok _) | .conflicted _, .done (.ok _) => true
    | _, _ => false
  | .inr (.inr p), .inr (.inr q) =>
    match p.phase, q.phase with
    | .ticketed _, .done (.ok _) => true
    | _, _ => false
  | _, _ => false

/-- The calls that a step made, the rows of provider calls that it added to the log, and whether
it kept the answer. -/
def callNotes (provider : String) (w : World) (p : Work) (w' : World) (q : Work) :
    List CallNote :=
  ((w'.history.drop w.history.length).filter Event.isCall).map (fun _ => .called) ++
    (w'.db.providerRows.drop w.db.providerRows.length).map .logged ++
    if keepsAnswer provider w p q then [.kept] else []

def rowsOf (notes : List CallNote) : List AuditLog :=
  notes.filterMap fun
    | .logged row => some row
    | _ => none

/-- Where a run stands with its provider call. -/
inductive CallStage
  | ahead | calling | ended
  deriving DecidableEq

def Work.stage : Work → CallStage
  | .inl r =>
    match r.phase with
    | .requested | .started _ => .ahead
    | .done _ => .ended
    | _ => .calling
  | .inr (.inl r) =>
    match r.phase with
    | .requested | .unseen | .offered _ => .ahead
    | .done _ => .ended
    | _ => .calling
  | .inr (.inr r) =>
    match r.phase with
    | .requested | .held _ => .ahead
    | .done _ => .ended
    | _ => .calling

/-- The action of the rows that belong to the call of a run. -/
def Work.action : Work → String
  | .inl _ => "search"
  | .inr (.inl _) => "book"
  | .inr (.inr _) => "issue"

/-- The notes have one row of the call, with one of the codes. -/
def NotesRow (action : String) (notes : List CallNote) (codes : List ℤ) : Prop :=
  ∃ row, rowsOf notes = [row] ∧ row.action = action ∧
    ∃ code ∈ codes, row.statusCode = some code

section Notes

variable {provider : String} {w w' : World} {p q : Work} {db' : Database} {es : List Event}
  {action : String} {statusCode : ℤ} {codes : List ℤ}

theorem CallRow.notes (es : List Event) (h : CallRow w.db db' action statusCode)
    (hes : ∀ e ∈ es, e.isCall = false) (hcode : statusCode ∈ codes) :
    NotesRow action (callNotes provider w p (w.commit db' es) q) codes ∧
      (.kept ∈ callNotes provider w p (w.commit db' es) q ↔
        keepsAnswer provider w p q = true) := by
  obtain ⟨row, hrow, ha, hc⟩ := h
  have hnil : es.filter Event.isCall = [] :=
    List.filter_eq_nil_iff.mpr fun e he => by simp [hes e he]
  have hn : callNotes provider w p (w.commit db' es) q =
      .logged row :: if keepsAnswer provider w p q then [.kept] else [] := by
    simp [callNotes, hrow, hnil]
  rw [hn]
  cases keepsAnswer provider w p q
  · exact ⟨⟨row, rfl, ha, statusCode, hcode, hc⟩, by simp⟩
  · exact ⟨⟨row, rfl, ha, statusCode, hcode, hc⟩, by simp⟩

end Notes

section Steps

variable {provider : String} {sha256 : String → String} {w w' : World} {kept : Bool}

end Steps

/-! ## Runs -/

section Runs

variable {provider : String} {sha256 : String → String} {w : World} {c c' : Accounts}
  {a : Action (Work × List CallNote) WorkChoice}
  {as : List (Action (Work × List CallNote) WorkChoice)} {p p' : Work}
  {l notes : List CallNote} {stored : Bool} {i : ℕ}

end Runs

namespace Example

end Example

end Ioka
