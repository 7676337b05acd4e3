import Ioka.Database.Models
import Ioka.Relational.Changelog

/-! # Reading the audit log

The log holds rows of two kinds. A row of a status change is read as a change of
one entity, and the rows together as a changelog of the entities' statuses.
-/

namespace Ioka

open Relational

namespace AuditLog

def before? (row : AuditLog) : Option String :=
  match row.requestPayload.bind (·.member? "before") with
  | some (.str status) => some status
  | _ => none

def after (row : AuditLog) : String :=
  match row.responsePayload.bind (·.member? "after") with
  | some (.str status) => status
  | _ => ""

/-- The change that a row of `add_status_audit` records. -/
def change (row : AuditLog) : Change (String × String) String :=
  ⟨(row.entityType, row.entityId), row.before?, row.after⟩

end AuditLog

namespace Database

/-- The status changes in the order of their commits. -/
def changes (db : Database) : List (Change (String × String) String) :=
  (db.audit.filter fun row => row.kind = .statusChange).map AuditLog.change

def providerRows (db : Database) : List AuditLog :=
  db.audit.filter fun row => row.kind = .providerRequest

/-- The current status of the entity with a type and an id. -/
def statusOf (db : Database) (k : String × String) : Option String :=
  if k.1 = "order" then (db.order? k.2).map fun o => o.status.value
  else if k.1 = "flight_search" then (db.search? k.2).map fun s => s.status.value
  else none

section Rows

variable {db db' : Database} {entityType entityId action after : String} {before : Option String}
  {request : Json} {response : Option Json} {durationMs statusCode : ℤ} {error : Option String}
  {o : Order} {s : FlightSearch} {id : String}

theorem changes_congr (h : db'.audit = db.audit) : db'.changes = db.changes := by
  rw [changes, h, changes]

theorem providerRows_congr (h : db'.audit = db.audit) : db'.providerRows = db.providerRows := by
  rw [providerRows, h, providerRows]

@[simp] theorem changes_addStatusAudit :
    (db.addStatusAudit entityType entityId action before after).changes =
      db.changes ++ [⟨(entityType, entityId), before, after⟩] := by
  cases before <;>
    simp [changes, addStatusAudit, AuditLog.change, AuditLog.before?, AuditLog.after, Json.member?]

@[simp] theorem changes_addProviderAudit :
    (db.addProviderAudit action entityType entityId request response durationMs statusCode
      error).changes = db.changes := by
  simp [changes, addProviderAudit]

@[simp] theorem providerRows_addStatusAudit :
    (db.addStatusAudit entityType entityId action before after).providerRows =
      db.providerRows := by
  simp [providerRows, addStatusAudit]

theorem statusOf_order (h : db.order? id = some o) :
    db.statusOf ("order", id) = some o.status.value := by
  simp [statusOf, h]

theorem statusOf_search (h : db.search? id = some s) :
    db.statusOf ("flight_search", id) = some s.status.value := by
  simp [statusOf, h]

theorem statusOf_congr {k : String × String} (ho : k.1 = "order" → db'.order? k.2 = db.order? k.2)
    (hs : k.1 = "flight_search" → db'.search? k.2 = db.search? k.2) :
    db'.statusOf k = db.statusOf k := by
  unfold statusOf
  by_cases h₁ : k.1 = "order"
  · simp [h₁, ho h₁]
  · by_cases h₂ : k.1 = "flight_search"
    · simp [h₂, hs h₂]
    · simp [h₁, h₂]

end Rows

end Database

/-- A commit adds one row of a provider call to the log. -/
def CallRow (db db' : Database) (action : String) (statusCode : ℤ) : Prop :=
  ∃ row : AuditLog, db'.providerRows = db.providerRows ++ [row] ∧ row.action = action ∧
    row.statusCode = some statusCode

theorem callRow_addProviderAudit (db : Database) (action entityType entityId : String)
    (request : Json) (response : Option Json) (durationMs statusCode : ℤ)
    (error : Option String) :
    CallRow db (db.addProviderAudit action entityType entityId request response durationMs
      statusCode error) action statusCode :=
  ⟨_, List.filter_append _ _, rfl, rfl⟩

/-- A commit logs the result of a provider call together with a change of status. -/
structure CallLogged (db db' : Database) (action : String) (statusCode : ℤ)
    (a : Change (String × String) String) : Prop where
  changes : db'.changes = db.changes ++ [a]
  row : CallRow db db' action statusCode

theorem CallLogged.of_audit {db db' : Database} {entityType entityId action statusAction after :
    String} {before : Option String} {request : Json} {response : Option Json}
    {durationMs statusCode : ℤ} {error : Option String}
    (h : db'.audit = ((db.addProviderAudit action entityType entityId request response durationMs
      statusCode error).addStatusAudit entityType entityId statusAction before after).audit) :
    CallLogged db db' action statusCode ⟨(entityType, entityId), before, after⟩ := by
  constructor
  · rw [Database.changes_congr h, Database.changes_addStatusAudit,
      Database.changes_addProviderAudit]
  · rw [CallRow, Database.providerRows_congr h, Database.providerRows_addStatusAudit]
    exact callRow_addProviderAudit ..

/-- What a commit logs: nothing where no status changes, or the change of one entity. -/
inductive Logged (db db' : Database) : Prop
  | silent : db'.changes = db.changes → (∀ k, db'.statusOf k = db.statusOf k) → Logged db db'
  | change {a : Change (String × String) String} : db'.changes = db.changes ++ [a] →
      a.before = db.statusOf a.key → db'.statusOf a.key = some a.after →
      (∀ k, k ≠ a.key → db'.statusOf k = db.statusOf k) → Logged db db'

theorem Logged.refl (db : Database) : Logged db db := .silent rfl fun _ => rfl

theorem Logged.replays {db db' : Database} (h : Logged db db')
    (hr : Replays db.changes db.statusOf) : Replays db'.changes db'.statusOf := by
  cases h with
  | silent hc hs =>
    rw [hc]
    exact hr.congr hs
  | change hc hb ha ho =>
    rw [hc]
    exact hr.snoc hb ha ho

end Ioka
