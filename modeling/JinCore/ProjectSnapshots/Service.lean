import JinCore.Agent.Logic
import JinCore.Audit.Service
import JinCore.Lib.Table
import JinCore.Security.InjectionSanitizer

/-!
# Snapshots of projects (`project-snapshots.service.ts`, `project-snapshots.store.ts`)

The calls of `create`, `get` and `delete` run beside each other, and each statement is one step, the
append to the audit among them.

* `CreateSnapshotInput`, `snapshotBytes`   what the schema lets through;
* `saveCall`, `restoreCall`, `deleteCall`  the audit of each operation;
* `Phase`            where a call stands;
* `Snapshots`        the rows, the calls, the audit, and what the calls have done to the rows;
* `Snapshots.step`   one statement of one call.
-/

namespace ProjectSnapshots
open JsString Common Audit Security

def snapshotMaxCount : Nat := 100

def ownerActor : JsString := lit "owner:api"

/-- `Record<string, string>`, in the order of its keys -/
abbrev Files := List (JsString × JsString)

/-- an id as a caller writes it, and the `uuid` it stands for -/
structure SnapshotId where
  text : JsString
  uuid : JsString
  cast : uuidColumn text = some uuid

instance : DecidableEq SnapshotId := fun a b =>
  decidable_of_iff (a.text = b.text ∧ a.uuid = b.uuid) ⟨fun h => by
    cases a
    cases b
    cases h.1
    cases h.2
    rfl, fun h => h ▸ ⟨rfl, rfl⟩⟩

/-- the config is its JSON text -/
structure ProjectSnapshot where
  id : JsString
  name : JsString
  note : Option JsString
  createdAt : Int
  fileCount : Nat
  totalBytes : Nat
  files : Files
  config : JsString
  deriving DecidableEq, Repr

structure CreateSnapshotInput where
  name : JsString
  note : Option JsString
  files : Files
  config : Option JsString
  deriving DecidableEq, Repr

/-- an exception of Nest: the status and the message -/
structure HttpException where
  status : Nat
  message : JsString
  deriving DecidableEq, Repr

def notFoundException : HttpException := ⟨404, lit "Respaldo no encontrado."⟩

def conflictException : HttpException where
  status := 409
  message := lit "Ya hay " ++ lit (toString snapshotMaxCount)
    ++ lit " respaldos: borra alguno antes de guardar otro."

/-- the messages of the issues -/
def badRequestException (issues : List JsString) : HttpException :=
  ⟨400, joinWith (lit " ") issues⟩

def snapshotBytes (files : Files) : Nat := (files.map fun file => (utf8 file.2).length).sum

/-- the row of an input, as the insert and the column defaults make it -/
def newRow (input : CreateSnapshotInput) (id : JsString) (now : Int) : ProjectSnapshot where
  id := id
  name := input.name
  note := input.note
  createdAt := now
  fileCount := input.files.length
  totalBytes := snapshotBytes input.files
  files := input.files
  config := input.config.getD (lit "\x7b\x7d")

/-! ## the audit -/

section
variable (sha256 : JsString → JsString)

def idJson (id : JsString) : JsString := lit "\x7b\"id\":" ++ Json.quote id ++ lit "\x7d"

def saveJson (row : ProjectSnapshot) : JsString :=
  lit "\x7b\"id\":" ++ Json.quote row.id ++ lit ",\"name\":" ++ Json.quote row.name
    ++ lit ",\"fileCount\":" ++ natText row.fileCount ++ lit ",\"totalBytes\":"
    ++ natText row.totalBytes ++ lit "\x7d"

def saveCall (requestId : JsString) (row : ProjectSnapshot) : AuditCall :=
  .recordToolCall requestId ownerActor (lit "saveProjectSnapshot")
    (Agent.computeInputsHash sha256 (saveJson row))
    (some (lit "Respaldar el proyecto «" ++ row.name ++ lit "» (" ++ natText row.fileCount
      ++ lit " archivo" ++ (if row.fileCount = 1 then lit "" else lit "s") ++ lit ", "
      ++ natText row.totalBytes ++ lit " bytes)")) .auto none

def restoreCall (requestId : JsString) (id : SnapshotId) (name : JsString) : AuditCall :=
  .recordToolCall requestId ownerActor (lit "restoreProjectSnapshot")
    (Agent.computeInputsHash sha256 (idJson id.text))
    (some (lit "Restaurar el respaldo «" ++ name ++ lit "» al editor")) .auto none

def deleteCall (requestId : JsString) (id : SnapshotId) (name : JsString) : AuditCall :=
  .recordToolCall requestId ownerActor (lit "deleteProjectSnapshot")
    (Agent.computeInputsHash sha256 (idJson id.text))
    (some (lit "Borrar el respaldo «" ++ name ++ lit "»")) .auto none

end

/-! ## the calls -/

inductive Phase where
  | idle
  /-- before `store.count` -/
  | counting (input : CreateSnapshotInput)
  /-- before `store.insert` -/
  | inserting (input : CreateSnapshotInput)
  | auditingSave (row : ProjectSnapshot)
  | created (row : ProjectSnapshot)
  /-- before the `store.get` of `get` -/
  | reading (id : SnapshotId)
  | auditingRestore (id : SnapshotId) (row : ProjectSnapshot)
  | got (id : SnapshotId) (row : ProjectSnapshot)
  /-- before the `store.get` of `delete` -/
  | finding (id : SnapshotId)
  /-- before `store.delete` -/
  | deleting (id : SnapshotId) (existing : ProjectSnapshot)
  | auditingDelete (id : SnapshotId) (existing : ProjectSnapshot)
  | deleted
  | threw (error : HttpException)
  /-- a statement threw -/
  | failed
  deriving DecidableEq

/-- what a call has done to the rows -/
inductive Change where
  | inserted (row : ProjectSnapshot)
  | deleted (id : JsString)
  deriving DecidableEq, Repr

structure Snapshots where
  rows : Table ProjectSnapshot.id
  calls : CallId → Phase
  audit : List (CallId × AuditCall)
  changes : List (CallId × Change)

inductive Action where
  /-- `safeParse` of the body: the issues, or the data -/
  | create (c : CallId) (parsed : Except (List JsString) CreateSnapshotInput)
  | get (c : CallId) (id : SnapshotId)
  | delete (c : CallId) (id : SnapshotId)
  /-- a statement that only reads is answered, or throws -/
  | read (c : CallId) (heard : Bool)
  | insert (c : CallId) (id : JsString) (now : Int) (fate : Fate)
  | deleteRow (c : CallId) (fate : Fate)
  /-- `audit.recordToolCall` -/
  | append (c : CallId) (requestId : JsString) (fate : Fate)

namespace Snapshots

def set (s : Snapshots) (c : CallId) (phase : Phase) : Snapshots :=
  { s with calls := fun k => if k = c then phase else s.calls k }

def change (s : Snapshots) (c : CallId) (change : Change) : Snapshots :=
  { s with changes := (c, change) :: s.changes }

def onCreate (s : Snapshots) (c : CallId) : Except (List JsString) CreateSnapshotInput → Snapshots
  | .error issues => s.set c (.threw (badRequestException issues))
  | .ok input => s.set c (.counting input)

def afterCount (s : Snapshots) (input : CreateSnapshotInput) : Phase :=
  if snapshotMaxCount ≤ s.rows.rows.length then .threw conflictException else .inserting input

/-- the phase after a statement that reads, if the call stands before one -/
def afterRead (s : Snapshots) : Phase → Option Phase
  | .counting input => some (s.afterCount input)
  | .reading id =>
    match s.rows.get id.uuid with
    | none => some (.threw notFoundException)
    | some row => some (.auditingRestore id row)
  | .finding id =>
    match s.rows.get id.uuid with
    | none => some (.threw notFoundException)
    | some existing => some (.deleting id existing)
  | _ => none

/-- the row is there -/
def inserted (s : Snapshots) (c : CallId) (row : ProjectSnapshot) (phase : Phase) : Option Snapshots :=
  (s.rows.insert row).map fun rows => ({ s with rows := rows }.change c (.inserted row)).set c phase

def onInsert (s : Snapshots) (c : CallId) (row : ProjectSnapshot) : Fate → Option Snapshots
  | .lost => some (s.set c .failed)
  | .ok => s.inserted c row (.auditingSave row)
  | .applied => s.inserted c row .failed

/-- the delete returns the rows that it has deleted -/
def onDelete (s : Snapshots) (c : CallId) (id : SnapshotId) (existing : ProjectSnapshot) (fate : Fate) :
    Snapshots :=
  let t := { s with rows := s.rows.erase id.uuid }.change c (.deleted id.uuid)
  match fate, s.rows.get id.uuid with
  | .lost, _ => s.set c .failed
  | .ok, none => s.set c (.threw notFoundException)
  | .applied, none => s.set c .failed
  | .ok, some _ => t.set c (.auditingDelete id existing)
  | .applied, some _ => t.set c .failed

/-- the row that the call appends, and the phase after it -/
def appends (sha256 : JsString → JsString) (requestId : JsString) : Phase → Option (AuditCall × Phase)
  | .auditingSave row => some (saveCall sha256 requestId row, .created row)
  | .auditingRestore id row => some (restoreCall sha256 requestId id row.name, .got id row)
  | .auditingDelete id existing => some (deleteCall sha256 requestId id existing.name, .deleted)
  | _ => none

def onAppend (s : Snapshots) (c : CallId) (call : AuditCall) (next : Phase) : Fate → Snapshots
  | .lost => s.set c .failed
  | .ok => { s with audit := (c, call) :: s.audit }.set c next
  | .applied => { s with audit := (c, call) :: s.audit }.set c .failed

def step (sha256 : JsString → JsString) (s : Snapshots) : Action → Option Snapshots
  | .create c parsed =>
    match s.calls c with
    | .idle => some (s.onCreate c parsed)
    | _ => none
  | .get c id =>
    match s.calls c with
    | .idle => some (s.set c (.reading id))
    | _ => none
  | .delete c id =>
    match s.calls c with
    | .idle => some (s.set c (.finding id))
    | _ => none
  | .read c heard =>
    (s.afterRead (s.calls c)).map fun next => s.set c (if heard then next else .failed)
  | .insert c id now fate =>
    match s.calls c with
    | .inserting input => s.onInsert c (newRow input id now) fate
    | _ => none
  | .deleteRow c fate =>
    match s.calls c with
    | .deleting id existing => some (s.onDelete c id existing fate)
    | _ => none
  | .append c requestId fate =>
    (appends sha256 requestId (s.calls c)).map fun (call, next) => s.onAppend c call next fate

def empty : Snapshots where
  rows := .empty ProjectSnapshot.id
  calls := fun _ => .idle
  audit := []
  changes := []

end Snapshots

end ProjectSnapshots
