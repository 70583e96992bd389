import Messgr.Dispatcher.Worker
import Messgr.Keys
import Messgr.Lib.Prog
import Messgr.Receipts.Repo

/-!
# The receipt jobs

A provider's receipt is stored by the webhook in `webhook_receipt_staging`
(`src/webhook_receipt/repo.rs`). The job `webhook-promote` (`src/webhook_receipt/promote.rs`) turns
it into a `comms_event` of the request it belongs to, or hands it to `orphan_event`, where the job
`orphan-reconcile` (`src/orphan_reconcile/reconcile.rs`) looks for its request again until the
attempts cap is reached. A run is a program of statements, each a transaction or a round trip to
Vault, and `system` interleaves any number of runs, which may overlap, with webhook deliveries,
operators, ingest and the dispatcher.

`Inbox.log` and `Inbox.born` are no part of the database: they record what statements did and which
rows were ever inserted.
-/

namespace Messgr

/-! ## Event types as texts -/

/-- The text of a status in the tables. Source: `0004_ledger_outbox_schema.sql`. -/
def Status.text : Status → String
  | .queued => "queued"
  | .sent => "sent"
  | .delivered => "delivered"
  | .read => "read"
  | .failed => "failed"
  | .bounced => "bounced"
  | .complaint => "complaint"
  | .expired => "expired"
  | .cancelled => "cancelled"
  | .suppressedConsent => "suppressed_consent"
  | .suppressedList => "suppressed_list"
  | .unverifiedAddress => "unverified_address"
  | .discarded => "discarded"

/-- The status that the text of a receipt names, if it is one of those a receipt may set. Source:
`reconcile.rs`, `is_recognized_event_type`. -/
def recognizeEventType (eventType : String) : Option Status :=
  (statusOrder ++ absorbingStatuses).find? (·.text = eventType)

theorem recognizeEventType_some {eventType : String} {status : Status}
    (h : recognizeEventType eventType = some status) :
    status.text = eventType ∧ isRecognizedEventType status = true := by
  refine ⟨by simpa using List.find?_some h, ?_⟩
  simpa [isRecognizedEventType] using List.mem_of_find?_eq_some h

namespace Receipts

/-! ## Rows -/

/-- What both holding tables keep of a receipt. Source: `0004_ledger_outbox_schema.sql`,
`0018_webhook_receipt_staging.sql`. -/
structure PendingReceipt where
  id : Uuid
  provider : String
  providerRef : String
  occurredAt : Time
  eventType : String
  providerStatus : Option String
deriving DecidableEq

/-- What makes two receipts the same: the unique constraint of `webhook_receipt_staging`. -/
abbrev PendingReceipt.key (p : PendingReceipt) : String × String × String × Time :=
  (p.provider, p.providerRef, p.eventType, p.occurredAt)

/-- A row of `webhook_receipt_staging`, the payload as its serialised bytes. Source:
`webhook_receipt/repo.rs`, `PendingStagingReceipt`. -/
structure StagingRow extends PendingReceipt where
  providerPayloadRaw : Bytes
deriving DecidableEq

/-- A row of `orphan_event`. Source: `src/orphan_reconcile/repo.rs`, `PendingOrphan`. -/
structure OrphanRow extends PendingReceipt where
  providerPayloadRaw : Option Bytes
  reconcileAttempts : Nat
deriving DecidableEq

/-- The two holding tables. -/
inductive Holding
  | staging
  | orphan
deriving DecidableEq

/-- A receipt whose text names a status that a receipt may set. -/
structure Recognized extends PendingReceipt where
  status : Status
  named : status.text = eventType
  recognized : isRecognizedEventType status = true
deriving DecidableEq

/-- The guard of both jobs before they look for a match. -/
def PendingReceipt.recognized? (p : PendingReceipt) : Option Recognized :=
  match h : recognizeEventType p.eventType with
  | some status =>
    some ⟨p, status, (recognizeEventType_some h).1, (recognizeEventType_some h).2⟩
  | none => none

theorem recognized?_some {p : PendingReceipt} {x : Recognized} (h : p.recognized? = some x) :
    x.toPendingReceipt = p := by
  unfold PendingReceipt.recognized? at h
  split at h
  · cases h; rfl
  · cases h

/-- What is promoted of it. -/
def Recognized.toReceipt (x : Recognized) : Receipt :=
  ⟨x.providerRef, x.status, x.providerStatus, x.occurredAt⟩

/-- A row that was inserted into a holding table. -/
structure Copy where
  holding : Holding
  receipt : PendingReceipt
deriving DecidableEq

/-! ## State -/

/-- A pass of the dispatcher over a row it claimed. -/
structure Pass where
  cfg : Config
  row : OutboxRow
  next : Next

/-- A promotion that a run makes: the receipt with the table that holds it, what it was matched
with, and the time. -/
structure Promotion where
  run : Nat
  held : Holding
  receipt : Recognized
  matched : Match
  ciphertext : Option Bytes
  now : Time
deriving DecidableEq

/-- What is observed of a run `t` or of a pass `i`. -/
inductive Obs
  /-- The webhook accepted a receipt. -/
  | accepted (p : PendingReceipt)
  /-- The rows that a run works on. -/
  | listed (t : Nat) (ids : List Uuid)
  /-- What `find_match` answered. -/
  | matched (t : Nat) (p : PendingReceipt) (m : Option Match)
  /-- A promotion was committed. -/
  | promoted (x : Promotion)
  /-- A staging row was handed to `orphan_event`. -/
  | orphaned (t : Nat) (p : PendingReceipt)
  /-- A miss was counted; whether the row was there to record it. -/
  | missed (t : Nat) (id : Uuid) (recorded : Bool)
  /-- `record_miss` deleted a row. -/
  | deleted (t : Nat) (p : PendingReceipt) (cap : Nat)
  /-- The warning that a row has aged out. -/
  | agedOut (t : Nat) (id : Uuid)
  /-- A statement about a row failed. -/
  | failed (t : Nat) (id : Uuid)
  /-- An operator added or retired the suppression of a destination. -/
  | edited (destinationHmac : Bytes)
  /-- The suppression read of a pass over a request with this destination. -/
  | gate (i : Nat) (destinationHmac : Bytes) (now : Time)
  /-- The provider was called. -/
  | called (i : Nat)
  /-- A pass ended its row; the request's `final_status` after that. -/
  | wrote (i : Nat) (finalStatus : Option Status)
deriving DecidableEq

/-- A tenant's database with the two holding tables, the partitions of `comms_event` as intervals of
`occurred_at`, and the passes of the dispatcher. -/
structure Inbox where
  db : TenantDb
  staging : Table StagingRow (·.key)
  orphans : Table OrphanRow (·.id)
  partitions : List (Time × Time)
  passes : List Pass
  born : Table Copy (·.receipt.id)
  log : List Obs

namespace Inbox

/-- A tenant before its first receipt. -/
def start (db : TenantDb) (partitions : List (Time × Time)) : Inbox :=
  ⟨db, ∅, ∅, partitions, [], ∅, []⟩

def note (s : Inbox) (o : Obs) : Inbox := { s with log := s.log ++ [o] }

/-- A partition of `comms_event` covers the time. -/
def covers (s : Inbox) (occurredAt : Time) : Bool :=
  s.partitions.any fun p => p.1 ≤ occurredAt && occurredAt < p.2

/-! ## Transactions of the jobs -/

/-- `DELETE .. WHERE id = $1` on a holding table. -/
def remove (s : Inbox) (id : Uuid) : Holding → Inbox
  | .staging => { s with staging := s.staging.delete (·.id = id) }
  | .orphan => { s with orphans := s.orphans.delete (·.id = id) }

/-- The transaction that promotes a receipt and deletes the row that held it. Source:
`webhook_receipt/repo.rs`, `orphan_reconcile/repo.rs`, `promote`. -/
def promote (s : Inbox) (x : Promotion) : Inbox :=
  { s.remove x.receipt.id x.held with
    db := promoteMatch s.db x.now x.matched x.receipt.toReceipt x.ciphertext
    log := s.log ++ [.promoted x] }

/-- The transaction that hands a staging row to `orphan_event`, under an id just generated. Source:
`webhook_receipt/repo.rs`. -/
def toOrphan (s : Inbox) (t : Nat) (row : StagingRow) (newId : Uuid) : Option Inbox :=
  let p := { row.toPendingReceipt with id := newId }
  match s.born.insert? ⟨.orphan, p⟩, s.orphans.insert? ⟨p, some row.providerPayloadRaw, 0⟩ with
  | some born, some orphans =>
    some { s.remove row.id .staging with
      born := born, orphans := orphans, log := s.log ++ [.orphaned t row.toPendingReceipt] }
  | _, _ => none

/-- `UPDATE orphan_event SET reconcile_attempts = reconcile_attempts + 1`. Source:
`orphan_reconcile/repo.rs`, `record_miss`. -/
def countMiss (s : Inbox) (t : Nat) (id : Uuid) : Inbox :=
  { s with
    orphans := s.orphans.update (·.id = id)
      (fun r => { r with reconcileAttempts := r.reconcileAttempts + 1 }) fun _ => rfl
    log := s.log ++ [.missed t id (s.orphans.rows.any (·.id = id))] }

/-- The row that `DELETE FROM orphan_event WHERE id = $1 AND reconcile_attempts >= $2` removes. -/
def exhausted? (s : Inbox) (id : Uuid) (cap : Nat) : Option OrphanRow :=
  s.orphans.rows.find? fun r => r.id = id && r.reconcileAttempts ≥ cap

/-- That statement. Source: `orphan_reconcile/repo.rs`, `record_miss`. -/
def deleteMissed (s : Inbox) (t : Nat) (id : Uuid) (cap : Nat) : Inbox :=
  match s.exhausted? id cap with
  | some r => (s.remove id .orphan).note (.deleted t r.toPendingReceipt cap)
  | none => s

/-! ## The other services -/

/-- The webhook's one statement: `INSERT .. ON CONFLICT DO NOTHING`, the row under an id just
generated. Source: `webhook_receipt/repo.rs`. -/
def insertStaging (s : Inbox) (row : StagingRow) : Option Inbox :=
  match s.staging.insert? row with
  | none => some (s.note (.accepted row.toPendingReceipt))
  | some staging =>
    (s.born.insert? ⟨.staging, row.toPendingReceipt⟩).map fun born =>
      { s with
        staging := staging, born := born, log := s.log ++ [.accepted row.toPendingReceipt] }

/-- The tables of the dispatcher's gates with another suppression list. -/
def withSuppression (s : Inbox)
    (suppression : Table SuppressionRow SuppressionRow.destinationHmac) : Inbox :=
  { s with db := { s.db with gates := { s.db.gates with suppression := suppression } } }

/-- An operator's entry. Source: `src/suppression/repo.rs`, `upsert`. -/
def upsertSuppression (s : Inbox) (input : SuppressionRow) : Inbox :=
  let suppression := s.db.gates.suppression
  let row :=
    match suppression.find? input.destinationHmac with
    | some old => { input with addedAt := old.addedAt }
    | none => input
  (s.withSuppression (suppression.upsert row)).note (.edited input.destinationHmac)

/-- An operator's removal. Source: `suppression/repo.rs`. -/
def retireNow (s : Inbox) (destinationHmac : Bytes) (now : Time) : Inbox :=
  (s.withSuppression (s.db.gates.suppression.update
    (fun r => r.destinationHmac = destinationHmac && r.reviewAt > now)
    (fun r => { r with reviewAt := now }) fun _ => rfl)).note (.edited destinationHmac)

/-- What is observed of one step of a pass. -/
def passObs (s : Inbox) (i : Nat) (row : OutboxRow) (env : Env) (db' : TenantDb) :
    Stage → List Obs
  | .suppression =>
    match env.reply, s.db.commsRequest.find? (row.createdAt, row.commsRequestId) with
    | .ok, some r => [.gate i r.destinationHmac env.now]
    | _, _ => []
  | .send => [.called i]
  | .terminal _ _ _ =>
    match env.reply with
    | .failed => []
    | _ => [.wrote i ((db'.commsRequest.find? (row.createdAt, row.commsRequestId)).bind
        (·.finalStatus))]
  | _ => []

/-- One step of a pass. -/
def pass (s : Inbox) (i : Nat) (env : Env) : Option Inbox :=
  match s.passes[i]? with
  | some ⟨cfg, row, .goto stage⟩ =>
    let (next, db') := Messgr.tryProcess cfg s.db row env stage
    some { s with
      db := db', passes := s.passes.set i ⟨cfg, row, next⟩
      log := s.log ++ s.passObs i row env db' stage }
  | _ => none

end Inbox

/-! ## Statements -/

/-- The statements of a run. Those about a row carry it. -/
inductive Stmt
  | listStaging
  | listOrphans
  | findMatch (p : PendingReceipt)
  | getOrCreateDek (p : PendingReceipt) (customerId : Uuid)
  | encrypt (p : PendingReceipt) (dek aad plaintext : Bytes)
  | promote (held : Holding) (x : Recognized) (m : Match) (ciphertext : Option Bytes)
  | toOrphan (row : StagingRow)
  | countMiss (row : OrphanRow)
  | deleteMissed (row : OrphanRow) (cap : Nat)
  | warn (row : OrphanRow)

/-- What a statement answers. -/
def Stmt.Answer : Stmt → Type
  | .listStaging => List StagingRow
  | .listOrphans => List OrphanRow
  | .findMatch _ => Option Match
  | .getOrCreateDek _ _ => Bytes
  | .encrypt _ _ _ _ => Bytes
  | .promote _ _ _ _ => Unit
  | .toOrphan _ => Unit
  | .countMiss _ => Unit
  | .deleteMissed _ _ => Unit
  | .warn _ => Unit

/-- The row that a statement is about. -/
def Stmt.row : Stmt → Option Uuid
  | .listStaging | .listOrphans => none
  | .findMatch p | .getOrCreateDek p _ | .encrypt p _ _ _ => some p.id
  | .promote _ x _ _ => some x.id
  | .toOrphan row => some row.id
  | .countMiss row | .deleteMissed row _ | .warn row => some row.id

/-- Source: `reconcile.rs`, `OrphanReconcileError`;
`promote.rs`, `WebhookPromoteError`. -/
inductive JobError
  | database
  | vault
  | encryption (e : EncryptionError)
deriving DecidableEq

/-- What the environment decides about a statement: how it ends, the clock, an id or nonce
generated, the result of the DEK lookup and the order in which a `SELECT` returns its rows. -/
structure Event where
  reply : Reply := .ok
  now : Time := 0
  newId : Uuid := ⟨0⟩
  nonce : Nonce := .sample
  dek : Except JobError Bytes := .ok (List.replicate 32 0)
  staging : List StagingRow := []
  orphans : List OrphanRow := []

/-- The greatest value of a `smallint` column. -/
def smallintMax : Nat := 32767

/-- The `UPDATE` of a miss would leave the range of its column. -/
def Inbox.overflows (s : Inbox) (id : Uuid) : Bool :=
  s.orphans.rows.any fun r => r.id = id && r.reconcileAttempts ≥ smallintMax

/-- A statement about a row that failed. -/
def Inbox.fail {α : Type} (s : Inbox) (t : Nat) (id : Uuid) (e : JobError) :
    Inbox × Except JobError α :=
  (s.note (.failed t id), .error e)

/-- A write about a row, by how it ends. -/
def Inbox.write (s s' : Inbox) (t : Nat) (id : Uuid) : Reply → Inbox × Except JobError Unit
  | .ok => (s', .ok ())
  | .failed => s.fail t id .database
  | .lost => s'.fail t id .database

section
variable [Aes256Gcm]

/-- What a statement of run `t` does. -/
def exec (t : Nat) (s : Inbox) : (c : Stmt) → Event → Option (Inbox × Except JobError c.Answer)
  | .listStaging, e =>
    match e.reply with
    | .ok =>
      if e.staging.isPerm s.staging.rows then
        some (s.note (.listed t (e.staging.map (·.id))), .ok e.staging)
      else none
    | _ => some (s, .error .database)
  | .listOrphans, e =>
    match e.reply with
    | .ok =>
      if e.orphans.isPerm s.orphans.rows then
        some (s.note (.listed t (e.orphans.map (·.id))), .ok e.orphans)
      else none
    | _ => some (s, .error .database)
  | .findMatch p, e =>
    match e.reply with
    | .ok => some (s.note (.matched t p (findMatch s.db p.providerRef)),
        .ok (findMatch s.db p.providerRef))
    | _ => some (s.fail t p.id .database)
  | .getOrCreateDek p _, e =>
    match e.dek with
    | .ok dek => some (s, .ok dek)
    | .error err => some (s.fail t p.id err)
  | .encrypt p dek aad plaintext, e =>
    match Messgr.encrypt e.nonce dek aad plaintext with
    | .ok blob => some (s, .ok blob)
    | .error err => some (s.fail t p.id (.encryption err))
  | .promote held x m ciphertext, e =>
    if s.covers x.occurredAt then
      some (s.write (s.promote ⟨t, held, x, m, ciphertext, e.now⟩) t x.id e.reply)
    else some (s.fail t x.id .database)
  | .toOrphan row, e =>
    (s.toOrphan t row e.newId).map fun s' => s.write s' t row.id e.reply
  | .countMiss row, e =>
    if s.overflows row.id then some (s.fail t row.id .database)
    else some (s.write (s.countMiss t row.id) t row.id e.reply)
  | .deleteMissed row cap, e => some (s.write (s.deleteMissed t row.id cap) t row.id e.reply)
  | .warn row, _ => some (s.note (.agedOut t row.id), .ok ())

end

/-! ## The jobs -/

/-- Source: `promote.rs`. -/
structure PromoteReport where
  promoted : Nat := 0
  orphaned : Nat := 0
deriving DecidableEq

/-- Source: `reconcile.rs`. -/
structure ReconcileReport where
  reconciled : Nat := 0
  agedOut : Nat := 0
  stillPending : Nat := 0
deriving DecidableEq

/-- What a run returns. -/
inductive Report
  | promote (report : PromoteReport)
  | reconcile (report : ReconcileReport)
deriving DecidableEq

/-- A run, or a part of one. -/
abbrev Program := Prog Stmt.Answer JobError

/-- The match of a receipt that is recognised, with the status it names. Source: the first
statement of the loop of `run` in both jobs. -/
def lookUp (p : PendingReceipt) : Program (Option (Recognized × Match)) :=
  match p.recognized? with
  | some x => do
    let m ← Prog.stmt (Stmt.findMatch p)
    return Option.map (x, ·) m
  | none => return none

/-- The payload under the customer's key. Source: `promote_match` of both jobs. -/
def sealPayload (p : PendingReceipt) (m : Match) (plaintext : Bytes) : Program Bytes := do
  let dek ← Prog.stmt (Stmt.getOrCreateDek p m.customerId)
  Prog.stmt (Stmt.encrypt p dek m.commsRequestId.asBytes plaintext)

/-- Source: `promote.rs`, `promote_match`. -/
def promoteStaging (row : StagingRow) (x : Recognized) (m : Match) : Program Unit := do
  let ciphertext ← sealPayload row.toPendingReceipt m row.providerPayloadRaw
  Prog.stmt (Stmt.promote .staging x m (some ciphertext))

/-- Source: `reconcile.rs`, `promote_match`. -/
def promoteOrphan (row : OrphanRow) (x : Recognized) (m : Match) : Program Unit := do
  match row.providerPayloadRaw with
  | some raw => do
    let ciphertext ← sealPayload row.toPendingReceipt m raw
    Prog.stmt (Stmt.promote .orphan x m (some ciphertext))
  | none => Prog.stmt (Stmt.promote .orphan x m none)

/-- Two statements, each on its own. Source: `orphan_reconcile/repo.rs`. -/
def recordMiss (row : OrphanRow) (cap : Nat) : Program Unit := do
  Prog.stmt (Stmt.countMiss row)
  Prog.stmt (Stmt.deleteMissed row cap)

/-- The loop of `webhook-promote`. Source: `promote.rs`, `run`. -/
def promoteAll (report : PromoteReport) : List StagingRow → Program PromoteReport
  | [] => return report
  | row :: rows => do
    match ← lookUp row.toPendingReceipt with
    | some (x, m) =>
      promoteStaging row x m
      promoteAll { report with promoted := report.promoted + 1 } rows
    | none =>
      Prog.stmt (Stmt.toOrphan row)
      promoteAll { report with orphaned := report.orphaned + 1 } rows

/-- The loop of `orphan-reconcile`: which report a miss is counted in is decided by the attempts of
the row as it was listed. Source: `reconcile.rs`, `run`. -/
def reconcileAll (cap : Nat) (report : ReconcileReport) : List OrphanRow → Program ReconcileReport
  | [] => return report
  | row :: rows => do
    match ← lookUp row.toPendingReceipt with
    | some (x, m) =>
      promoteOrphan row x m
      reconcileAll cap { report with reconciled := report.reconciled + 1 } rows
    | none =>
      if row.reconcileAttempts + 1 ≥ cap then
        recordMiss row cap
        Prog.stmt (Stmt.warn row)
        reconcileAll cap { report with agedOut := report.agedOut + 1 } rows
      else
        recordMiss row cap
        reconcileAll cap { report with stillPending := report.stillPending + 1 } rows

/-- A run of one of the jobs; a reconciler has read its cap from `tenant_config`, where it is
positive. -/
inductive Job
  | webhookPromote
  | orphanReconcile (cap : Nat)
deriving DecidableEq

/-- Source: `promote.rs`, `reconcile.rs`, `run`. -/
def run : Job → Program Report
  | .webhookPromote => do
    let rows ← Prog.stmt Stmt.listStaging
    let report ← promoteAll {} rows
    return .promote report
  | .orphanReconcile cap => do
    let rows ← Prog.stmt Stmt.listOrphans
    let report ← reconcileAll cap {} rows
    return .reconcile report

/-! ## The system -/

/-- Moves of the services that are not receipt jobs. -/
inductive Move
  | deliver (row : StagingRow)
  | addSuppression (input : SuppressionRow)
  | removeSuppression (destinationHmac : Bytes) (now : Time)
  | createPartition (start stop : Time)
  | accept (now : Time) (c : NewComms)
  | audit (now : Time) (a : AuditRecord)
  | beginPass (cfg : Config) (row : OutboxRow)
  | pass (i : Nat) (env : Env)

/-- What a move does. -/
def Inbox.move (s : Inbox) : Move → Option Inbox
  | .deliver row => s.insertStaging row
  | .addSuppression input => some (s.upsertSuppression input)
  | .removeSuppression destinationHmac now => some (s.retireNow destinationHmac now)
  | .createPartition start stop => some { s with partitions := s.partitions ++ [(start, stop)] }
  | .accept now c =>
    match insertTransactional s.db now c with
    | .ok (_, db) => some { s with db := db }
    | .error _ => some s
  | .audit now a => some { s with db := writeAuditRecord s.db now a }
  | .beginPass cfg row => some { s with passes := s.passes ++ [⟨cfg, row, .goto .expiry⟩] }
  | .pass i env => s.pass i env

section
variable [Aes256Gcm]

/-- Any number of runs of both jobs, with the other services, on one tenant's database. -/
def system : Sys Inbox Job Event Move Stmt.Answer JobError Report where
  body := run
  start _ _ s := some s
  exec t _ c e s := exec t s c e
  env x s := s.move x

end

/-- The runs and what they share. -/
abbrev World := Pool Inbox Job Stmt.Answer JobError Report

/-- One step of the system. -/
abbrev Act := Sys.Act Job Event Move

end Receipts

end Messgr
