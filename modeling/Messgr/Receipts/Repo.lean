import Messgr.Ingest.Repo

/-!
# Receipts and audit records

What else writes the ledger: the promotion of a provider's receipt
(`src/orphan_reconcile/repo.rs`, shared with `src/webhook_receipt`), which acts on the request that
`find_match` returned some time before, and the audit record of a code or message that was sent
outside the queue (`src/otp/repo.rs`, `src/sms_sender/repo.rs`).
-/

namespace Messgr

/-! ## Which status a receipt may set -/

/-- Source: `src/orphan_reconcile/reconcile.rs`, `STATUS_ORDER`. -/
def statusOrder : List Status := [.queued, .sent, .delivered, .read]

/-- Source: `reconcile.rs`, `ABSORBING_STATUSES`. -/
def absorbingStatuses : List Status :=
  [.failed, .bounced, .complaint, .expired, .cancelled, .suppressedConsent, .suppressedList,
   .unverifiedAddress]

/-- Source: `is_recognized_event_type`. -/
def isRecognizedEventType (eventType : Status) : Bool :=
  eventType ∈ statusOrder || eventType ∈ absorbingStatuses

/-- Whether a receipt advances `final_status`. -/
def shouldAdvance (current : Option Status) (newEventType : Status) : Bool :=
  match current with
  | none => true
  | some cur =>
    if newEventType ∈ absorbingStatuses then true
    else
      match statusOrder.idxOf? cur, statusOrder.idxOf? newEventType with
      | some c, some n => n > c
      | _, _ => false

/-! ## Promotion -/

/-- What a receipt was matched with. Source: `orphan_reconcile/repo.rs`. -/
structure Match where
  commsRequestId : Uuid
  commsRequestCreatedAt : Time
  customerId : Uuid
  currentFinalStatus : Option Status
  destinationHmac : Bytes
deriving DecidableEq

/-- `ORDER BY occurred_at DESC, comms_request_id DESC`: whether `a` comes before `b`. -/
def CommsEvent.later (a b : CommsEvent) : Bool :=
  a.occurredAt > b.occurredAt ||
    (a.occurredAt = b.occurredAt && a.commsRequestId.bits.toNat ≥ b.commsRequestId.bits.toNat)

/-- The first of a list of joined rows in the order of `CommsEvent.later`. -/
def latest : List (CommsEvent × CommsRequest) → Option (CommsEvent × CommsRequest)
  | [] => none
  | x :: xs =>
    match latest xs with
    | none => some x
    | some y => if x.1.later y.1 then some x else some y

theorem mem_of_latest {l : List (CommsEvent × CommsRequest)} {x : CommsEvent × CommsRequest}
    (h : latest l = some x) : x ∈ l := by
  induction l with
  | nil => cases h
  | cons y l ih =>
    unfold latest at h
    split at h
    · cases h; exact .head _
    · next z hz =>
      split at h
      · cases h; exact .head _
      · cases h; exact .tail _ (ih hz)

/-- The request that a provider's reference belongs to. -/
def findMatch (db : TenantDb) (providerRef : String) : Option Match :=
  let joined := (db.commsEvent.rows.filter fun e =>
    e.providerRef = providerRef && e.providerRef ≠ "").flatMap fun e =>
      (db.commsRequest.rows.filter fun r => r.id = e.commsRequestId).map fun r => (e, r)
  (latest joined).map fun (_, r) =>
    ⟨r.id, r.createdAt, r.customerId, r.finalStatus, r.destinationHmac⟩

/-- A match is a request with an event that carries a reference. -/
theorem findMatch_some {db : TenantDb} {providerRef : String} {m : Match}
    (h : findMatch db providerRef = some m) :
    ∃ e ∈ db.commsEvent, e.providerRef ≠ "" ∧ ∃ r ∈ db.commsRequest, r.id = e.commsRequestId ∧
      m = ⟨r.id, r.createdAt, r.customerId, r.finalStatus, r.destinationHmac⟩ := by
  obtain ⟨⟨e, r⟩, hl, rfl⟩ := Option.map_eq_some_iff.1 h
  have hmem := mem_of_latest hl
  simp only [List.mem_flatMap, List.mem_filter, List.mem_map, Bool.and_eq_true, decide_eq_true_eq,
    Prod.mk.injEq] at hmem
  obtain ⟨e', ⟨he, -, hne⟩, r', ⟨hr, hid⟩, rfl, rfl⟩ := hmem
  exact ⟨e', he, hne, r', hr, hid, rfl⟩

/-- Source: `auto_suppress_reason`; `src/suppression/model.rs`, `reason`. -/
def autoSuppressReason : Status → Option String
  | .bounced => some "hard_bounce"
  | .complaint => some "complaint"
  | _ => none

/-- `INSERT INTO suppression .. ON CONFLICT DO UPDATE .. WHERE EXCLUDED.review_at > review_at`. -/
def TenantDb.suppress (db : TenantDb) (destinationHmac : Bytes) (reason : String)
    (now : Time) : TenantDb :=
  let row : SuppressionRow := ⟨destinationHmac, reason, now, now + 365 * day⟩
  let suppression :=
    match db.gates.suppression.find? destinationHmac with
    | none => db.gates.suppression.upsert row
    | some old =>
      if row.reviewAt > old.reviewAt then
        db.gates.suppression.upsert { row with addedAt := old.addedAt }
      else db.gates.suppression
  { db with gates := { db.gates with suppression := suppression } }

/-- A provider's receipt. Source: `PendingOrphan`, `PendingStagingReceipt`. -/
structure Receipt where
  providerRef : String
  eventType : Status
  providerStatus : Option String
  occurredAt : Time
deriving DecidableEq

/-- The promotion of a receipt: its event, the status it advances the request to and the suppression
it feeds. -/
def insertCommsEvent (db : TenantDb) (now : Time) (m : Match) (receipt : Receipt)
    (ciphertext : Option Bytes) (advance : Bool) : TenantDb :=
  let db := db.insertEvent ⟨m.commsRequestId, m.customerId, receipt.occurredAt, receipt.eventType,
    receipt.providerRef, receipt.providerStatus, ciphertext⟩
  let db :=
    if advance then
      db.setFinalStatus m.commsRequestCreatedAt m.commsRequestId receipt.eventType now
    else db
  match autoSuppressReason receipt.eventType with
  | some reason => db.suppress m.destinationHmac reason now
  | none => db

/-- A promotion as both jobs make it: `promote_match` decides on the status that `find_match` saw.
Source: `reconcile.rs`, `src/webhook_receipt/promote.rs`, `promote_match`. -/
def promoteMatch (db : TenantDb) (now : Time) (m : Match) (receipt : Receipt)
    (ciphertext : Option Bytes) : TenantDb :=
  insertCommsEvent db now m receipt ciphertext
    (shouldAdvance m.currentFinalStatus receipt.eventType)

/-! ## Audit records -/

/-- A code or message that was sent outside the queue. Source: `src/otp/model.rs`,
`src/sms_sender/model.rs`, `AuditRecord`. -/
structure AuditRecord where
  tenantId : Uuid
  commsRequestId : Uuid
  createdAt : Time
  customerId : Uuid
  destinationHmac : Bytes
  destinationCiphertext : Bytes
  producerId : Uuid
  finalStatus : Status
  providerRef : String
  providerStatus : Option String
deriving DecidableEq

/-- The row of `comms_request` that an audit record becomes. -/
def AuditRecord.request (a : AuditRecord) (now : Time) : CommsRequest where
  tenantId := a.tenantId
  id := a.commsRequestId
  createdAt := a.createdAt
  customerId := a.customerId
  channel := "sms"
  msgClass := .auth
  campaignId := none
  destinationHmac := a.destinationHmac
  destinationCiphertext := a.destinationCiphertext
  payloadCiphertext := none
  producerId := a.producerId
  scheduledFor := none
  expiresAt := none
  finalStatus := some a.finalStatus
  finalizedAt := some now

/-- The transaction that records it, which a retry may repeat. Source: `otp/repo.rs`,
`sms_sender/repo.rs`, `write_audit_record`. -/
def writeAuditRecord (db : TenantDb) (now : Time) (a : AuditRecord) : TenantDb :=
  let db :=
    match db.commsRequest.insert? (a.request now) with
    | some commsRequest => { db with commsRequest := commsRequest }
    | none => db
  db.insertEvent ⟨a.commsRequestId, a.customerId, a.createdAt, a.finalStatus, a.providerRef,
    a.providerStatus, none⟩

/-- The row of `comms_event` that it becomes. -/
def AuditRecord.event (a : AuditRecord) : CommsEvent :=
  ⟨a.commsRequestId, a.customerId, a.createdAt, a.finalStatus, a.providerRef, a.providerStatus,
    none⟩

section
variable {db : TenantDb} {now : Time} {a : AuditRecord}

theorem mem_request_writeAuditRecord {q : CommsRequest} :
    q ∈ (writeAuditRecord db now a).commsRequest ↔ q ∈ db.commsRequest ∨
      q = a.request now ∧ ∀ q' ∈ db.commsRequest, q'.key ≠ (a.request now).key := by
  rw [← Table.mem_insert?_getD, writeAuditRecord, insertEvent_commsRequest]
  cases db.commsRequest.insert? (a.request now) with
  | none => rfl
  | some commsRequest => rfl

theorem mem_event_writeAuditRecord {e : CommsEvent} :
    e ∈ (writeAuditRecord db now a).commsEvent ↔ e ∈ db.commsEvent ∨
      e = a.event ∧ ∀ e' ∈ db.commsEvent, e'.key ≠ a.event.key := by
  have hevents : (writeAuditRecord db now a).commsEvent =
      (db.commsEvent.insert? a.event).getD db.commsEvent := by
    rw [writeAuditRecord]
    cases db.commsRequest.insert? (a.request now) with
    | none | some => exact commsEvent_insertEvent
  rw [hevents, Table.mem_insert?_getD]

end

end Messgr
