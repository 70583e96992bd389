import Messgr.KillSwitch.Model

/-!
# The tenant database

The tables of `migrations/tenant` that the dispatcher, ingest and the receipt jobs read and write,
each with its primary key or unique constraint. Columns that no modelled statement reads (the
template of a request, the label of an address, the evidence of a consent) are left out.
-/

namespace Messgr

/-- A `class` column. Source: `src/ingest/model.rs`, `class`. -/
inductive MsgClass
  | transactional
  | marketing
  | auth
deriving DecidableEq

/-- `comms_event.event_type` and `comms_request.final_status`: the twelve values that
`0004_ledger_outbox_schema.sql` documents, and the `discarded` of the discard sweep. -/
inductive Status
  | queued
  | sent
  | delivered
  | read
  | failed
  | bounced
  | complaint
  | expired
  | cancelled
  | suppressedConsent
  | suppressedList
  | unverifiedAddress
  | discarded
deriving DecidableEq

/-- A row of `outbox`, and of what `claim` returns (`ClaimedOutbox` mirrors the table). Source:
`0004_ledger_outbox_schema.sql`; `src/dispatcher/model.rs`. -/
structure OutboxRow where
  commsRequestId : Uuid
  createdAt : Time
  channel : String
  msgClass : MsgClass
  priority : Int
  customerId : Uuid
  addressId : Uuid
  producerId : Uuid
  campaignId : Option String
  nextAttemptAt : Time
  expiresAt : Option Time
  cancelledAt : Option Time
  attempts : Nat
  leasedUntil : Option Time
deriving DecidableEq

/-- A row of `comms_request`, the ledger. Source: `0004_ledger_outbox_schema.sql`. -/
structure CommsRequest where
  tenantId : Uuid
  id : Uuid
  createdAt : Time
  customerId : Uuid
  channel : String
  msgClass : MsgClass
  campaignId : Option String
  destinationHmac : Bytes
  destinationCiphertext : Bytes
  payloadCiphertext : Option Bytes
  producerId : Uuid
  scheduledFor : Option Time
  expiresAt : Option Time
  finalStatus : Option Status
  finalizedAt : Option Time
deriving DecidableEq

/-- The primary key of `comms_request`. -/
abbrev CommsRequest.key (r : CommsRequest) : Time × Uuid := (r.createdAt, r.id)

/-- A row of `comms_event`. Source: `0004_ledger_outbox_schema.sql`. -/
structure CommsEvent where
  commsRequestId : Uuid
  customerId : Uuid
  occurredAt : Time
  eventType : Status
  providerRef : String
  providerStatus : Option String
  providerPayloadCiphertext : Option Bytes
deriving DecidableEq

/-- The unique constraint of `comms_event`. -/
abbrev CommsEvent.key (e : CommsEvent) : Time × Uuid × Status × String :=
  (e.occurredAt, e.commsRequestId, e.eventType, e.providerRef)

/-- A row of `idempotency`. Source: `0004_ledger_outbox_schema.sql`. -/
structure IdempotencyRow where
  producerId : Uuid
  key : String
  commsRequestId : Uuid
  expiresAt : Time
deriving DecidableEq

/-- A row of `suppression`. Source: `0013_suppression.sql`. -/
structure SuppressionRow where
  destinationHmac : Bytes
  reason : String
  addedAt : Time
  reviewAt : Time
deriving DecidableEq

/-- A row of `consent`. Source: `0014_consent.sql`. -/
structure ConsentRow where
  addressId : Uuid
  msgClass : MsgClass
  optedIn : Bool
deriving DecidableEq

/-- A row of `customer_address`. Source: `0008_customer_projection.sql`. -/
structure AddressRow where
  id : Uuid
  verifiedAt : Option Time
deriving DecidableEq

/-- A row of `customer`. Source: `0008_customer_projection.sql`. -/
structure CustomerRow where
  id : Uuid
  timezone : String
deriving DecidableEq

/-- The tables that only operators and the customer projection write: gates of the dispatcher
read them. -/
structure GateTables where
  suppression : Table SuppressionRow SuppressionRow.destinationHmac
  consent : Table ConsentRow fun c => (c.addressId, c.msgClass)
  customerAddress : Table AddressRow AddressRow.id
  customer : Table CustomerRow CustomerRow.id

/-- Rows of `outbox`: the table itself, or what a claim returns of it. -/
abbrev OutboxRows := Table OutboxRow OutboxRow.commsRequestId

/-- One tenant's database. -/
structure TenantDb where
  outbox : OutboxRows
  commsRequest : Table CommsRequest CommsRequest.key
  commsEvent : Table CommsEvent CommsEvent.key
  idempotency : Table IdempotencyRow fun i => (i.producerId, i.key)
  killSwitch : SwitchTable
  gates : GateTables

/-- A database just provisioned. -/
def TenantDb.empty : TenantDb := ⟨∅, ∅, ∅, ∅, ∅, ⟨∅, ∅, ∅, ∅⟩⟩

/-- `INSERT INTO comms_event .. ON CONFLICT .. DO NOTHING`. -/
def TenantDb.insertEvent (db : TenantDb) (e : CommsEvent) : TenantDb :=
  match db.commsEvent.insert? e with
  | some events => { db with commsEvent := events }
  | none => db

/-- `UPDATE comms_request SET final_status, finalized_at WHERE created_at AND id`, the one mutation
of a ledger row. -/
def TenantDb.setFinalStatus (db : TenantDb) (createdAt : Time) (id : Uuid) (status : Status)
    (now : Time) : TenantDb :=
  { db with
    commsRequest := db.commsRequest.update (fun r => r.createdAt = createdAt && r.id = id)
      (fun r => { r with finalStatus := some status, finalizedAt := some now }) fun _ => rfl }

section
variable {db : TenantDb} {e : CommsEvent} {createdAt now : Time} {id : Uuid} {status : Status}

@[simp] theorem insertEvent_outbox : (db.insertEvent e).outbox = db.outbox := by
  unfold TenantDb.insertEvent; split <;> rfl

@[simp] theorem insertEvent_commsRequest : (db.insertEvent e).commsRequest = db.commsRequest := by
  unfold TenantDb.insertEvent; split <;> rfl

@[simp] theorem insertEvent_killSwitch : (db.insertEvent e).killSwitch = db.killSwitch := by
  unfold TenantDb.insertEvent; split <;> rfl

@[simp] theorem insertEvent_idempotency : (db.insertEvent e).idempotency = db.idempotency := by
  unfold TenantDb.insertEvent; split <;> rfl

theorem commsEvent_insertEvent :
    (db.insertEvent e).commsEvent = (db.commsEvent.insert? e).getD db.commsEvent := by
  unfold TenantDb.insertEvent
  split
  · next h => rw [h]; rfl
  · next h => rw [h]; rfl

/-- Inserting an event adds at most that event. -/
theorem mem_insertEvent {x : CommsEvent} (h : x ∈ (db.insertEvent e).commsEvent) :
    x ∈ db.commsEvent ∨ x = e := by
  unfold TenantDb.insertEvent at h
  split at h
  · next hi => exact ((Table.insert?_some hi).2 x).1 h
  · exact .inl h

@[simp] theorem setFinalStatus_outbox :
    (db.setFinalStatus createdAt id status now).outbox = db.outbox := rfl

@[simp] theorem setFinalStatus_killSwitch :
    (db.setFinalStatus createdAt id status now).killSwitch = db.killSwitch := rfl

/-- A ledger row after the update is that before, with the status set under its key. -/
theorem mem_setFinalStatus {r : CommsRequest} :
    r ∈ (db.setFinalStatus createdAt id status now).commsRequest ↔
      (r ∈ db.commsRequest ∧ ¬ (r.createdAt = createdAt ∧ r.id = id)) ∨
      ∃ r0 ∈ db.commsRequest, (r0.createdAt = createdAt ∧ r0.id = id) ∧
        r = { r0 with finalStatus := some status, finalizedAt := some now } := by
  simp only [TenantDb.setFinalStatus, Table.mem_update, Bool.and_eq_true, decide_eq_true_eq,
    ← Bool.not_eq_true]

end

end Messgr
