import Messgr.Tenant.Schema

/-!
# The statements of ingest

`src/ingest/repo.rs`: accepting a message, in one transaction over the idempotency key, the ledger
and the queue, and cancelling one. `cancel` is two statements of two transactions, so it is two
functions here: `cancelOutbox`, and `cancelFallback` for the rows that `cancelOutbox` does not
find.
-/

namespace Messgr

open Table List Bool

/-! ## Accepting a message -/

/-- The arguments of `insert_transactional`, without the template that no statement reads again. -/
structure NewComms where
  idempotencyKey : String
  commsRequestId : Uuid
  tenantId : Uuid
  customerId : Uuid
  channel : String
  msgClass : MsgClass
  priority : Int
  campaignId : Option String
  destinationHmac : Bytes
  destinationCiphertext : Bytes
  payloadCiphertext : Bytes
  producerId : Uuid
  addressId : Uuid
  scheduledFor : Option Time
  expiresAt : Option Time
deriving DecidableEq

/-- Source: `IDEMPOTENCY_TTL_DAYS`. -/
def idempotencyTtlDays : Int := 30

/-- Source: `InsertOutcome`. -/
inductive InsertOutcome
  | created
  | replayed (commsRequestId : Uuid)
deriving DecidableEq

namespace NewComms

/-- The row of `comms_request` that the message becomes. -/
def request (c : NewComms) (now : Time) : CommsRequest where
  tenantId := c.tenantId
  id := c.commsRequestId
  createdAt := now
  customerId := c.customerId
  channel := c.channel
  msgClass := c.msgClass
  campaignId := c.campaignId
  destinationHmac := c.destinationHmac
  destinationCiphertext := c.destinationCiphertext
  payloadCiphertext := some c.payloadCiphertext
  producerId := c.producerId
  scheduledFor := c.scheduledFor
  expiresAt := c.expiresAt
  finalStatus := none
  finalizedAt := none

/-- The row of `outbox` that the message becomes. -/
def outboxRow (c : NewComms) (now : Time) : OutboxRow where
  commsRequestId := c.commsRequestId
  createdAt := now
  channel := c.channel
  msgClass := c.msgClass
  priority := c.priority
  customerId := c.customerId
  addressId := c.addressId
  producerId := c.producerId
  campaignId := c.campaignId
  nextAttemptAt := c.scheduledFor.getD now
  expiresAt := c.expiresAt
  cancelledAt := none
  attempts := 0
  leasedUntil := none

/-- The row of `idempotency` that claims the message's key. -/
def idempotencyRow (c : NewComms) (now : Time) : IdempotencyRow :=
  ⟨c.producerId, c.idempotencyKey, c.commsRequestId, now + idempotencyTtlDays * day⟩

/-- A message of one producer on one channel, for runs on fixed inputs. -/
def sample (id : Uuid) (idempotencyKey : String) : NewComms where
  idempotencyKey := idempotencyKey
  commsRequestId := id
  tenantId := ⟨0⟩
  customerId := ⟨1⟩
  channel := "sms"
  msgClass := .transactional
  priority := 1
  campaignId := none
  destinationHmac := []
  destinationCiphertext := []
  payloadCiphertext := []
  producerId := ⟨2⟩
  addressId := ⟨3⟩
  scheduledFor := none
  expiresAt := none

end NewComms

/-- Source: `find_idempotent_reply`. -/
def findIdempotentReply (db : TenantDb) (producerId : Uuid) (key : String) : Option Uuid :=
  (db.idempotency.find? (producerId, key)).map (·.commsRequestId)

/-- The transaction that accepts a message. A taken key rolls it back and replays its message; a row
that is there already fails it. -/
def insertTransactional (db : TenantDb) (now : Time) (c : NewComms) :
    Except SqlError (InsertOutcome × TenantDb) :=
  match db.idempotency.insert? (c.idempotencyRow now) with
  | none =>
    match findIdempotentReply db c.producerId c.idempotencyKey with
    | some existing => .ok (.replayed existing, db)
    | none => .error .rowNotFound
  | some idempotency =>
    match db.commsRequest.insert? (c.request now), db.outbox.insert? (c.outboxRow now) with
    | some commsRequest, some outbox =>
      .ok (.created, { db with
        idempotency := idempotency, commsRequest := commsRequest, outbox := outbox })
    | _, _ => .error .failed

variable {db : TenantDb} {now : Time}

/-- What accepting a message did: nothing, or one row more in each table. -/
theorem insertTransactional_ok {db' : TenantDb} {c : NewComms} {outcome : InsertOutcome}
    (h : insertTransactional db now c = .ok (outcome, db')) :
    (db' = db ∧ ∃ id, outcome = .replayed id) ∨
    (outcome = .created ∧ (∀ r, r ∈ db'.commsRequest ↔ r ∈ db.commsRequest ∨ r = c.request now) ∧
      (∀ o, o ∈ db'.outbox ↔ o ∈ db.outbox ∨ o = c.outboxRow now) ∧
      db'.commsEvent = db.commsEvent ∧ db'.killSwitch = db.killSwitch) := by
  unfold insertTransactional at h
  split at h
  · split at h
    · next id _ => cases h; exact .inl ⟨rfl, id, rfl⟩
    · cases h
  · split at h
    · next hr ho =>
      cases h
      exact .inr ⟨rfl, (insert?_some hr).2, (insert?_some ho).2, rfl, rfl⟩
    · cases h

/-! ## Cancelling one -/

/-- Source: `CancelOutcome`. -/
inductive CancelOutcome
  | cancelled
  | alreadySent
  | notFound
deriving DecidableEq

/-- `UPDATE outbox SET cancelled_at = COALESCE(cancelled_at, now())` on the producer's row, and
whether there was one. Source: `cancel`, the first statement. -/
def cancelOutbox (db : TenantDb) (now : Time) (commsRequestId producerId : Uuid) :
    Bool × TenantDb :=
  let p : OutboxRow → Bool := fun r =>
    r.commsRequestId = commsRequestId && r.producerId = producerId
  (db.outbox.rows.any p,
   { db with
     outbox := db.outbox.update p
       (fun r => { r with cancelledAt := some (r.cancelledAt.getD now) }) fun _ => rfl })

/-- What a cancellation answers when the queue has no row for it. Source: `cancel`, the second
statement. -/
def cancelFallback (db : TenantDb) (commsRequestId producerId : Uuid) : CancelOutcome :=
  let row := db.commsRequest.rows.find? fun r =>
    r.id = commsRequestId && r.producerId = producerId
  match row.bind (·.finalStatus) with
  | some .cancelled => .cancelled
  | some _ => .alreadySent
  | none => .notFound

variable {id producerId : Uuid}

/-- A row after a cancellation is another row, or the row named, cancelled. -/
theorem mem_cancelOutbox {o : OutboxRow} :
    o ∈ (cancelOutbox db now id producerId).2.outbox ↔
      (o ∈ db.outbox ∧ ¬ (o.commsRequestId = id ∧ o.producerId = producerId)) ∨
      ∃ o0 ∈ db.outbox, (o0.commsRequestId = id ∧ o0.producerId = producerId) ∧
        o = { o0 with cancelledAt := some (o0.cancelledAt.getD now) } := by
  simp only [cancelOutbox, mem_update, and_eq_true, decide_eq_true_eq, ← not_eq_true]

/-- The first statement finds the row when it is there. -/
theorem cancelOutbox_fst : (cancelOutbox db now id producerId).1 = true ↔
      ∃ o ∈ db.outbox, o.commsRequestId = id ∧ o.producerId = producerId := by
  simp only [cancelOutbox, any_eq_true, and_eq_true, decide_eq_true_eq]
  rfl

/-- A cancellation that finds no row changes nothing. -/
theorem cancelOutbox_not_found (h : (cancelOutbox db now id producerId).1 = false) :
    (cancelOutbox db now id producerId).2 = db := by
  simp only [cancelOutbox, any_eq_false, not_eq_true] at h ⊢
  rw [update_of_not h]

/-- The second statement answers `Cancelled` for a message that was settled so. -/
theorem cancelFallback_cancelled (h : cancelFallback db id producerId = .cancelled) :
    ∃ q ∈ db.commsRequest, q.id = id ∧ q.finalStatus = some .cancelled := by
  unfold cancelFallback at h
  dsimp only at h
  split at h
  · next hb =>
    obtain ⟨q, hq, hf⟩ := Option.bind_eq_some_iff.1 hb
    have hp := find?_some hq
    simp only [and_eq_true, decide_eq_true_eq] at hp
    exact ⟨q, mem_of_find?_eq_some hq, hp.1, hf⟩
  · cases h
  · cases h

end Messgr
