import Messgr.Customer.Resolve

/-!
# Accepting a message

`src/ingest/handler.rs` and `src/ingest/repo.rs`, statement by statement: `create_comms` validates a
request, replays one whose idempotency key is taken, resolves, renders and encrypts it, and
`insert_transactional` claims the key and writes the ledger and the queue in one transaction. The
dispatcher reads a message back in `try_process` (`src/dispatcher/worker.rs`). `system` runs any
number of these calls, of any processes, with what else changes the tables meanwhile.
-/

namespace Messgr.Ingest

/-! ## Validation -/

/-- Source: `src/ingest/model.rs`. -/
structure CreateCommsRequest where
  customerId : Option Uuid
  externalId : Option String
  externalIdSystem : Option String
  destination : String
  channel : String
  msgClass : String
  templateId : String
  templateVersion : Int
  locale : Option String
  campaignId : Option String
  scheduledFor : Option Time
  expiresAt : Option Time
  templateVariables : List (String × String)
deriving DecidableEq

/-- A request: the producer of its certificate, the `Idempotency-Key` header and the body. -/
structure IncomingRequest where
  producerId : Uuid
  idempotencyKey : Option String
  body : CreateCommsRequest
deriving DecidableEq

/-- Source: `handler.rs`. -/
def validateChannel (value : String) : Except CallError Unit :=
  if value = "sms" ∨ value = "email" ∨ value = "whatsapp" then .ok ()
  else .error (.invalidChannel value)

/-- Source: `handler.rs`, `validate_class`; the class of the row is its result. -/
def validateClass (value : String) (campaignId : Option String) : Except CallError MsgClass :=
  if value = "transactional" then
    if campaignId.isSome then .error .campaignIdOnTransactional else .ok .transactional
  else if value = "marketing" then .ok .marketing
  else .error (.invalidClass value)

/-- Source: `handler.rs`. -/
def buildResolutionInput (body : CreateCommsRequest) : Except CallError ResolutionInput :=
  match body.customerId, body.externalId, body.externalIdSystem with
  | some id, none, none => .ok (.explicit id)
  | none, some externalId, some system => .ok (.external system externalId)
  | none, none, none => .ok .addressOnly
  | _, _, _ => .error .invalidResolutionInput

/-- Source: `handler.rs`. -/
def validateSchedule (now : Time) (scheduledFor : Option Time) (horizonDays : Int) :
    Except CallError Unit :=
  match scheduledFor with
  | some scheduledFor =>
    if scheduledFor > now + horizonDays * day then .error (.scheduleHorizonExceeded horizonDays)
    else .ok ()
  | none => .ok ()

/-- The `Idempotency-Key` header. Source: `handler.rs`, `create_comms`. -/
def idempotencyKey (r : IncomingRequest) : Except CallError String :=
  match r.idempotencyKey.filter (· ≠ "") with
  | some key => .ok key
  | none => .error .missingIdempotencyKey

/-- A request that has passed the checks of its input. -/
structure ValidRequest where
  key : String
  msgClass : MsgClass
  input : ResolutionInput

/-- The checks of the input, in their order. Source: `handler.rs`, `create_comms`. -/
def validate (settings : Settings) (now : Time) (r : IncomingRequest) :
    Except CallError ValidRequest := do
  let key ← idempotencyKey r
  validateChannel r.body.channel
  let msgClass ← validateClass r.body.msgClass r.body.campaignId
  let input ← buildResolutionInput r.body
  validateSchedule now r.body.scheduledFor settings.scheduleHorizonDays
  return ⟨key, msgClass, input⟩

/-! ## The programs -/

/-- The status codes of an accepted request. -/
inductive StatusCode
  | created
  | ok
deriving DecidableEq

namespace Program

/-- Source: `ingest/repo.rs`. -/
def findIdempotentReply (producerId : Uuid) (key : String) : Program (Option Uuid) := do
  let row ← fetchOptional Row.idempotency? fun r => r.producerId = producerId && r.key = key
  return row.map (·.commsRequestId)

/-- Source: `ingest/repo.rs`. -/
def insertTransactional (c : NewComms) : Program InsertOutcome := do
  let now ← now
  begin
  if ← insertTx [.idempotency c.producerId c.idempotencyKey] (.idempotency (c.idempotencyRow now))
  then
    let _ ← insertTx [] (.commsRequest (c.request now))
    let _ ← insertTx [] (.outbox (c.outboxRow now))
    commit
    return .created
  else
    rollback
    let existing ← expect (← findIdempotentReply c.producerId c.idempotencyKey)
    return .replayed existing

/-- Source: `src/template/repo.rs`, `find`. -/
def findTemplate (templateId : String) (version : Int) (locale : String) :
    Program (Option Template) :=
  fetchOptional Row.template? fun t =>
    t.templateId = templateId && t.version = version && t.locale = locale

variable [HmacSha256] [Aes256Gcm] (settings : Settings) (process : Nat)

/-- The message of a resolved request, rendered and encrypted. Source: `handler.rs`,
`create_comms`, from the locale to the arguments of `insert_transactional`. -/
def buildComms (r : IncomingRequest) (v : ValidRequest) (resolved : Resolved) :
    Program NewComms := do
  let locale := (r.body.locale <|> resolved.locale).getD settings.defaultLocale
  let some template ← findTemplate r.body.templateId r.body.templateVersion locale
    | .fail .templateNotFound
  let renderedBody ← ofExcept .render (render template.body r.body.templateVariables)
  let dek ← getOrCreateDek process resolved.customerId
  let commsRequestId ← newUuid .commsRequest
  let aad := commsRequestId.asBytes
  let n ← nonce
  let destinationCiphertext ← ofExcept .encryption (encrypt n dek aad (asBytes r.body.destination))
  let n ← nonce
  let payloadCiphertext ← ofExcept .encryption (encrypt n dek aad (asBytes renderedBody))
  return {
    idempotencyKey := v.key
    commsRequestId := commsRequestId
    tenantId := settings.tenantId
    customerId := resolved.customerId
    channel := r.body.channel
    msgClass := v.msgClass
    priority := if v.msgClass = .marketing then 2 else 1
    campaignId := r.body.campaignId
    destinationHmac := destinationHmac settings.pepper r.body.destination
    destinationCiphertext := destinationCiphertext
    payloadCiphertext := payloadCiphertext
    producerId := r.producerId
    addressId := resolved.addressId
    scheduledFor := r.body.scheduledFor
    expiresAt := r.body.expiresAt }

/-- A request that is valid and not a retry. Source: `handler.rs`, `create_comms`, from
the look at the switches on. -/
def acceptComms [UuidCrate] (r : IncomingRequest) (v : ValidRequest) :
    Program (StatusCode × Uuid) := do
  match ← blockingScope process r.body.channel r.producerId r.body.campaignId with
  | some scope => .fail (.killSwitchEngaged scope)
  | none =>
    let resolved ← resolve settings process v.input r.body.destination r.body.channel
    let c ← buildComms settings process r v resolved
    match ← insertTransactional c with
    | .created => return (.created, c.commsRequestId)
    | .replayed commsRequestId => return (.ok, commsRequestId)

/-- Source: `handler.rs`. -/
def createComms [UuidCrate] (r : IncomingRequest) : Program (StatusCode × Uuid) := do
  let now ← now
  let v ← ofExcept id (validate settings now r)
  match ← findIdempotentReply r.producerId v.key with
  | some existing => return (.ok, existing)
  | none => acceptComms settings process r v

/-- What the dispatcher decrypts of a message that it has claimed. Source:
`worker.rs`, `try_process`, from `load_ciphertexts` to the cancellation check. -/
def decryptMessage (row : OutboxRow) : Program (String × String) := do
  let some ciphertexts ← fetchOptional Row.commsRequest? fun q =>
      q.createdAt = row.createdAt && q.id = row.commsRequestId
    | .fail .missingRequest
  let dek ← getOrCreateDek process row.customerId
  let aad := row.commsRequestId.asBytes
  let destination ← ofExcept .encryption (decrypt dek aad ciphertexts.destinationCiphertext)
  let some destination := fromUtf8 destination | .fail .invalidUtf8
  let some payload := ciphertexts.payloadCiphertext | .fail .missingPayload
  let body ← ofExcept .encryption (decrypt dek aad payload)
  let some body := fromUtf8 body | .fail .invalidUtf8
  return (destination, body)

/-- Claims a message of the queue and decrypts it. -/
def tryProcess (commsRequestId : Uuid) : Program (OutboxRow × String × String) := do
  let some row ← fetchOptional Row.outbox? (·.commsRequestId = commsRequestId)
    | .fail (.database .rowNotFound)
  let decrypted ← decryptMessage process row
  return (row, decrypted)

end Program

/-! ## The system -/

/-- A call, with the process it runs in. -/
inductive Call
  | createComms (process : Nat) (r : IncomingRequest)
  | insertTransactional (c : NewComms)
  | resolve (process : Nat) (input : ResolutionInput) (destination channel : String)
  | getOrCreateDek (process : Nat) (customerId : Uuid)
  | preProvisionDeks (customerIds : List Uuid)
  | tryProcess (process : Nat) (commsRequestId : Uuid)
deriving DecidableEq

/-- What a call returns. -/
inductive Reply
  | comms (status : StatusCode) (commsRequestId : Uuid)
  | inserted (outcome : InsertOutcome)
  | resolved (r : Resolved)
  | dek (plaintext : Bytes)
  | preProvisioned (outcome : Program.PreProvisionOutcome)
  | decrypted (row : OutboxRow) (destination body : String)
deriving DecidableEq

namespace Call

/-- The customer ids that the caller supplies. -/
def ids : Call → List Uuid
  | .createComms _ r => r.body.customerId.toList
  | .insertTransactional c => [c.customerId]
  | .resolve _ (.explicit id) _ _ => [id]
  | .getOrCreateDek _ customerId => [customerId]
  | .preProvisionDeks customerIds => customerIds
  | _ => []

/-- The program of a call. -/
def body [UuidCrate] [HmacSha256] [Aes256Gcm] (settings : Settings) : Call → Program Reply
  | .createComms process r => do
    let (status, id) ← Program.createComms settings process r
    return .comms status id
  | .insertTransactional c => do
    let outcome ← Program.insertTransactional c
    return .inserted outcome
  | .resolve process input destination channel => do
    let resolved ← Program.resolve settings process input destination channel
    return .resolved resolved
  | .getOrCreateDek process customerId => do
    let plaintext ← Program.getOrCreateDek process customerId
    return .dek plaintext
  | .preProvisionDeks customerIds => do
    let outcome ← Program.preProvisionDeks ⟨0, 0⟩ customerIds
    return .preProvisioned outcome
  | .tryProcess process commsRequestId => do
    let (row, destination, body) ← Program.tryProcess process commsRequestId
    return .decrypted row destination body

end Call

/-- What moves besides the calls. -/
inductive Env
  | startProcess (inner : LruCache) (ttl : Time)
  | refresh (process : Nat) (killSwitches : ActiveSet)
  | sweep (asOf : Time)
  | dequeue (commsRequestId : Uuid)
  | approveTemplate (template : Template)
  | merge (merged : CustomerAlias)

/-- What it does. A sweep is `DELETE FROM idempotency WHERE expires_at <= $1`. Source:
`src/idempotency_sweep.rs`, `sweep`; `template/repo.rs`, `insert_if_absent`. -/
def Env.apply (s : Shared Call) : Env → Option (Shared Call)
  | .startProcess inner ttl =>
    some { s with processes := s.processes ++ [⟨.new inner ttl, .new⟩] }
  | .refresh process killSwitches => do
    let p ← s.processes[process]?
    return s.setProcess process { p with killSwitches := killSwitches }
  | .sweep asOf => do
    let db ← s.db.delete fun
      | .idempotency r => r.expiresAt ≤ asOf
      | _ => false
    return { s with db := db }
  | .dequeue id => do
    let db ← s.db.delete fun
      | .outbox r => r.commsRequestId = id
      | _ => false
    return { s with db := db }
  | .approveTemplate template => do
    let (_, db) ← s.db.insert none
      [.template template.templateId template.version template.locale] (.template template)
    return { s with db := db }
  | .merge merged => do
    let (_, db) ← s.db.insert none [] (.alias merged)
    return { s with db := db }

/-- A call starts. Nobody supplies an id that another call has drawn and not committed. -/
def startCall (call : Call) (s : Shared Call) : Option (Shared Call) :=
  if call.ids.any s.isPrivate then none else some { s with known := call.ids ++ s.known }

section
variable [KeyStore] [UuidCrate] [HmacSha256] [Aes256Gcm]

/-- Any number of calls over one tenant's database. -/
def system (settings : Settings) :
    Sys (Shared Call) Call Event Env Stmt.Answer CallError Reply where
  body := Call.body settings
  start _ := startCall
  exec t call c e s := exec settings t call s c e
  env x s := x.apply s

end

/-- The state of the system. -/
abbrev State := Pool (Shared Call) Call Stmt.Answer CallError Reply

/-- One step of it. -/
abbrev Move := Sys.Act Call Event Env

/-- The start: a tenant just provisioned. -/
def State.empty : State := ⟨.empty, []⟩

end Messgr.Ingest
