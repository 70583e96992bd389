import Messgr.Ingest.Repo
import Messgr.Keys
import Messgr.KillSwitch.Cache
import Messgr.Lib.Prog
import Messgr.Lib.Tx
import Messgr.Template.Render

/-!
# The statements of a request

Ingest accepts a message in a sequence of statements, many of them transactions of their own, and
any number of requests, of any processes, run at a time. `Row` has the tables that the requests read
and write as rows of one transactional store, `Shared` what the processes share, and `exec` is one
statement under a decision of the environment: it is done, it fails, or it takes effect and its
reply is lost. The programs made of them are in `Messgr.Customer.Resolve` and
`Messgr.Ingest.Handler`.
-/

namespace Messgr.Ingest

/-! ## The tables -/

/-- A row of `customer`. Source: `0008_customer_projection.sql`; `src/customer/model.rs`,
`Customer`. -/
structure Customer where
  id : Uuid
  locale : String
  timezone : String
  provisional : Bool
  sourceUpdatedAt : Option Time
  createdAt : Time
deriving DecidableEq

/-- A row of `customer_external_id`. Source: `0008_customer_projection.sql`. -/
structure CustomerExternalId where
  customerId : Uuid
  system : String
  externalId : String
deriving DecidableEq

/-- A `kind` column. Source: `customer/model.rs`, `kind`. -/
inductive AddressKind
  | email
  | msisdn
  | whatsapp
deriving DecidableEq

/-- A row of `customer_address`. Source: `0008_customer_projection.sql`; `customer/model.rs`,
`CustomerAddress`. -/
structure CustomerAddress where
  id : Uuid
  customerId : Uuid
  kind : AddressKind
  valueCiphertext : Bytes
  valueHmac : Bytes
  rank : Nat
  activeFrom : Time
  activeTo : Option Time
  sourceUpdatedAt : Time
deriving DecidableEq

/-- A row of `customer_alias`. Source: `0008_customer_projection.sql`. -/
structure CustomerAlias where
  oldCustomerId : Uuid
  customerId : Uuid
deriving DecidableEq

/-- A row of `customer_dek`. Source: `0003_customer_dek.sql`; `src/customer_dek/model.rs`,
`CustomerDek`. -/
structure CustomerDek where
  customerId : Uuid
  wrappedDek : String
  createdAt : Time
deriving DecidableEq

/-- A row of `template`. Source: `0005_template.sql`; `src/template/model.rs`, `Template`. -/
structure Template where
  templateId : String
  version : Int
  locale : String
  body : String
deriving DecidableEq

/-- A row of one of the tables. -/
inductive Row
  | idempotency (r : IdempotencyRow)
  | commsRequest (r : CommsRequest)
  | outbox (r : OutboxRow)
  | customer (r : Customer)
  | externalId (r : CustomerExternalId)
  | address (r : CustomerAddress)
  | alias (r : CustomerAlias)
  | customerDek (r : CustomerDek)
  | template (r : Template)
deriving DecidableEq

/-- A key of one of the primary keys and unique indexes. -/
inductive Key
  | idempotency (producerId : Uuid) (key : String)
  | commsRequest (createdAt : Time) (id : Uuid)
  | outbox (commsRequestId : Uuid)
  | customer (id : Uuid)
  | externalId (system externalId : String)
  | address (id : Uuid)
  | activeRank (customerId : Uuid) (kind : AddressKind) (rank : Nat)
  | activeHmac (kind : AddressKind) (valueHmac : Bytes)
  | alias (oldCustomerId : Uuid)
  | customerDek (customerId : Uuid)
  | template (templateId : String) (version : Int) (locale : String)
deriving DecidableEq

namespace Row

/-- The primary key and the unique indexes that a row is in; those of `customer_address` hold the
active rows only. -/
def keys : Row → List Key
  | .idempotency r => [.idempotency r.producerId r.key]
  | .commsRequest r => [.commsRequest r.createdAt r.id]
  | .outbox r => [.outbox r.commsRequestId]
  | .customer r => [.customer r.id]
  | .externalId r => [.externalId r.system r.externalId]
  | .address r =>
    .address r.id ::
      if r.activeTo = none then
        [.activeRank r.customerId r.kind r.rank, .activeHmac r.kind r.valueHmac]
      else []
  | .alias r => [.alias r.oldCustomerId]
  | .customerDek r => [.customerDek r.customerId]
  | .template r => [.template r.templateId r.version r.locale]

/-- The foreign keys of a row. -/
def refs : Row → List Key
  | .externalId r => [.customer r.customerId]
  | .address r => [.customer r.customerId]
  | .alias r => [.customer r.customerId]
  | _ => []

/-- The ids of customers and addresses in a row: those that `Uuid::new_v4` made, and those that a
producer supplied. -/
def ids : Row → List Uuid
  | .commsRequest r => [r.customerId]
  | .customer r => [r.id]
  | .externalId r => [r.customerId]
  | .address r => [r.id, r.customerId]
  | .customerDek r => [r.customerId]
  | _ => []

section
variable {row : Row}

@[simp] theorem mem_keys_address {r : CustomerAddress} {k : Key} :
    k ∈ (Row.address r).keys ↔ k = .address r.id ∨ r.activeTo = none ∧
      (k = .activeRank r.customerId r.kind r.rank ∨ k = .activeHmac r.kind r.valueHmac) := by
  simp only [keys, List.mem_cons]
  split <;> simp_all

theorem customer_mem_keys {id : Uuid} :
    Key.customer id ∈ row.keys ↔ ∃ r, row = .customer r ∧ r.id = id := by
  cases row <;> simp [keys, eq_comm]

theorem externalId_mem_keys {system externalId : String} :
    Key.externalId system externalId ∈ row.keys ↔
      ∃ r, row = .externalId r ∧ r.system = system ∧ r.externalId = externalId := by
  cases row <;> simp [keys, eq_comm]

theorem customerDek_mem_keys {customerId : Uuid} :
    Key.customerDek customerId ∈ row.keys ↔
      ∃ r, row = .customerDek r ∧ r.customerId = customerId := by
  cases row <;> simp [keys, eq_comm]

theorem idempotency_mem_keys {producerId : Uuid} {key : String} :
    Key.idempotency producerId key ∈ row.keys ↔
      ∃ r, row = .idempotency r ∧ r.producerId = producerId ∧ r.key = key := by
  cases row <;> simp [keys, eq_comm]

theorem address_mem_keys {id : Uuid} :
    Key.address id ∈ row.keys ↔ ∃ r, row = .address r ∧ r.id = id := by
  cases row <;> simp [eq_comm] <;> simp [keys]

theorem activeRank_mem_keys {customerId : Uuid} {kind : AddressKind} {rank : Nat} :
    Key.activeRank customerId kind rank ∈ row.keys ↔ ∃ r, row = .address r ∧
      r.customerId = customerId ∧ r.kind = kind ∧ r.activeTo = none ∧ r.rank = rank := by
  cases row with
  | address r => simp [eq_comm]; tauto
  | _ => simp [keys]

theorem activeHmac_mem_keys {kind : AddressKind} {valueHmac : Bytes} :
    Key.activeHmac kind valueHmac ∈ row.keys ↔ ∃ r, row = .address r ∧
      r.kind = kind ∧ r.valueHmac = valueHmac ∧ r.activeTo = none := by
  cases row with
  | address r => simp [eq_comm]; tauto
  | _ => simp [keys]

end

end Row

instance : Tx.Schema Row Key := ⟨Row.keys, Row.refs⟩

/-- One tenant's tables. -/
abbrev Db := Tx.Store Row

/-! ## Statements and their answers -/

/-- `sqlx::Error`, with the violations that a statement can run into. -/
inductive DbError
  | connection
  | rowNotFound
  | uniqueViolation
  | foreignKeyViolation
deriving DecidableEq

/-- How a call fails: the errors of ingest and of the customer programs, those of `try_process`
before the send, a rank that does not fit its column, and a panic. Source: `src/ingest/model.rs`,
`IngestError`; `src/dispatcher/model.rs`, `DispatchError`. -/
inductive CallError
  | missingIdempotencyKey
  | invalidChannel (channel : String)
  | invalidClass (msgClass : String)
  | campaignIdOnTransactional
  | invalidResolutionInput
  | scheduleHorizonExceeded (horizonDays : Int)
  | killSwitchEngaged (scope : String)
  | templateNotFound
  | render (e : RenderError)
  | database (e : DbError)
  | vault
  | encryption (e : EncryptionError)
  | missingRequest
  | missingPayload
  | invalidUtf8
  | rankOverflow
  | panicked
deriving DecidableEq

/-- What a new id is for. -/
inductive Purpose
  | customer
  | address
  | commsRequest
deriving DecidableEq

/-- One statement: a round trip to the database or to Vault, a look at the clock, a random value or
an access to a cache of the process. -/
inductive Stmt : Type 1
  | now
  | newUuid (purpose : Purpose)
  | nonce
  | select (inTx : Bool) {β : Type} (query : List Row → β)
  | insert (inTx : Bool) (onConflict : List Key) (row : Row)
  | begin
  | lock (key : Key)
  | commit
  | rollback
  | createDek
  | unwrapDek (wrapped : String)
  | cacheGet (process : Nat) (key : Uuid)
  | cachePut (process : Nat) (key : Uuid) (plaintext : Bytes)
  | blockingScope (process : Nat) (channel : String) (producerId : Uuid)
      (campaignId : Option String)

/-- What a statement answers. -/
def Stmt.Answer : Stmt → Type
  | .now => Time
  | .newUuid _ => Uuid
  | .nonce => Nonce
  | @Stmt.select _ β _ => β
  | .insert _ _ _ => Bool
  | .begin => Unit
  | .lock _ => Unit
  | .commit => Unit
  | .rollback => Unit
  | .createDek => Dek
  | .unwrapDek _ => Bytes
  | .cacheGet _ _ => Option Bytes
  | .cachePut _ _ _ => Unit
  | .blockingScope _ _ _ _ => Option String

/-- A function of the source as a program of statements; `?` is what a failed statement does. -/
abbrev Program := Prog Stmt.Answer CallError

/-- What the environment decides about a statement. -/
inductive Event
  | done
  | fails
  | lost
  | time (now : Time)
  | uuid (id : Uuid)
  | nonce (n : Nonce)
  | created (dek : Dek)
deriving DecidableEq

namespace Program

def now : Program Time := Prog.stmt Stmt.now

/-- `Uuid::new_v4`. -/
def newUuid (purpose : Purpose) : Program Uuid := Prog.stmt (Stmt.newUuid purpose)

def nonce : Program Nonce := Prog.stmt Stmt.nonce

/-- A query of a statement of its own. -/
def select {β : Type} (query : List Row → β) : Program β := Prog.stmt (Stmt.select false query)

/-- A query in the open transaction. -/
def selectTx {β : Type} (query : List Row → β) : Program β := Prog.stmt (Stmt.select true query)

/-- `INSERT .. ON CONFLICT (onConflict) DO NOTHING` of its own: whether the row was inserted. -/
def insert (onConflict : List Key) (row : Row) : Program Bool :=
  Prog.stmt (Stmt.insert false onConflict row)

/-- The same in the open transaction. -/
def insertTx (onConflict : List Key) (row : Row) : Program Bool :=
  Prog.stmt (Stmt.insert true onConflict row)

def begin : Program Unit := Prog.stmt Stmt.begin

def lock (key : Key) : Program Unit := Prog.stmt (Stmt.lock key)

def commit : Program Unit := Prog.stmt Stmt.commit

def rollback : Program Unit := Prog.stmt Stmt.rollback

def createDek : Program Dek := Prog.stmt Stmt.createDek

def unwrapDek (wrapped : String) : Program Bytes := Prog.stmt (Stmt.unwrapDek wrapped)

def cacheGet (process : Nat) (key : Uuid) : Program (Option Bytes) :=
  Prog.stmt (Stmt.cacheGet process key)

def cachePut (process : Nat) (key : Uuid) (plaintext : Bytes) : Program Unit :=
  Prog.stmt (Stmt.cachePut process key plaintext)

def blockingScope (process : Nat) (channel : String) (producerId : Uuid)
    (campaignId : Option String) : Program (Option String) :=
  Prog.stmt (Stmt.blockingScope process channel producerId campaignId)

/-- `Option::expect`. -/
def expect {α : Type} : Option α → Program α
  | some a => pure a
  | none => .fail .panicked

/-- `?` on a result that no statement gave. -/
def ofExcept {ε α : Type} (f : ε → CallError) : Except ε α → Program α
  | .ok a => pure a
  | .error e => .fail (f e)

end Program

/-! ## What the processes share -/

/-- What a process keeps for the tenant. Source: `src/tenant/registry.rs`, `TenantContext`. -/
structure Process where
  dekCache : KeyCache
  killSwitches : ActiveSet

/-- The tenant's settings, the same for every process. Source: `registry.rs`,
`TenantContext`. -/
structure Settings where
  tenantId : Uuid
  vaultMount : String
  pepper : Bytes
  defaultLocale : String
  defaultTimezone : String
  scheduleHorizonDays : Int
deriving DecidableEq

/-- A committed row, and the call that wrote it. -/
structure Written (ι : Type) where
  thread : Nat
  call : ι
  row : Row
deriving DecidableEq

/-- The database, the processes, and what is only recorded: the ids that are in use, the ids of
customers and addresses that each call has drawn, the keys that a call found taken since it last
looked, and every row that a transaction ever committed. -/
structure Shared (ι : Type) where
  db : Db
  processes : List Process
  known : List Uuid
  minted : List (Nat × Uuid)
  lost : List (Nat × Key)
  history : List (Written ι)

namespace Shared

variable {ι : Type}

/-- A tenant just provisioned, before any process serves it. -/
def empty : Shared ι := ⟨.empty, [], [], [], [], []⟩

/-- A call that fails loses its connection, and with it its transaction. -/
def drop (s : Shared ι) (t : Nat) : Shared ι :=
  { s with db := s.db.rollback t, lost := s.lost.filter (·.1 ≠ t) }

/-- The call has looked again. -/
def looked (s : Shared ι) (t : Nat) : Shared ι := { s with lost := s.lost.filter (·.1 ≠ t) }

/-- The call commits. -/
def commit (s : Shared ι) (t : Nat) (call : ι) : Shared ι :=
  { s with
    db := s.db.commit t
    history := s.history ++ (s.db.pending t).map fun row => ⟨t, call, row⟩ }

/-- Changes a process. -/
def setProcess (s : Shared ι) (process : Nat) (p : Process) : Shared ι :=
  { s with processes := s.processes.set process p }

/-- A row that is committed has this id. -/
def mentions (s : Shared ι) (id : Uuid) : Bool := (s.db.visible none).any (id ∈ ·.ids)

/-- An id that a call has drawn and not committed. -/
def isPrivate (s : Shared ι) (id : Uuid) : Bool := (s.minted.any (·.2 = id)) && !s.mentions id

end Shared

section
variable [KeyStore] [UuidCrate] {ι : Type}

/-- What one statement of a call does to what is shared, and what it answers. One that waits for
another transaction is not possible. -/
def exec (settings : Settings) (t : Nat) (call : ι) (s : Shared ι) :
    (c : Stmt) → Event → Option (Shared ι × Except CallError c.Answer)
  | .now, .time now => some (s, .ok now)
  | .newUuid purpose, .uuid id =>
    if id ∈ s.known then none
    else
      let minted := if purpose = .commsRequest then s.minted else (t, id) :: s.minted
      some ({ s with known := id :: s.known, minted := minted }, .ok id)
  | .nonce, .nonce n => some (s, .ok n)
  | .select inTx query, .done =>
    some (s.looked t, .ok (query (s.db.visible (if inTx then some t else none))))
  | .insert inTx onConflict row, .done =>
    match s.db.insert (if inTx then some t else none) onConflict row with
    | none => none
    | some (.inserted, db) => some ({ s with db := db }, .ok true)
    | some (.conflict, _) =>
      some ({ s with lost := onConflict.map (t, ·) ++ s.lost }, .ok false)
    | some (.uniqueViolation, _) => some (s.drop t, .error (.database .uniqueViolation))
    | some (.foreignKeyViolation, _) => some (s.drop t, .error (.database .foreignKeyViolation))
  | .insert false onConflict row, .lost =>
    match s.db.insert none onConflict row with
    | some (.inserted, db) =>
      some (({ s with db := db } : Shared ι).drop t, .error (.database .connection))
    | _ => none
  | .begin, .done => some ({ s with db := s.db.rollback t }, .ok ())
  | .lock key, .done =>
    match s.db.lock t key with
    | none => none
    | some (true, db) => some ({ s with db := db }, .ok ())
    | some (false, _) => some (s.drop t, .error (.database .rowNotFound))
  | .commit, .done => some (s.commit t call, .ok ())
  | .commit, .lost => some ((s.commit t call).drop t, .error (.database .connection))
  | .rollback, .done => some ({ s with db := s.db.rollback t }, .ok ())
  | .createDek, .created dek =>
    if KeyStore.creates settings.vaultMount dek then some (s, .ok dek) else none
  | .createDek, .fails => some (s.drop t, .error .vault)
  | .unwrapDek wrapped, .done =>
    match KeyStore.unwrapDek settings.vaultMount wrapped with
    | some plaintext => some (s, .ok plaintext)
    | none => some (s.drop t, .error .vault)
  | .unwrapDek _, .fails => some (s.drop t, .error .vault)
  | .cacheGet process key, .time now => do
    let p ← s.processes[process]?
    let (hit, cache) := p.dekCache.get now key
    return (s.setProcess process { p with dekCache := cache }, .ok hit)
  | .cachePut process key plaintext, .time now => do
    let p ← s.processes[process]?
    return (s.setProcess process { p with dekCache := p.dekCache.put now key plaintext }, .ok ())
  | .blockingScope process channel producerId campaignId, .done => do
    let p ← s.processes[process]?
    return (s, .ok (p.killSwitches.blockingScope channel producerId campaignId))
  | .select _ _, .fails | .insert _ _ _, .fails | .begin, .fails | .lock _, .fails | .commit, .fails
  | .rollback, .fails => some (s.drop t, .error (.database .connection))
  | _, _ => none

end

end Messgr.Ingest
