import Messgr.Ingest.Statements

/-!
# Keys and customers of a request

`src/customer_dek` and `src/customer`: the key that a customer's columns are encrypted under,
created on first use, and the resolution of a request to a customer and an address, which mints
what it does not find. Every function is a program of statements in the order of the source;
nothing but the database orders the programs of different requests.
-/

namespace Messgr.Ingest

namespace Row

def idempotency? : Row → Option IdempotencyRow
  | .idempotency r => some r
  | _ => none

def commsRequest? : Row → Option CommsRequest
  | .commsRequest r => some r
  | _ => none

def outbox? : Row → Option OutboxRow
  | .outbox r => some r
  | _ => none

def customer? : Row → Option Customer
  | .customer r => some r
  | _ => none

def externalId? : Row → Option CustomerExternalId
  | .externalId r => some r
  | _ => none

def address? : Row → Option CustomerAddress
  | .address r => some r
  | _ => none

def alias? : Row → Option CustomerAlias
  | .alias r => some r
  | _ => none

def customerDek? : Row → Option CustomerDek
  | .customerDek r => some r
  | _ => none

def template? : Row → Option Template
  | .template r => some r
  | _ => none

section
variable (row : Row)

theorem idempotency?_eq_some (r) : row.idempotency? = some r ↔ row = .idempotency r := by
  cases row <;> simp [idempotency?]

theorem commsRequest?_eq_some (r) : row.commsRequest? = some r ↔ row = .commsRequest r := by
  cases row <;> simp [commsRequest?]

theorem outbox?_eq_some (r) : row.outbox? = some r ↔ row = .outbox r := by
  cases row <;> simp [outbox?]

theorem customer?_eq_some (r) : row.customer? = some r ↔ row = .customer r := by
  cases row <;> simp [customer?]

theorem externalId?_eq_some (r) : row.externalId? = some r ↔ row = .externalId r := by
  cases row <;> simp [externalId?]

theorem address?_eq_some (r) : row.address? = some r ↔ row = .address r := by
  cases row <;> simp [address?]

theorem alias?_eq_some (r) : row.alias? = some r ↔ row = .alias r := by
  cases row <;> simp [alias?]

theorem customerDek?_eq_some (r) : row.customerDek? = some r ↔ row = .customerDek r := by
  cases row <;> simp [customerDek?]

theorem template?_eq_some (r) : row.template? = some r ↔ row = .template r := by
  cases row <;> simp [template?]

end

end Row

namespace Program

/-- `SELECT .. FROM table WHERE p`, of at most one row. -/
def fetchOptional {α : Type} (table : Row → Option α) (p : α → Bool) : Program (Option α) :=
  select fun rows => (rows.filterMap table).find? p

/-! ## Data-encryption keys -/

/-- Source: `src/customer_dek/repo.rs`, `find`. -/
def findDek (customerId : Uuid) : Program (Option CustomerDek) :=
  fetchOptional Row.customerDek? (·.customerId = customerId)

/-- Source: `customer_dek/repo.rs`. -/
def insertIfAbsent (customerId : Uuid) (wrappedDek : String) (createdAt : Time) :
    Program Bool :=
  insert [.customerDek customerId] (.customerDek ⟨customerId, wrappedDek, createdAt⟩)

/-- Source: `customer_dek/repo.rs`. -/
def insertIfAbsentTx (customerId : Uuid) (wrappedDek : String) (createdAt : Time) :
    Program Bool :=
  insertTx [.customerDek customerId] (.customerDek ⟨customerId, wrappedDek, createdAt⟩)

/-- The customer's key behind the cache: the persisted one unwrapped, or a new one, which is dropped
if another was persisted first. Source: `src/customer_dek/lifecycle.rs`, `get_or_create_dek`, the
`match`. -/
def findOrCreateDek (customerId : Uuid) : Program Bytes := do
  match ← findDek customerId with
  | some row => unwrapDek row.wrappedDek
  | none =>
    let dek ← createDek
    let createdAt ← now
    if ← insertIfAbsent customerId dek.wrapped createdAt then return dek.plaintext
    else
      let row ← expect (← findDek customerId)
      unwrapDek row.wrappedDek

/-- Source: `lifecycle.rs`. -/
def getOrCreateDek (process : Nat) (customerId : Uuid) : Program Bytes := do
  match ← cacheGet process customerId with
  | some plaintext => return plaintext
  | none =>
    let plaintext ← findOrCreateDek customerId
    cachePut process customerId plaintext
    return plaintext

/-- Source: `lifecycle.rs`. -/
structure PreProvisionOutcome where
  created : Nat
  alreadyExisted : Nat
deriving DecidableEq

/-- The loop over the ids that are left. Source: `lifecycle.rs`. -/
def preProvisionDeks (outcome : PreProvisionOutcome) : List Uuid → Program PreProvisionOutcome
  | [] => return outcome
  | customerId :: ids => do
    match ← findDek customerId with
    | some _ => preProvisionDeks { outcome with alreadyExisted := outcome.alreadyExisted + 1 } ids
    | none =>
      let dek ← createDek
      let createdAt ← now
      if ← insertIfAbsent customerId dek.wrapped createdAt then
        preProvisionDeks { outcome with created := outcome.created + 1 } ids
      else
        preProvisionDeks { outcome with alreadyExisted := outcome.alreadyExisted + 1 } ids

/-! ## Customers and addresses -/

/-- Source: `src/customer/repo.rs`. -/
def findById (id : Uuid) : Program (Option Customer) := fetchOptional Row.customer? (·.id = id)

/-- Source: `customer/repo.rs`, `ALIAS_HOP_LIMIT`. -/
def aliasHopLimit : Nat := 8

/-- Follows the aliases of an id, `hops` times at most. Source: `customer/repo.rs`. -/
def expandAlias : Nat → Uuid → Program Uuid
  | 0, current => return current
  | hops + 1, current => do
    match ← fetchOptional Row.alias? (·.oldCustomerId = current) with
    | some next => expandAlias hops next.customerId
    | none => return current

/-- Source: `customer/repo.rs`. -/
def findCustomerByExternalId (system externalId : String) : Program (Option Uuid) := do
  let row ← fetchOptional Row.externalId? fun r => r.system = system && r.externalId = externalId
  return row.map (·.customerId)

/-- Source: `customer/repo.rs`. -/
def findActiveAddressByHmac (kind : AddressKind) (valueHmac : Bytes) :
    Program (Option CustomerAddress) :=
  fetchOptional Row.address? fun a =>
    a.kind = kind && a.valueHmac = valueHmac && a.activeTo.isNone

/-- Source: `customer/repo.rs`. -/
def findActiveAddressForCustomer (customerId : Uuid) (kind : AddressKind) (valueHmac : Bytes) :
    Program (Option CustomerAddress) :=
  fetchOptional Row.address? fun a =>
    a.customerId = customerId && a.kind = kind && a.valueHmac = valueHmac && a.activeTo.isNone

/-- The ranks that the active addresses of a customer have for a kind. -/
def activeRanks (customerId : Uuid) (kind : AddressKind) (rows : List Row) : List Nat :=
  ((rows.filterMap Row.address?).filter fun a =>
    a.customerId = customerId && a.kind = kind && a.activeTo.isNone).map (·.rank)

/-- The largest value of a `smallint`. -/
def smallintMax : Nat := 32767

/-- Locks the customer's row and takes the rank behind the last one. Where the `i16` of the source
overflows, which panics or wraps around, the call fails here. Source: `customer/repo.rs`. -/
def nextRankForUpdate (customerId : Uuid) (kind : AddressKind) : Program Nat := do
  lock (.customer customerId)
  let maxRank ← selectTx fun rows => (activeRanks customerId kind rows).max?
  let rank := maxRank.getD 0 + 1
  if rank ≤ smallintMax then return rank else .fail .rankOverflow

/-- Source: `customer/repo.rs`. -/
def insertCustomer (row : Customer) : Program Bool := insertTx [.customer row.id] (.customer row)

/-- Source: `customer/repo.rs`. -/
def insertExternalId (row : CustomerExternalId) : Program Bool :=
  insertTx [.externalId row.system row.externalId] (.externalId row)

/-- Source: `customer/repo.rs`. -/
def insertAddress (row : CustomerAddress) : Program Bool :=
  insertTx [.activeHmac row.kind row.valueHmac] (.address row)

end Program

/-! ## Resolution -/

/-- Source: `src/customer/resolve.rs`. -/
inductive ResolutionInput
  | explicit (id : Uuid)
  | external (system externalId : String)
  | addressOnly
deriving DecidableEq

/-- Source: `resolve.rs`. -/
structure Resolved where
  customerId : Uuid
  addressId : Uuid
  locale : Option String
deriving DecidableEq

/-- Source: `src/customer/model.rs`, `kind_for_channel`; another channel is unreachable there. -/
def kindForChannel (channel : String) : Option AddressKind :=
  if channel = "sms" then some .msisdn
  else if channel = "email" then some .email
  else if channel = "whatsapp" then some .whatsapp
  else none

/-- Source: `resolve.rs`. -/
def nonProvisionalLocale (customer : Customer) : Option String :=
  if customer.provisional then none else some customer.locale

/-- A customer that a request stands for and that no master system has reported. -/
def Settings.provisional (settings : Settings) (id : Uuid) (createdAt : Time) : Customer :=
  ⟨id, settings.defaultLocale, settings.defaultTimezone, true, none, createdAt⟩

namespace Program

variable [HmacSha256] [Aes256Gcm] (settings : Settings) (process : Nat)

/-- Source: `resolve.rs`. -/
def mintProvisionalCustomer (id : Uuid) : Program Unit := do
  begin
  let createdAt ← now
  let _ ← insertCustomer (settings.provisional id createdAt)
  commit

/-- Source: `resolve.rs`. -/
def mintProvisionalCustomerWithExternalId (system externalId : String) : Program Uuid := do
  let id ← newUuid .customer
  let createdAt ← now
  begin
  let _ ← insertCustomer (settings.provisional id createdAt)
  if ← insertExternalId ⟨id, system, externalId⟩ then
    commit
    return id
  else
    rollback
    expect (← findCustomerByExternalId system externalId)

/-- Source: `resolve.rs`. -/
def mintProvisionalCustomerAndAddress (kind : AddressKind) (valueHmac : Bytes)
    (destination : String) : Program (Uuid × Uuid) := do
  let customerId ← newUuid .customer
  let addressId ← newUuid .address
  let createdAt ← now
  let dek ← createDek
  let n ← nonce
  let ciphertext ← ofExcept .encryption
    (encrypt n dek.plaintext addressId.asBytes (asBytes destination))
  begin
  let _ ← insertCustomer (settings.provisional customerId createdAt)
  if ← insertAddress
      ⟨addressId, customerId, kind, ciphertext, valueHmac, 1, createdAt, none, createdAt⟩ then
    let _ ← insertIfAbsentTx customerId dek.wrapped createdAt
    commit
    cachePut process customerId dek.plaintext
    return (customerId, addressId)
  else
    rollback
    let winner ← expect (← findActiveAddressByHmac kind valueHmac)
    return (winner.customerId, winner.id)

/-- The customer of a request that names one. Source: `resolve.rs`, `resolve`, the
first two arms of its first `match`. -/
def resolveCustomer : ResolutionInput → Program (Option (Uuid × Option String))
  | .explicit id => do
    let id ← expandAlias aliasHopLimit id
    match ← findById id with
    | some row => return some (id, nonProvisionalLocale row)
    | none =>
      mintProvisionalCustomer settings id
      return some (id, none)
  | .external system externalId => do
    match ← findCustomerByExternalId system externalId with
    | some id =>
      let row ← expect (← findById id)
      return some (id, nonProvisionalLocale row)
    | none =>
      let id ← mintProvisionalCustomerWithExternalId settings system externalId
      return some (id, none)
  | .addressOnly => return none

/-- The customer and address of a request that names neither. Source: `resolve.rs`,
`resolve`, the last arm of its first `match`. -/
def resolveAddressOnly (kind : AddressKind) (valueHmac : Bytes) (destination : String) :
    Program Resolved := do
  match ← findActiveAddressByHmac kind valueHmac with
  | some address =>
    let row ← findById address.customerId
    return ⟨address.customerId, address.id, row.bind nonProvisionalLocale⟩
  | none =>
    let (customerId, addressId) ←
      mintProvisionalCustomerAndAddress settings process kind valueHmac destination
    return ⟨customerId, addressId, none⟩

/-- The winner of a lost race for a destination. Source: `resolve.rs`, `resolve`,
after `rollback`. -/
def resolveToWinner (customerId : Uuid) (locale : Option String) (kind : AddressKind)
    (valueHmac : Bytes) : Program Resolved := do
  let winner ← expect (← findActiveAddressByHmac kind valueHmac)
  if winner.customerId = customerId then return ⟨winner.customerId, winner.id, locale⟩
  else
    let row ← findById winner.customerId
    return ⟨winner.customerId, winner.id, row.bind nonProvisionalLocale⟩

/-- The address of a customer, found or created. Source: `resolve.rs`, `resolve`,
behind its first `match`. -/
def resolveAddress (customerId : Uuid) (locale : Option String) (kind : AddressKind)
    (valueHmac : Bytes) (destination : String) : Program Resolved := do
  match ← findActiveAddressForCustomer customerId kind valueHmac with
  | some address => return ⟨customerId, address.id, locale⟩
  | none =>
    let dek ← getOrCreateDek process customerId
    let addressId ← newUuid .address
    let n ← nonce
    let ciphertext ← ofExcept .encryption (encrypt n dek addressId.asBytes (asBytes destination))
    let createdAt ← now
    begin
    let rank ← nextRankForUpdate customerId kind
    if ← insertAddress
        ⟨addressId, customerId, kind, ciphertext, valueHmac, rank, createdAt, none, createdAt⟩ then
      commit
      return ⟨customerId, addressId, locale⟩
    else
      rollback
      resolveToWinner customerId locale kind valueHmac

/-- Source: `resolve.rs`. -/
def resolve (input : ResolutionInput) (destination channel : String) : Program Resolved := do
  let kind ← expect (kindForChannel channel)
  let valueHmac := destinationHmac settings.pepper destination
  match ← resolveCustomer settings input with
  | some (customerId, locale) =>
    resolveAddress process customerId locale kind valueHmac destination
  | none => resolveAddressOnly settings process kind valueHmac destination

end Program

end Messgr.Ingest
