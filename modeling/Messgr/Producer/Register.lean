import Messgr.Dispatcher.Worker

/-!
# Registering and disabling producers

`src/producer/register.rs`: a producer has a row in its tenant's database and a mapping from its
certificate in the control database, which is what the mTLS resolution reads
(`src/producer/resolve.rs`). `register_producer` writes the row first and the mapping second,
`disable_producer` the other way round, and there is no transaction over both. A call is a state
machine with one transition for each statement; one that crashes is one whose next statement fails,
before or after it took effect.
-/

namespace Messgr

/-! ## The tables -/

/-- A row of `producer`. Source: `src/producer/model.rs`. -/
structure Producer where
  id : Uuid
  name : String
  certSubject : String
  ownerTeam : String
  contact : String
  enabled : Bool
  createdAt : Time
deriving DecidableEq

/-- The table `producer` of a tenant database: its primary key and its two unique columns. Source:
`migrations/tenant/0001_producer.sql`. -/
structure ProducerTable where
  rows : List Producer
  ids : (rows.map (·.id)).Nodup
  names : (rows.map (·.name)).Nodup
  certSubjects : (rows.map (·.certSubject)).Nodup

namespace ProducerTable

instance : Membership Producer ProducerTable := ⟨fun t p => p ∈ t.rows⟩

/-- The table of a tenant that is new. -/
def empty : ProducerTable := ⟨[], List.nodup_nil, List.nodup_nil, List.nodup_nil⟩

/-- Source: `src/producer/repo.rs`, `find_by_name`, `find_by_name_tx`. -/
def findByName (t : ProducerTable) (name : String) : Option Producer :=
  t.rows.find? (·.name = name)

/-- Source: `find_by_cert_subject_tx`. -/
def findByCertSubject (t : ProducerTable) (certSubject : String) : Option Producer :=
  t.rows.find? (·.certSubject = certSubject)

/-- `INSERT .. ON CONFLICT DO NOTHING`: nothing for a row whose id, name or certificate is there. -/
def insertIfAbsent (t : ProducerTable) (p : Producer) : Option ProducerTable :=
  if h : p.id ∉ t.rows.map (·.id) ∧ p.name ∉ t.rows.map (·.name) ∧
      p.certSubject ∉ t.rows.map (·.certSubject) then
    some ⟨t.rows ++ [p],
      by
        rw [List.map_append]
        exact t.ids.append (List.nodup_singleton _) (List.disjoint_singleton.2 h.1),
      by
        rw [List.map_append]
        exact t.names.append (List.nodup_singleton _) (List.disjoint_singleton.2 h.2.1),
      by
        rw [List.map_append]
        exact t.certSubjects.append (List.nodup_singleton _) (List.disjoint_singleton.2 h.2.2)⟩
  else none

/-- Source: `set_enabled`. -/
def setEnabled (t : ProducerTable) (id : Uuid) (enabled : Bool) : ProducerTable where
  rows := Table.updateRows (·.id = id) (fun p => { p with enabled := enabled }) t.rows
  ids := by rw [Table.map_key_updateRows]; exacts [t.ids, fun _ => rfl]
  names := by rw [Table.map_key_updateRows]; exacts [t.names, fun _ => rfl]
  certSubjects := by rw [Table.map_key_updateRows]; exacts [t.certSubjects, fun _ => rfl]

end ProducerTable

/-- A row of `tenant`, with the columns that producers need. -/
structure TenantRow where
  id : Uuid
  slug : String
  status : TenantStatus
deriving DecidableEq

/-- The table `tenant` of the control database: its primary key and its unique slug. Source:
`migrations/control/0001_control_schema.sql`. -/
structure TenantRows where
  rows : List TenantRow
  ids : (rows.map (·.id)).Nodup
  slugs : (rows.map (·.slug)).Nodup

namespace TenantRows

/-- Source: `src/tenant/repo.rs`. -/
def findBySlug (t : TenantRows) (slug : String) : Option TenantRow := t.rows.find? (·.slug = slug)

/-- Source: `find_by_id`. -/
def findById (t : TenantRows) (id : Uuid) : Option TenantRow := t.rows.find? (·.id = id)

/-- There is a tenant with the id. -/
def Has (t : TenantRows) (id : Uuid) : Prop := ∃ r ∈ t.rows, r.id = id

instance (t : TenantRows) (id : Uuid) : Decidable (t.Has id) :=
  inferInstanceAs (Decidable (∃ r ∈ t.rows, r.id = id))

/-- A tenant goes to another status. -/
def setStatus (t : TenantRows) (id : Uuid) (status : TenantStatus) : TenantRows where
  rows := Table.updateRows (·.id = id) (fun r => { r with status := status }) t.rows
  ids := by rw [Table.map_key_updateRows]; exacts [t.ids, fun _ => rfl]
  slugs := by rw [Table.map_key_updateRows]; exacts [t.slugs, fun _ => rfl]

theorem has_setStatus {t : TenantRows} {id id' : Uuid} {status : TenantStatus} :
    (t.setStatus id' status).Has id ↔ t.Has id := by
  have hmem : ∀ l : List TenantRow, (∃ r ∈ l, r.id = id) ↔ id ∈ l.map (·.id) := fun l => by
    rw [List.mem_map]
  unfold Has
  rw [hmem, hmem, setStatus, Table.map_key_updateRows]
  exact fun _ => rfl

end TenantRows

/-- A row of `producer_cert`. Source: `migrations/control/0001_control_schema.sql`,
`0003_producer_cert_enabled.sql`. -/
structure ProducerCert where
  certSubject : String
  tenantId : Uuid
  producerId : Uuid
  enabled : Bool
deriving DecidableEq

namespace Registration

/-- The outcome that an audit record names. -/
inductive Outcome
  | created
  | idempotent
  | disabled
  | rejected
deriving DecidableEq

inductive Action
  | register
  | disable
deriving DecidableEq

/-- A record of `platform_audit`. Source: `register.rs`, `audit`. -/
structure AuditRecord where
  actor : String
  action : Action
  tenantId : Option Uuid
  name : String
  certSubject : Option String
  outcome : Outcome
deriving DecidableEq

/-- The control database, whose mappings reference `tenant`, and the database of each tenant. -/
structure Store where
  tenant : TenantRows
  producerCert : Table ProducerCert ProducerCert.certSubject
  platformAudit : List AuditRecord
  producer : Uuid → ProducerTable
  references : ∀ c ∈ producerCert, tenant.Has c.tenantId

namespace Store

/-- The mapping of a certificate, with the status of its tenant. Source:
`src/producer/cert_repo.rs`. -/
def findProducerCert (s : Store) (certSubject : String) : Option (ProducerCert × TenantStatus) :=
  (s.producerCert.find? certSubject).bind fun c =>
    (s.tenant.findById c.tenantId).map fun t => (c, t.status)

/-- `INSERT .. ON CONFLICT (cert_subject) DO UPDATE SET tenant_id, producer_id`: a new mapping is
enabled, an old one stays as it is in this. It is refused for a tenant that is not there. -/
def upsertProducerCert (s : Store) (certSubject : String) (tenantId producerId : Uuid) :
    Option Store :=
  if h : s.tenant.Has tenantId then
    let enabled := ((s.producerCert.find? certSubject).map (·.enabled)).getD true
    some { s with
      producerCert := s.producerCert.upsert ⟨certSubject, tenantId, producerId, enabled⟩
      references := fun c hc => by
        rcases Table.mem_upsert.1 hc with rfl | ⟨hc, -⟩
        · exact h
        · exact s.references c hc }
  else none

/-- Source: `set_cert_enabled`. -/
def setCertEnabled (s : Store) (certSubject : String) (enabled : Bool) : Store :=
  { s with
    producerCert := s.producerCert.update (·.certSubject = certSubject)
      (fun c => { c with enabled := enabled }) fun _ => rfl
    references := fun c hc => by
      rcases (Table.mem_update _).1 hc with ⟨hc, -⟩ | ⟨c0, hc0, -, rfl⟩
      · exact s.references c hc
      · exact s.references c0 hc0 }

/-- A tenant goes to another status. -/
def setStatus (s : Store) (tenantId : Uuid) (status : TenantStatus) : Store :=
  { s with
    tenant := s.tenant.setStatus tenantId status
    references := fun c hc => TenantRows.has_setStatus.2 (s.references c hc) }

/-- The table of one tenant changes. -/
def withProducer (s : Store) (tenantId : Uuid) (t : ProducerTable) : Store :=
  { s with producer := Function.update s.producer tenantId t }

def record (s : Store) (r : AuditRecord) : Store :=
  { s with platformAudit := s.platformAudit ++ [r] }

end Store

/-! ## Resolution -/

/-- Source: `resolve.rs`. -/
structure ResolvedIdentity where
  tenantId : Uuid
  producerId : Uuid
deriving DecidableEq

/-- Source: `ResolutionError`. A failed query is not modelled. -/
inductive ResolutionError
  | unknownCert
  | disabled (tenantId producerId : Uuid)
  | tenantNotActive (tenantId producerId : Uuid)
deriving DecidableEq

/-- Whom a certificate is resolved to. -/
def resolveProducer (s : Store) (certSubject : String) :
    Except ResolutionError ResolvedIdentity :=
  match s.findProducerCert certSubject with
  | none => .error .unknownCert
  | some (cert, status) =>
    if !cert.enabled then .error (.disabled cert.tenantId cert.producerId)
    else if status ≠ .active then .error (.tenantNotActive cert.tenantId cert.producerId)
    else .ok ⟨cert.tenantId, cert.producerId⟩

/-! ## Calls -/

/-- The inputs of a registration. -/
structure Inputs where
  name : String
  certSubject : String
  ownerTeam : String
  contact : String
deriving DecidableEq

/-- The row has the inputs of a registration. -/
def Inputs.matches (x : Inputs) (p : Producer) : Bool :=
  p.certSubject = x.certSubject && p.ownerTeam = x.ownerTeam && p.contact = x.contact

/-- Why a call is rejected, with what its message shows. -/
inductive Rejection
  | noTenant (slug : String)
  | differentInputs (name : String) (existing : Producer)
  | boundInTenant (certSubject other : String)
  | boundToOtherTenant (certSubject : String)
  | winnerNotFound (name certSubject : String)
  | noProducer (name : String)
deriving DecidableEq

/-- Source: `ProducerError`: both are carried as a `sqlx::Error`, a rejection as its
`Configuration`. -/
inductive ProducerError
  | database
  | rejected (why : Rejection)
deriving DecidableEq

/-- Source: `RegisterOutcome`. -/
structure RegisterOutcome where
  producerId : Uuid
  outcome : Outcome
deriving DecidableEq

/-- What the environment decides about a statement: how it ends, the id that `Uuid::new_v4` draws
and the time. A statement whose reply is lost took effect. -/
structure Event where
  reply : Reply := .ok
  newId : Uuid := ⟨0⟩
  now : Time := 0

/-- How a call is made: with a slug, or by the admin panel, which has the tenant's pool
(`src/query_api/admin.rs`). -/
inductive Entry
  | bySlug (slug : String)
  | byTenant (tenantId : Uuid)
deriving DecidableEq

/-- Where a `register_producer` is: before the statement that it is named after. `retry` is the
second `classify_registration`. -/
inductive RegisterPc
  | findBySlug (slug : String)
  | connect (tenantId : Uuid)
  | classify (tenantId : Uuid) (retry : Bool)
  | findProducerCert (tenantId : Uuid) (retry : Bool)
  | insertIfAbsent (tenantId : Uuid)
  | upsertProducerCert (tenantId : Uuid) (result : RegisterOutcome)
  | audit (tenantId : Option Uuid) (result : Except Rejection RegisterOutcome)
  | ended (result : Except ProducerError RegisterOutcome)
deriving DecidableEq

/-- Where a `disable_producer` is. -/
inductive DisablePc
  | findBySlug (slug : String)
  | connect (tenantId : Uuid)
  | findByName (tenantId : Uuid)
  | setCertEnabled (tenantId : Uuid) (existing : Producer)
  | setEnabled (tenantId : Uuid) (existing : Producer)
  | audit (tenantId : Option Uuid) (existing : Option Producer) (result : Except Rejection Outcome)
  | ended (result : Except ProducerError Outcome)
deriving DecidableEq

/-- A read, and where it leads. -/
def read {Pc : Type} (s : Store) (reply : Reply) (next failed : Pc) : Store × Pc :=
  match reply with
  | .ok => (s, next)
  | _ => (s, failed)

/-- A write, and where it leads. -/
def write {Pc : Type} (s s' : Store) (reply : Reply) (next failed : Pc) : Store × Pc :=
  match reply with
  | .ok => (s', next)
  | .failed => (s, failed)
  | .lost => (s', failed)

section
variable (x : Inputs) (actor : String) (s : Store) (e : Event)

/-- A call that a failed statement ends. -/
def RegisterPc.failed : RegisterPc := .ended (.error .database)

/-- A call that is rejected, once that is recorded. -/
def RegisterPc.rejected (tenantId : Option Uuid) (why : Rejection) : RegisterPc :=
  .audit tenantId (.error why)

/-- Where the reads of the tenant's table lead. -/
def classifyRegistration (tenantId : Uuid) (retry : Bool) : RegisterPc :=
  match (s.producer tenantId).findByName x.name with
  | some existing =>
    if x.matches existing then .upsertProducerCert tenantId ⟨existing.id, .idempotent⟩
    else .rejected tenantId (.differentInputs x.name existing)
  | none =>
    match (s.producer tenantId).findByCertSubject x.certSubject with
    | some other => .rejected tenantId (.boundInTenant x.certSubject other.name)
    | none => .findProducerCert tenantId retry

/-- Where the read of the control database leads: the rest of `classify_registration`, and what
`register_producer_inner` makes of its `Ok(None)`. -/
def classifyCert (tenantId : Uuid) (retry : Bool) : RegisterPc :=
  if (s.findProducerCert x.certSubject).any (·.1.tenantId ≠ tenantId) then
    .rejected tenantId (.boundToOtherTenant x.certSubject)
  else if retry then .rejected tenantId (.winnerNotFound x.name x.certSubject)
  else .insertIfAbsent tenantId

/-- The row that a registration inserts. -/
def Inputs.row (id : Uuid) (now : Time) : Producer :=
  ⟨id, x.name, x.certSubject, x.ownerTeam, x.contact, true, now⟩

/-- The outcome of a result. -/
def outcomeOf : Except Rejection RegisterOutcome → Outcome
  | .ok result => result.outcome
  | .error _ => .rejected

/-- One statement of a `register_producer`. Source: `register_producer`,
`register_producer_inner`. -/
def RegisterPc.exec : RegisterPc → Option (Store × RegisterPc)
  | .findBySlug slug => some <| read s e.reply
      (match s.tenant.findBySlug slug with
      | some t => .connect t.id
      | none => .rejected none (.noTenant slug)) .failed
  | .connect tenantId => some <| read s e.reply (.classify tenantId false) .failed
  | .classify tenantId retry =>
    some <| read s e.reply (classifyRegistration x s tenantId retry) .failed
  | .findProducerCert tenantId retry =>
    some <| read s e.reply (classifyCert x s tenantId retry) .failed
  | .insertIfAbsent tenantId =>
    match (s.producer tenantId).insertIfAbsent (x.row e.newId e.now) with
    | some t => some <| write s (s.withProducer tenantId t) e.reply
        (.upsertProducerCert tenantId ⟨e.newId, .created⟩) .failed
    | none => some <| read s e.reply (.classify tenantId true) .failed
  | .upsertProducerCert tenantId result =>
    match s.upsertProducerCert x.certSubject tenantId result.producerId with
    | some s' => some <| write s s' e.reply (.audit tenantId (.ok result)) .failed
    | none => some (s, .failed)
  | .audit tenantId result => some <| write s
      (s.record ⟨actor, .register, tenantId, x.name, some x.certSubject, outcomeOf result⟩) e.reply
      (.ended (result.mapError .rejected)) .failed
  | .ended _ => none

end

section
variable (name actor : String) (s : Store) (e : Event)

def DisablePc.failed : DisablePc := .ended (.error .database)

/-- One statement of a `disable_producer`. Source: `disable_producer`, `disable_producer_inner`. -/
def DisablePc.exec : DisablePc → Option (Store × DisablePc)
  | .findBySlug slug => some <| read s e.reply
      (match s.tenant.findBySlug slug with
      | some t => .connect t.id
      | none => .audit none none (.error (.noTenant slug))) .failed
  | .connect tenantId => some <| read s e.reply (.findByName tenantId) .failed
  | .findByName tenantId => some <| read s e.reply
      (match (s.producer tenantId).findByName name with
      | some existing => .setCertEnabled tenantId existing
      | none => .audit tenantId none (.error (.noProducer name))) .failed
  | .setCertEnabled tenantId existing => some <|
      write s (s.setCertEnabled existing.certSubject false) e.reply
        (if existing.enabled then .setEnabled tenantId existing
        else .audit tenantId existing (.ok .idempotent)) .failed
  | .setEnabled tenantId existing => some <| write s
      (s.withProducer tenantId ((s.producer tenantId).setEnabled existing.id false)) e.reply
      (.audit tenantId existing (.ok .disabled)) .failed
  | .audit tenantId existing result => some <| write s
      (s.record ⟨actor, .disable, tenantId, name, existing.map (·.certSubject),
        match result with
        | .ok outcome => outcome
        | .error _ => .rejected⟩) e.reply
      (.ended (result.mapError .rejected)) .failed
  | .ended _ => none

end

/-! ## The system -/

/-- A call, with where it is. -/
inductive Call
  | register (entry : Entry) (inputs : Inputs) (actor : String) (pc : RegisterPc)
  | disable (entry : Entry) (name actor : String) (pc : DisablePc)
deriving DecidableEq

/-- One statement of a call. -/
def Call.exec (s : Store) (e : Event) : Call → Option (Store × Call)
  | .register entry x actor pc =>
    (pc.exec x actor s e).map fun r => (r.1, .register entry x actor r.2)
  | .disable entry name actor pc =>
    (pc.exec name actor s e).map fun r => (r.1, .disable entry name actor r.2)

/-- The databases and the calls. -/
structure World where
  store : Store
  calls : List Call

/-- A call is made, one of them takes a step, or a tenant goes to another status. -/
inductive Act
  | register (entry : Entry) (inputs : Inputs) (actor : String)
  | disable (entry : Entry) (name actor : String)
  | step (t : Nat) (e : Event)
  | setStatus (tenantId : Uuid) (status : TenantStatus)

/-- Where a registration begins. -/
def Entry.registerPc : Entry → RegisterPc
  | .bySlug slug => .findBySlug slug
  | .byTenant tenantId => .classify tenantId false

def Entry.disablePc : Entry → DisablePc
  | .bySlug slug => .findBySlug slug
  | .byTenant tenantId => .findByName tenantId

/-- The admin panel serves the tenants that there are. -/
def Entry.opens (s : Store) : Entry → Bool
  | .bySlug _ => true
  | .byTenant tenantId => s.tenant.Has tenantId

def World.step (w : World) : Act → Option World
  | .register entry x actor =>
    if entry.opens w.store then
      some { w with calls := w.calls ++ [.register entry x actor entry.registerPc] }
    else none
  | .disable entry name actor =>
    if entry.opens w.store then
      some { w with calls := w.calls ++ [.disable entry name actor entry.disablePc] }
    else none
  | .step t e =>
    (w.calls[t]?.bind (·.exec w.store e)).map fun r => ⟨r.1, w.calls.set t r.2⟩
  | .setStatus tenantId status => some { w with store := w.store.setStatus tenantId status }

end Registration

end Messgr
