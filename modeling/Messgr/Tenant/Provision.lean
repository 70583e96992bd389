import Messgr.Base
import Messgr.Lib.Serial
import Messgr.Lib.Table

/-!
# Provisioning, suspending and destroying tenants

`src/tenant/provision.rs`, `src/tenant/vault.rs`, `src/tenant/offboard.rs` and the suspend handler
of `src/platform_console/tenants.rs`, as programs of the statements they make: on the control
database (`Registry`), on Vault and on the cluster. Vault and the cluster answer as they like, so
what is proved holds for all their answers. A call that fails at a step is one that stops there
(`Serial`).
-/

namespace Messgr.Provision

/-! ## The control database -/

/-- The table `tenant`, with its primary key and its unique columns. -/
structure Tenants where
  table : Table Tenant Tenant.id
  unique : ∀ a ∈ table, ∀ b ∈ table, a.clashes b = true → a = b

namespace Tenants

/-- The table of a new control database. -/
def empty : Tenants := ⟨∅, fun _ ha => absurd ha (Table.not_mem_empty _)⟩

/-- Source: `src/tenant/repo.rs`. -/
def findBySlug (ts : Tenants) (slug : String) : Option Tenant :=
  ts.table.rows.find? fun t => t.slug = slug

/-- Source: `find_by_id`. -/
def findById (ts : Tenants) (id : Uuid) : Option Tenant := ts.table.find? id

/-- Source: `insert_provisioning`; refused by the primary key and the unique columns. -/
def insert? (ts : Tenants) (t : Tenant) : Option Tenants :=
  if hc : ∃ b ∈ ts.table.rows, t.clashes b = true then none
  else match hi : ts.table.insert? t with
    | none => none
    | some table => some ⟨table, by
        intro a ha b hb hab
        have hmem := (Table.insert?_some hi).2
        rcases (hmem a).1 ha with ha | rfl
        · rcases (hmem b).1 hb with hb | rfl
          · exact ts.unique a ha b hb hab
          · refine absurd ⟨a, ha, ?_⟩ hc
            simpa only [Tenant.clashes, eq_comm] using hab
        · rcases (hmem b).1 hb with hb | rfl
          · exact absurd ⟨b, hb, hab⟩ hc
          · rfl⟩

/-- Changes of the columns that no unique constraint is about. -/
structure Change where
  apply : Tenant → Tenant
  id : ∀ t, (apply t).id = t.id
  slug : ∀ t, (apply t).slug = t.slug
  clashes : ∀ a b, (apply a).clashes b = a.clashes b ∧ b.clashes (apply a) = b.clashes a

/-- `UPDATE tenant SET .. WHERE id = ..`. -/
def update (ts : Tenants) (id : Uuid) (f : Change) : Tenants where
  table := ts.table.update (fun t => t.id = id) f.apply f.id
  unique := by
    intro a ha b hb hab
    rcases (Table.mem_update f.id).1 ha with ⟨ha, hna⟩ | ⟨a0, ha0, hna, rfl⟩
    · rcases (Table.mem_update f.id).1 hb with ⟨hb, -⟩ | ⟨b0, hb0, hnb, rfl⟩
      · exact ts.unique a ha b hb hab
      · rw [(f.clashes b0 a).2] at hab
        rw [ts.unique a ha b0 hb0 hab, hnb] at hna
        cases hna
    · rcases (Table.mem_update f.id).1 hb with ⟨hb, hnb⟩ | ⟨b0, hb0, -, rfl⟩
      · rw [(f.clashes a0 b).1] at hab
        rw [← ts.unique a0 ha0 b hb hab, hna] at hnb
        cases hnb
      · rw [(f.clashes a0 _).1, (f.clashes b0 a0).2] at hab
        rw [ts.unique a0 ha0 b0 hb0 hab]

/-- Source: `record_vault_role_id`. -/
def setVaultRoleId (roleId : String) : Change :=
  ⟨fun t => { t with vaultRoleId := some roleId }, fun _ => rfl, fun _ => rfl,
    fun _ _ => ⟨rfl, rfl⟩⟩

/-- Source: `mark_status`. -/
def setStatus (status : TenantStatus) : Change :=
  ⟨fun t => { t with status := status }, fun _ => rfl, fun _ => rfl, fun _ _ => ⟨rfl, rfl⟩⟩

end Tenants

/-- A row of `platform_audit`. Source: `src/platform_audit.rs`. -/
structure AuditRow where
  actor : String
  action : String
  tenantId : Option Uuid
  detail : List (String × String)
deriving DecidableEq

/-- The control database, as far as these calls read and write it: the tenants, their schema
versions, the live switches of tenants and the audit trail. -/
structure Registry where
  tenants : Tenants
  schemaVersion : List (Uuid × Int)
  suspendSwitches : List Uuid
  audit : List AuditRow

/-- The status of a tenant. -/
def Registry.status (s : Registry) (id : Uuid) : Option TenantStatus :=
  (s.tenants.findById id).map (·.status)

/-- There is a tenant with the slug. -/
def Registry.registered (s : Registry) (slug : String) : Bool := (s.tenants.findBySlug slug).isSome

/-! ## Statements -/

/-- The statements of the calls. -/
inductive Stmt
  -- the control database
  | findBySlug (slug : String)
  | findById (tenantId : Uuid)
  | insertProvisioning (tenant : Tenant)
  | recordVaultRoleId (tenantId : Uuid) (roleId : String)
  | recordSchemaVersion (tenantId : Uuid) (version : Int)
  | markStatus (tenantId : Uuid) (status : TenantStatus)
  | audit (row : AuditRow)
  | suspend (tenantId : Uuid) (actor : String)
  -- the process
  | newV4
  -- Vault
  | listMounts
  | enableMount (path : String)
  | createKey (mountPath : String)
  | setPolicy (name : String)
  | setRole (name policy : String)
  | readRoleId (name : String)
  | wrapSecretId (name : String)
  | allowKeyDeletion (mountPath : String)
  | deleteKey (mountPath : String)
  | disableMount (path : String)
  | deletePolicy (name : String)
  | deleteRole (name : String)
  -- the cluster
  | databaseExists (name : String)
  | createDatabase (name : String)
  | dropDatabase (name : String)
  | connect (databaseName expected : String)
  | migrate (databaseName : String)
  | currentSchemaVersion (databaseName : String)
deriving DecidableEq

@[reducible] def Stmt.Answer : Stmt → Type
  | .findBySlug _ => Option Tenant
  | .findById _ => Option Tenant
  | .markStatus _ _ => Nat
  | .suspend _ _ => Bool
  | .newV4 => Uuid
  | .listMounts => List String
  | .readRoleId _ => String
  | .wrapSecretId _ => String
  | .databaseExists _ => Bool
  | .currentSchemaVersion _ => Int
  | _ => Unit

/-- The transaction of the suspend handler: the status, the switch of the tenant unless one is
engaged, and their audit rows; nothing for a tenant that does not exist. Source: `tenants.rs`,
`suspend`; `src/platform_kill_switch/configure.rs`, `engage_tx`. -/
def Registry.suspend (s : Registry) (tenantId : Uuid) (actor : String) : Registry :=
  if (s.tenants.findById tenantId).isNone then s
  else
    let engaged := s.suspendSwitches.contains tenantId
    { s with
      tenants := s.tenants.update tenantId (Tenants.setStatus .suspended)
      suspendSwitches :=
        if engaged then s.suspendSwitches else s.suspendSwitches ++ [tenantId]
      audit := s.audit ++ [⟨actor, "tenant.suspend", some tenantId, []⟩,
        ⟨actor, "platform_kill_switch.engage", some tenantId,
          [("scope", "tenant"), ("reason", "tenant suspended"),
            ("outcome", if engaged then "already_engaged" else "engaged")]⟩] }

/-- The control database after a statement with the given answer, if that is a possible answer. -/
def exec : (q : Stmt) → q.Answer → Registry → Option Registry
  | .findBySlug slug, found, s => if found = s.tenants.findBySlug slug then some s else none
  | .findById tenantId, found, s => if found = s.tenants.findById tenantId then some s else none
  | .insertProvisioning tenant, _, s =>
    (s.tenants.insert? tenant).map fun ts => { s with tenants := ts }
  | .recordVaultRoleId tenantId roleId, _, s =>
    some { s with tenants := s.tenants.update tenantId (Tenants.setVaultRoleId roleId) }
  | .recordSchemaVersion tenantId version, _, s =>
    some { s with
      schemaVersion := s.schemaVersion.filter (·.1 ≠ tenantId) ++ [(tenantId, version)] }
  | .markStatus tenantId status, rows, s =>
    if rows = (s.tenants.findById tenantId).toList.length then
      some { s with tenants := s.tenants.update tenantId (Tenants.setStatus status) }
    else none
  | .audit row, _, s => some { s with audit := s.audit ++ [row] }
  | .suspend tenantId actor, found, s =>
    if found = (s.tenants.findById tenantId).isSome then some (s.suspend tenantId actor) else none
  | .newV4, _, s | .listMounts, _, s | .enableMount _, _, s | .createKey _, _, s
  | .setPolicy _, _, s | .setRole _ _, _, s | .readRoleId _, _, s | .wrapSecretId _, _, s
  | .allowKeyDeletion _, _, s | .deleteKey _, _, s | .disableMount _, _, s | .deletePolicy _, _, s
  | .deleteRole _, _, s | .databaseExists _, _, s | .createDatabase _, _, s | .dropDatabase _, _, s
  | .connect _ _, _, s | .migrate _, _, s | .currentSchemaVersion _, _, s => some s

/-! ## The calls -/

/-- What a call fails with by its own decision. -/
inductive ProvisionError
  | registeredDifferently (slug existingRegion existingDatabaseName : String)
  | unknownTenant (tenantId : Uuid)
deriving DecidableEq

abbrev Program (α : Type) := Prog Stmt.Answer ProvisionError α

/-- A statement and its answer. -/
abbrev ask (q : Stmt) : Program q.Answer := Prog.stmt q

/-- The arguments of `provision_tenant`. -/
structure Inputs where
  slug : String
  region : String
  databaseName : String
  actor : String
deriving DecidableEq

/-- Source: `provision.rs`. -/
structure ProvisionOutcome where
  tenantId : Uuid
  vaultRoleId : String
  vaultWrappedSecretId : Option String
deriving DecidableEq

/-- The `match` of `provision_tenant` on the tenant of the slug: its id, and whether it is new. -/
def register (inp : Inputs) : Program (Uuid × Bool) := do
  let found ← ask (.findBySlug inp.slug)
  match found with
  | some tenant =>
    if tenant.region = inp.region ∧ tenant.databaseName = inp.databaseName then
      pure (tenant.id, false)
    else do
      ask (.audit ⟨inp.actor, "tenant.provision_rejected", some tenant.id,
        [("slug", inp.slug), ("attempted_region", inp.region),
          ("attempted_database_name", inp.databaseName), ("existing_region", tenant.region),
          ("existing_database_name", tenant.databaseName)]⟩)
      .fail (.registeredDifferently inp.slug tenant.region tenant.databaseName)
  | none => do
    let id ← ask .newV4
    let webhookToken ← ask .newV4
    ask (.insertProvisioning ⟨id, inp.slug, inp.region, inp.databaseName,
      "transit/" ++ inp.slug, none, none, webhookToken, .provisioning⟩)
    pure (id, true)

/-- Source: `vault.rs`. -/
def ensureTransitMount (mountPath : String) : Program Unit := do
  let existing ← ask .listMounts
  if existing.contains (mountPath ++ "/") then pure ()
  else ask (.enableMount mountPath)

/-- Source: `provision_vault`: the RoleID, and a wrapped SecretID if it is to be minted. -/
def provisionVault (tenantSlug : String) (mintSecretId : Bool) :
    Program (String × Option String) := do
  let mountPath := "transit/" ++ tenantSlug
  let policyName := "tenant-" ++ tenantSlug ++ "-transit"
  ensureTransitMount mountPath
  ask (.createKey mountPath)
  ask (.setPolicy policyName)
  ask (.setRole tenantSlug policyName)
  let roleId ← ask (.readRoleId tenantSlug)
  if mintSecretId then do
    let token ← ask (.wrapSecretId tenantSlug)
    pure (roleId, some token)
  else pure (roleId, none)

/-- Source: `ensure_database_exists`. -/
def ensureDatabaseExists (databaseName : String) : Program Unit := do
  let found ← ask (.databaseExists databaseName)
  if found then pure () else ask (.createDatabase databaseName)

/-- Source: `src/tenant/pool.rs`. -/
def connectTenantPool (tenantId : Uuid) (databaseName : String) : Program Unit := do
  let found ← ask (.findById tenantId)
  match found with
  | none => .fail (.unknownTenant tenantId)
  | some tenant => ask (.connect databaseName tenant.databaseName)

/-- Source: `provision.rs`. -/
def provisionTenant (inp : Inputs) : Program ProvisionOutcome := do
  let (tenantId, created) ← register inp
  let (roleId, wrappedSecretId) ← provisionVault inp.slug created
  ask (.recordVaultRoleId tenantId roleId)
  ensureDatabaseExists inp.databaseName
  connectTenantPool tenantId inp.databaseName
  ask (.migrate inp.databaseName)
  let version ← ask (.currentSchemaVersion inp.databaseName)
  ask (.recordSchemaVersion tenantId version)
  let _ ← ask (.markStatus tenantId .active)
  ask (.audit ⟨inp.actor, "tenant.provision", some tenantId,
    [("slug", inp.slug), ("region", inp.region), ("database_name", inp.databaseName),
      ("outcome", if created then "created" else "idempotent"), ("vault_role_id", roleId)]⟩)
  pure ⟨tenantId, roleId, wrappedSecretId⟩

/-- Source: `destroy_vault`; what is gone already is tolerated. -/
def destroyVault (tenantSlug : String) : Program Unit := do
  let mountPath := "transit/" ++ tenantSlug
  ask (.allowKeyDeletion mountPath)
  ask (.deleteKey mountPath)
  ask (.disableMount mountPath)
  ask (.deletePolicy ("tenant-" ++ tenantSlug ++ "-transit"))
  ask (.deleteRole tenantSlug)

/-- Source: `offboard.rs`. -/
def destroyTenant (tenantId : Uuid) (actor : String) : Program Unit := do
  let found ← ask (.findById tenantId)
  match found with
  | none => .fail (.unknownTenant tenantId)
  | some tenant => do
    destroyVault tenant.slug
    ask (.dropDatabase tenant.databaseName)
    let _ ← ask (.markStatus tenantId .offboardingDestroy)
    ask (.audit ⟨actor, "tenant.offboard_destroy", some tenantId,
      [("slug", tenant.slug), ("database_name", tenant.databaseName)]⟩)

/-- Source: `tenants.rs`, `suspend`: whether there is such a tenant. -/
def suspend (tenantId : Uuid) (actor : String) : Program Bool := ask (.suspend tenantId actor)

/-- Answers for runs on fixed inputs. -/
def sampleReply : (q : Stmt) → Registry → q.Answer
  | .findBySlug slug, s => s.tenants.findBySlug slug
  | .findById tenantId, s => s.tenants.findById tenantId
  | .markStatus tenantId _, s => (s.tenants.findById tenantId).toList.length
  | .suspend tenantId _, s => (s.tenants.findById tenantId).isSome
  | .newV4, _ => ⟨1⟩
  | .listMounts, _ => []
  | .readRoleId _, _ => "role"
  | .wrapSecretId _, _ => "token"
  | .databaseExists _, _ => false
  | .currentSchemaVersion _, _ => 20
  | .insertProvisioning _, _ | .recordVaultRoleId _ _, _ | .recordSchemaVersion _ _, _ | .audit _, _
  | .enableMount _, _ | .createKey _, _ | .setPolicy _, _ | .setRole _ _, _ | .allowKeyDeletion _, _
  | .deleteKey _, _ | .disableMount _, _ | .deletePolicy _, _ | .deleteRole _, _
  | .createDatabase _, _ | .dropDatabase _, _ | .connect _ _, _ | .migrate _, _ => ()

/-- A new control database. -/
def Registry.empty : Registry := ⟨.empty, [], [], []⟩

/-- The inputs of a tenant, for runs on fixed inputs. -/
def sampleInputs : Inputs := ⟨"acme", "eu", "acme", "operator"⟩

end Messgr.Provision
