import Messgr.Base
import Messgr.Lib.Table

/-!
# Kill switches

The rows of `kill_switch` (tenant database) and `platform_kill_switch` (control database), and the
rule that says which message falls under a switch. A scope or an action that the code does not
know is kept as its text: the columns have no `CHECK`, and every `match` of the source has a
default arm for it.
-/

namespace Messgr

/-- `kill_switch.scope`. Source: `src/kill_switch/model.rs`, `scope`. -/
inductive Scope
  | global
  | channel
  | producer
  | producerChannel
  | campaign
  | unrecognised (text : String)
deriving DecidableEq

/-- The text of a scope in its column. -/
def Scope.text : Scope → String
  | .global => "global"
  | .channel => "channel"
  | .producer => "producer"
  | .producerChannel => "producer_channel"
  | .campaign => "campaign"
  | .unrecognised text => text

/-- `kill_switch.on_queued`. Source: `kill_switch/model.rs`, `on_queued`. -/
inductive OnQueued
  | hold
  | discard
  | unrecognised (text : String)
deriving DecidableEq

/-- A row of `kill_switch`. Source: `kill_switch/model.rs`. -/
structure KillSwitch where
  id : Uuid
  scope : Scope
  scopeKey : Option String
  onQueued : OnQueued
  engagedBy : String
  engagedAt : Time
  reason : String
  releasedBy : Option String
  releasedAt : Option Time
deriving DecidableEq

/-- The tenant's `kill_switch` table. -/
abbrev SwitchTable := Table KillSwitch KillSwitch.id

/-! ## Scope keys -/

section
variable [UuidCrate]

/-- The producer and the channel packed into one key, `"<producer_id>:<channel>"`. Source:
`kill_switch/model.rs`. -/
def splitProducerChannel (scopeKey : String) : Option (Uuid × String) := do
  let (producer, channel) ← splitOnce ':' scopeKey
  let producerId ← UuidCrate.parseStr producer
  return (producerId, channel)

namespace KillSwitch

/-- The producer that the key of a `producer` switch names, `none` when it does not parse. -/
def producerId (s : KillSwitch) : Option Uuid := s.scopeKey.bind UuidCrate.parseStr

/-- The producer and the channel that the key of a `producer_channel` switch names. -/
def producerChannelParts (s : KillSwitch) : Option (Uuid × String) :=
  s.scopeKey.bind splitProducerChannel

/-- Whether a message on `channel`, from `producerId`, in `campaignId` falls under the switch.
Source: `KillSwitch::matches` (`matches` is a reserved word here). -/
def matchesOn (s : KillSwitch) (channel : String) (producerId : Uuid)
    (campaignId : Option String) : Bool :=
  match s.scope with
  | .global => true
  | .channel => s.scopeKey = some channel
  | .producer => s.producerId.any fun id => id = producerId
  | .producerChannel =>
    s.producerChannelParts.any fun (id, ch) => id = producerId && ch = channel
  | .campaign => campaignId.isSome && s.scopeKey = campaignId
  | .unrecognised _ => false

end KillSwitch

end

/-! ## The platform tier -/

/-- `platform_kill_switch.scope`. Source: `src/platform_kill_switch/model.rs`, `scope`. -/
inductive PlatformScope
  | platform
  | tenant
  | unrecognised (text : String)
deriving DecidableEq

/-- A row of `platform_kill_switch`. Source: `platform_kill_switch/model.rs`. -/
structure PlatformKillSwitch where
  id : Uuid
  scope : PlatformScope
  tenantId : Option Uuid
  engagedBy : String
  engagedAt : Time
  reason : String
  releasedBy : Option String
  releasedAt : Option Time
deriving DecidableEq

/-- The control database's `platform_kill_switch` table. -/
abbrev PlatformSwitchTable := Table PlatformKillSwitch PlatformKillSwitch.id

namespace PlatformKillSwitch

/-- Whether the switch blocks a tenant. -/
def appliesTo (s : PlatformKillSwitch) (tenantId : Uuid) : Bool :=
  match s.scope with
  | .platform => true
  | .tenant => s.tenantId = some tenantId
  | .unrecognised _ => false

/-- The tenant-tier row that the cache carries for a platform switch: `global`, `hold`, the same id.
-/
def asKillSwitch (s : PlatformKillSwitch) : KillSwitch where
  id := s.id
  scope := .global
  scopeKey := none
  onQueued := .hold
  engagedBy := s.engagedBy
  engagedAt := s.engagedAt
  reason := s.reason
  releasedBy := s.releasedBy
  releasedAt := s.releasedAt

end PlatformKillSwitch

/-! ## Reads -/

/-- Every engaged switch of the tenant. Source: `src/kill_switch/repo.rs`. -/
def listActive (t : SwitchTable) : List KillSwitch :=
  t.rows.filter fun s => s.releasedAt.isNone

/-- Every engaged platform switch that blocks the tenant, in any order. Source:
`src/platform_kill_switch/repo.rs`. -/
def listActiveForTenant (t : PlatformSwitchTable) (tenantId : Uuid) : List PlatformKillSwitch :=
  t.rows.filter fun s =>
    s.releasedAt.isNone &&
      (s.scope = .platform || (s.scope = .tenant && s.tenantId = some tenantId))

@[simp] theorem mem_listActive {t : SwitchTable} {s : KillSwitch} :
    s ∈ listActive t ↔ s ∈ t ∧ s.releasedAt = none := by
  simp [listActive, Table.mem_def]

/-- The query's condition is `applies_to` on the engaged rows. -/
theorem mem_listActiveForTenant {t : PlatformSwitchTable} {tenantId : Uuid}
    {s : PlatformKillSwitch} :
    s ∈ listActiveForTenant t tenantId ↔
      s ∈ t ∧ s.releasedAt = none ∧ s.appliesTo tenantId = true := by
  simp only [listActiveForTenant, List.mem_filter, Bool.and_eq_true, Option.isNone_iff_eq_none,
    PlatformKillSwitch.appliesTo]
  cases s.scope <;> simp [Table.mem_def]

/-- The ids of a tenant read are distinct. -/
theorem nodup_listActive (t : SwitchTable) : ((listActive t).map KillSwitch.id).Nodup :=
  t.nodup.sublist (List.filter_sublist.map _)

/-! ## Writes -/

/-- `INSERT INTO kill_switch`: refused while another switch of that scope and key is engaged.
Source: `src/kill_switch/configure.rs`, `engage`; `0009_kill_switch.sql`. -/
def engage (t : SwitchTable) (s : KillSwitch) : Option SwitchTable :=
  if t.rows.any fun r => r.releasedAt.isNone && r.scope.text = s.scope.text &&
      r.scopeKey.getD "" = s.scopeKey.getD "" then none
  else t.insert? { s with releasedBy := none, releasedAt := none }

/-- Source: `kill_switch/configure.rs`. -/
def release (t : SwitchTable) (id : Uuid) (releasedBy : String) (now : Time) : SwitchTable :=
  t.update (fun s => s.id = id && s.releasedAt.isNone)
    (fun s => { s with releasedBy := some releasedBy, releasedAt := some now }) fun _ => rfl

/-- The text of a platform scope in its column. -/
def PlatformScope.text : PlatformScope → String
  | .platform => "platform"
  | .tenant => "tenant"
  | .unrecognised text => text

/-- `INSERT INTO platform_kill_switch .. ON CONFLICT .. DO NOTHING`. Source:
`src/platform_kill_switch/configure.rs`, `engage`. -/
def engagePlatform (t : PlatformSwitchTable) (s : PlatformKillSwitch) :
    Option PlatformSwitchTable :=
  if t.rows.any fun r => r.releasedAt.isNone && r.scope.text = s.scope.text &&
      r.tenantId.getD ⟨0⟩ = s.tenantId.getD ⟨0⟩ then none
  else t.insert? { s with releasedBy := none, releasedAt := none }

/-- Source: `platform_kill_switch/configure.rs`, `release`. -/
def releasePlatform (t : PlatformSwitchTable) (id : Uuid) (releasedBy : String)
    (now : Time) : PlatformSwitchTable :=
  t.update (fun s => s.id = id && s.releasedAt.isNone)
    (fun s => { s with releasedBy := some releasedBy, releasedAt := some now }) fun _ => rfl

/-! ## A sample -/

/-- An engaged `hold` switch over everything, for runs on fixed inputs. -/
def KillSwitch.sample (id : Uuid) : KillSwitch :=
  ⟨id, .global, none, .hold, "operator", 0, "incident", none, none⟩

/-- An engaged switch of the whole platform, for runs on fixed inputs. -/
def PlatformKillSwitch.sample (id : Uuid) : PlatformKillSwitch :=
  ⟨id, .platform, none, "operator", 0, "incident", none, none⟩

end Messgr
