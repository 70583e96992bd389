import Mathlib.Data.Option.Basic

/-!
# Values the tables and the services share
-/

namespace Messgr

/-- A `uuid` column, `uuid::Uuid`. -/
structure Uuid where
  bits : BitVec 128
deriving DecidableEq

/-- A `timestamptz`, `DateTime<Utc>`: microseconds of UTC, the database's precision. -/
abbrev Time := Int

/-- One minute of a `Time`. -/
def minute : Time := 60 * 1000000

/-- One hour of a `Time`. -/
def hour : Time := 60 * 60 * 1000000

/-- One day of a `Time`. -/
def day : Time := 24 * 60 * 60 * 1000000

/-- The bytes of a `bytea` column. -/
abbrev Bytes := List UInt8

/-- `sqlx::Error`, as far as the code tells errors apart. -/
inductive SqlError
  | rowNotFound
  | failed
deriving DecidableEq

/-- Source: `src/tenant/model.rs`, `status`. -/
inductive TenantStatus
  | provisioning
  | active
  | suspended
  | offboardingArchive
  | offboardingDestroy
deriving DecidableEq

/-- A row of `tenant` in the control database. Source: `src/tenant/model.rs`. -/
structure Tenant where
  id : Uuid
  slug : String
  region : String
  databaseName : String
  vaultMount : String
  vaultRoleId : Option String
  vaultPepperWrapped : Option String
  webhookToken : Uuid
  status : TenantStatus
deriving DecidableEq

/-- Two rows that a unique constraint keeps apart. Source:
`migrations/control/0001_control_schema.sql`. -/
def Tenant.clashes (a b : Tenant) : Bool :=
  a.slug = b.slug || a.databaseName = b.databaseName || a.vaultMount = b.vaultMount ||
    a.webhookToken = b.webhookToken

/-- `Uuid::parse_str` of the `uuid` crate, a parameter of everything that reads a scope key. -/
class UuidCrate where
  parseStr : String → Option Uuid

/-- A parser that accepts nothing, for runs on fixed inputs without such keys. -/
abbrev UuidCrate.sample : UuidCrate := ⟨fun _ => none⟩

/-- `str::split_once` on characters: the parts before and after the first `c`. -/
def splitOnceChars (c : Char) : List Char → Option (List Char × List Char)
  | [] => none
  | x :: xs =>
    if x = c then some ([], xs) else (splitOnceChars c xs).map fun p => (x :: p.1, p.2)

/-- `str::split_once`. -/
def splitOnce (c : Char) (s : String) : Option (String × String) :=
  (splitOnceChars c s.toList).map fun p => (String.ofList p.1, String.ofList p.2)

end Messgr
