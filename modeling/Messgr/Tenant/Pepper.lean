import Messgr.Keys
import Messgr.Lib.Prog
import Messgr.Lib.Table

/-!
# The tenant's pepper

`src/tenant_pepper.rs`: every process that hashes destinations of a tenant asks
`ensure_tenant_pepper` for the tenant's pepper, with a row of `tenant` that it read some time
before. A row without a pepper makes the call create one and record it, over whatever the column
holds by then. So two calls that both read such a row return different ones
(`pepper_recorded_twice`); while a pepper is recorded only while there is none, all calls
return the one that is persisted (`ensureTenantPepper_persisted`).
-/

namespace Messgr

open Option

/-- The table `tenant` of the control database. -/
abbrev TenantTable := Table Tenant Tenant.id

/-- `UPDATE tenant SET vault_pepper_wrapped = $1 WHERE id = $2`. Source: `src/tenant/repo.rs`. -/
def recordVaultPepperWrapped (tenants : TenantTable) (tenantId : Uuid) (wrapped : String) :
    TenantTable :=
  tenants.update (·.id = tenantId) (fun r => { r with vaultPepperWrapped := some wrapped })
    fun _ => rfl

theorem mem_recordVaultPepperWrapped {tenants : TenantTable} {tenantId : Uuid} {wrapped : String}
    {r : Tenant} : r ∈ recordVaultPepperWrapped tenants tenantId wrapped ↔
      (r ∈ tenants ∧ r.id ≠ tenantId) ∨
      ∃ r0 ∈ tenants, r0.id = tenantId ∧ r = { r0 with vaultPepperWrapped := some wrapped } := by
  simp only [recordVaultPepperWrapped, Table.mem_update, decide_eq_true_eq, decide_eq_false_iff_not,
    ne_eq]

namespace Pepper

/-- The statements of a call, each a round trip to the control database or to Vault. -/
inductive Stmt
  | findById (tenantId : Uuid)
  | createDek (mount : String)
  | unwrapDek (mount wrapped : String)
  | recordVaultPepperWrapped (tenantId : Uuid) (wrapped : String)

/-- What a statement answers. -/
def Stmt.Answer : Stmt → Type
  | .findById _ => Option Tenant
  | .createDek _ => Dek
  | .unwrapDek _ _ => Bytes
  | .recordVaultPepperWrapped _ _ => Unit

/-- Source: `tenant_pepper.rs`, `TenantPepperError`; the callers' error for a tenant that is
not registered. -/
inductive Error
  | database
  | vault
  | unknownTenant
deriving DecidableEq

/-- What the environment decides about a statement: it is done, it fails, it takes effect but its
reply is lost, or Vault creates `dek`. -/
inductive Event
  | done
  | fails
  | lost
  | created (dek : Dek)
deriving DecidableEq

/-- A call. -/
abbrev Program := Prog Stmt.Answer Error

def findById (tenantId : Uuid) : Program (Option Tenant) := Prog.stmt (Stmt.findById tenantId)

def createDek (mount : String) : Program Dek := Prog.stmt (Stmt.createDek mount)

def unwrapDek (mount wrapped : String) : Program Bytes := Prog.stmt (Stmt.unwrapDek mount wrapped)

def recordPepper (tenantId : Uuid) (wrapped : String) : Program Unit :=
  Prog.stmt (Stmt.recordVaultPepperWrapped tenantId wrapped)

/-- Source: `tenant_pepper.rs`. -/
def ensureTenantPepper (tenant : Tenant) : Program Bytes := do
  match tenant.vaultPepperWrapped with
  | some wrapped => unwrapDek tenant.vaultMount wrapped
  | none =>
    let secret ← createDek tenant.vaultMount
    recordPepper tenant.id secret.wrapped
    return secret.plaintext

/-- A caller: it reads the tenant's row and then, whenever it gets to it, asks for the pepper.
Source: `src/tenant/registry.rs`, `get_or_open`; `src/suppression/configure.rs`,
`src/consent/configure.rs`. -/
def call (tenantId : Uuid) : Program Bytes := do
  match ← findById tenantId with
  | none => .fail .unknownTenant
  | some tenant => ensureTenantPepper tenant

section
variable [KeyStore]

/-- What a statement does. -/
def exec (tenants : TenantTable) :
    (s : Stmt) → Event → Option (TenantTable × Except Error s.Answer)
  | .findById tenantId, .done => some (tenants, .ok (tenants.find? tenantId))
  | .findById _, .fails => some (tenants, .error .database)
  | .createDek mount, .created dek =>
    if KeyStore.creates mount dek then some (tenants, .ok dek) else none
  | .createDek _, .fails => some (tenants, .error .vault)
  | .unwrapDek mount wrapped, .done =>
    match KeyStore.unwrapDek mount wrapped with
    | some plaintext => some (tenants, .ok plaintext)
    | none => some (tenants, .error .vault)
  | .unwrapDek _ _, .fails => some (tenants, .error .vault)
  | .recordVaultPepperWrapped tenantId wrapped, .done =>
    some (Messgr.recordVaultPepperWrapped tenants tenantId wrapped, .ok ())
  | .recordVaultPepperWrapped tenantId wrapped, .lost =>
    some (Messgr.recordVaultPepperWrapped tenants tenantId wrapped, .error .database)
  | .recordVaultPepperWrapped _ _, .fails => some (tenants, .error .database)
  | _, _ => none

/-- Any number of callers, of any processes, over the table `tenant`. -/
def system : Sys TenantTable Uuid Event Empty Stmt.Answer Error Bytes where
  body := call
  start _ _ tenants := some tenants
  exec _ _ s e tenants := exec tenants s e
  env := nofun

end

/-! ## What is persisted -/

/-- What a table becomes: rows stay under their mounts, and recorded peppers stay. -/
structure Later (tenants tenants' : TenantTable) : Prop where
  stays : ∀ r ∈ tenants, ∃ r' ∈ tenants', r'.id = r.id ∧ r'.vaultMount = r.vaultMount ∧
    (r.vaultPepperWrapped.isSome → r'.vaultPepperWrapped = r.vaultPepperWrapped)

theorem Later.refl (tenants : TenantTable) : Later tenants tenants :=
  ⟨fun r hr => ⟨r, hr, rfl, rfl, fun _ => rfl⟩⟩

theorem Later.trans {t1 t2 t3 : TenantTable} (h₁ : Later t1 t2) (h2 : Later t2 t3) :
    Later t1 t3 := by
  refine ⟨fun r hr => ?_⟩
  obtain ⟨r', hr', hid, hm, hw⟩ := h₁.stays r hr
  obtain ⟨r'', hr'', hid', hm', hw'⟩ := h2.stays r' hr'
  refine ⟨r'', hr'', hid'.trans hid, hm'.trans hm, fun hs => ?_⟩
  rw [hw' (by rwa [hw hs]), hw hs]

section
variable [KeyStore]

/-- The pepper that unwrapping the persisted one gives. -/
def Persisted (tenants : TenantTable) (tenantId : Uuid) (pepper : Bytes) : Prop :=
  ∃ r ∈ tenants, r.id = tenantId ∧ ∃ wrapped, r.vaultPepperWrapped = some wrapped ∧
    KeyStore.unwrapDek r.vaultMount wrapped = some pepper

/-- A tenant has one persisted pepper. -/
theorem Persisted.unique {tenants : TenantTable} {tenantId : Uuid} {p q : Bytes}
    (hp : Persisted tenants tenantId p) (hq : Persisted tenants tenantId q) : p = q := by
  obtain ⟨r, hr, hid, wrapped, hw, hu⟩ := hp
  obtain ⟨r', hr', hid', wrapped', hw', hu'⟩ := hq
  obtain rfl := Table.eq_of_key hr hr' (hid.trans hid'.symm)
  rw [hw, some_inj] at hw'
  subst hw'
  rw [hu, some_inj] at hu'
  exact hu'

theorem Persisted.later {tenants tenants' : TenantTable} {tenantId : Uuid} {p : Bytes}
    (h : Persisted tenants tenantId p) (hl : Later tenants tenants') :
    Persisted tenants' tenantId p := by
  obtain ⟨r, hr, hid, wrapped, hw, hu⟩ := h
  obtain ⟨r', hr', hid', hm, hw'⟩ := hl.stays r hr
  exact ⟨r', hr', hid'.trans hid, wrapped, (hw' (by rw [hw]; rfl)).trans hw, hm ▸ hu⟩

end

/-! ## When calls agree -/

/-- The tenant's row has no pepper yet. -/
def unrecorded (tenants : TenantTable) (tenantId : Uuid) : Bool :=
  tenants.rows.all fun r => r.id ≠ tenantId || r.vaultPepperWrapped.isNone

/-- Recording where there is no pepper. -/
theorem later_record {tenants : TenantTable} {tenantId : Uuid} {wrapped : String}
    (h : unrecorded tenants tenantId) :
    Later tenants (recordVaultPepperWrapped tenants tenantId wrapped) := by
  refine ⟨fun r hr => ?_⟩
  by_cases hid : r.id = tenantId
  · refine ⟨{ r with vaultPepperWrapped := some wrapped }, mem_recordVaultPepperWrapped.2
      (.inr ⟨r, hr, hid, rfl⟩), rfl, rfl, fun hs => ?_⟩
    have hnone := List.all_eq_true.1 h r hr
    simp only [hid, ne_eq, not_true_eq_false, decide_false, Bool.false_or] at hnone
    rw [isNone_iff_eq_none.1 hnone] at hs
    cases hs
  · exact ⟨r, mem_recordVaultPepperWrapped.2 (.inl ⟨hr, hid⟩), rfl, rfl, fun _ => rfl⟩

/-- The condition: a pepper is recorded only while the tenant has none. -/
def recordsFirst (w : Pool TenantTable Uuid Stmt.Answer Error Bytes) :
    Sys.Act Uuid Event Empty → Bool
  | .step t e =>
    match w.threads[t]? with
    | some ⟨_, .call (.recordVaultPepperWrapped tenantId _) _⟩ =>
      e = .fails || unrecorded w.shared tenantId
    | _ => true
  | _ => true

section
variable [KeyStore]

/-- The rules: between two statements of a call, the others keep what is recorded. -/
def rules : Rules system where
  inv _ := True
  others _ := Later
  refl _ := Later.refl
  trans _ _ _ _ := Later.trans
  considered _ _ s e tenants :=
    match s with
    | .recordVaultPepperWrapped tenantId _ => e = .fails ∨ unrecorded tenants tenantId
    | _ => True

/-- The pepper that a call returns is the persisted one. -/
def Post (tenantId : Uuid) : Except Error Bytes → TenantTable → Prop
  | .ok pepper, tenants => Persisted tenants tenantId pepper
  | .error _, _ => True

section calls
variable {t : Nat} {i : Uuid} {tenants : TenantTable} {tenant : Tenant}

theorem wp_unwrapDek {wrapped : String} (hr : tenant ∈ tenants)
    (hw : tenant.vaultPepperWrapped = some wrapped) :
    rules.Wp t i (Post tenant.id) (unwrapDek tenant.vaultMount wrapped) tenants := by
  refine .stmt fun s1 e s2 a h₁ _ _ hx => ?_
  cases e with
  | done =>
    simp only [system, exec] at hx
    split at hx
    · next p hu =>
      cases hx
      refine ⟨trivial, fun _ _ => .refl _, fun s3 h3 => ?_⟩
      have hp : Persisted tenants tenant.id p := ⟨tenant, hr, rfl, wrapped, hw, hu⟩
      exact (hp.later h₁).later h3
    · cases hx
      exact ⟨trivial, fun _ _ => .refl _, fun _ _ => trivial⟩
  | fails =>
    cases hx
    exact ⟨trivial, fun _ _ => .refl _, fun _ _ => trivial⟩
  | lost => cases hx
  | created dek => cases hx

/-- The pepper that was created is recorded. -/
theorem wp_recordVaultPepperWrapped {dek : Dek}
    (hr : ∃ r ∈ tenants, r.id = tenant.id ∧ r.vaultMount = tenant.vaultMount)
    (hd : KeyStore.creates tenant.vaultMount dek) :
    rules.Wp t i (Post tenant.id) (do
      recordPepper tenant.id dek.wrapped
      return dek.plaintext) tenants := by
  refine .stmt fun s1 e s2 a h₁ _ hc hx => ?_
  obtain ⟨r0, hr0, hid0, hm0⟩ := hr
  obtain ⟨r1, hr1, hid1, hm1, -⟩ := h₁.stays r0 hr0
  cases e with
  | done =>
    cases hx
    have hrec : unrecorded s1 tenant.id := hc.resolve_left nofun
    refine ⟨trivial, fun _ _ => later_record hrec, fun s3 h3 => .later ?_ h3⟩
    refine ⟨{ r1 with vaultPepperWrapped := some dek.wrapped }, mem_recordVaultPepperWrapped.2
      (.inr ⟨r1, hr1, hid1.trans hid0, rfl⟩), hid1.trans hid0, dek.wrapped, rfl, ?_⟩
    show KeyStore.unwrapDek r1.vaultMount dek.wrapped = _
    rw [hm1, hm0]
    exact of_decide_eq_true hd
  | lost =>
    cases hx
    exact ⟨trivial, fun _ _ => later_record (hc.resolve_left nofun), fun _ _ => trivial⟩
  | fails =>
    cases hx
    exact ⟨trivial, fun _ _ => .refl _, fun _ _ => trivial⟩
  | created dek => cases hx

/-- What is returned is the recorded pepper. -/
theorem wp_ensureTenantPepper (hr : tenant ∈ tenants) :
    rules.Wp t i (Post tenant.id) (ensureTenantPepper tenant) tenants := by
  unfold ensureTenantPepper
  split
  · next wrapped hw => exact wp_unwrapDek hr hw
  · refine .stmt fun s1 e s2 a h₁ _ _ hx => ?_
    cases e with
    | created dek =>
      simp only [system, exec] at hx
      split at hx
      · next hd =>
        cases hx
        refine ⟨trivial, fun _ _ => .refl _, wp_recordVaultPepperWrapped ?_ hd⟩
        obtain ⟨r, hr, hid, hm, -⟩ := h₁.stays tenant hr
        exact ⟨r, hr, hid, hm⟩
      · cases hx
    | fails =>
      cases hx
      exact ⟨trivial, fun _ _ => .refl _, fun _ _ => trivial⟩
    | done => cases hx
    | lost => cases hx

theorem wp_call (tenantId : Uuid) : rules.Wp t i (Post tenantId) (call tenantId) tenants := by
  refine .stmt fun s1 e s2 a h₁ _ _ hx => ?_
  cases e with
  | done =>
    cases hx
    refine ⟨trivial, fun _ _ => .refl _, ?_⟩
    cases hf : s1.find? tenantId with
    | none => exact fun _ _ => trivial
    | some tenant =>
      obtain ⟨hr, rfl⟩ := Table.find?_some hf
      exact wp_ensureTenantPepper hr
  | fails =>
    cases hx
    exact ⟨trivial, fun _ _ => .refl _, fun _ _ => trivial⟩
  | lost => cases hx
  | created dek => cases hx

end calls

/-- The condition is what the rules ask. -/
theorem allows_of_recordsFirst {w : Pool TenantTable Uuid Stmt.Answer Error Bytes}
    {a : Sys.Act Uuid Event Empty} (h : recordsFirst w a = true) :
    rules.Allows (fun _ => Post) w a where
  start i s' _ hs _ := by
    cases hs
    exact ⟨trivial, fun _ => .refl _, wp_call i⟩
  env x := nomatch x
  step t e i c k ha hth := by
    subst ha
    cases c with
    | recordVaultPepperWrapped tenantId wrapped =>
      simp only [recordsFirst, hth, Bool.or_eq_true, decide_eq_true_eq] at h
      exact h
    | findById | createDek | unwrapDek => trivial

/-- In every run in which a pepper is recorded only while the tenant has none, every call that
returns gives the pepper that unwrapping the persisted one gives. So the calls for one tenant agree,
and so do the hashes computed with what they return. -/
theorem ensureTenantPepper_persisted [HmacSha256] (tenants : TenantTable)
    {as : List (Sys.Act Uuid Event Empty)} {w : Pool TenantTable Uuid Stmt.Answer Error Bytes}
    (h : Run.Steps system.step (recordsFirst · ·) ⟨tenants, []⟩ as w) :
    (∀ t tenantId p, w.ended t = some (tenantId, .ok p) → Persisted w.shared tenantId p) ∧
    ∀ t u tenantId p q, w.ended t = some (tenantId, .ok p) → w.ended u = some (tenantId, .ok q) →
      p = q ∧ ∀ destination, destinationHmac p destination = destinationHmac q destination := by
  have hw := Rules.Holds.run (fun _ _ => allows_of_recordsFirst) h ⟨trivial, .nil⟩
  refine ⟨fun t tenantId p ht => hw.ended ht, fun t u tenantId p q ht hu => ?_⟩
  have hp : Persisted w.shared tenantId p := hw.ended ht
  obtain rfl := hp.unique (hw.ended hu)
  exact ⟨rfl, fun _ => rfl⟩

end

/-- A tenant with the given pepper. -/
def sampleTenant (pepper : Option String) : Tenant :=
  ⟨⟨1⟩, "acme", "de", "acme", "transit/acme", none, pepper, ⟨2⟩, .active⟩

/-- One tenant without a pepper. -/
def sampleTenants : TenantTable := ⟨[sampleTenant none], by decide⟩

/-- A call that creates and records the pepper, and one that reads its row after that. -/
def callAfterCall : List (Sys.Act Uuid Event Empty) :=
  [.start ⟨1⟩, .step 0 .done, .step 0 (.created (.sample 3)), .step 0 .done,
   .start ⟨1⟩, .step 1 .done, .step 1 .done]

/-- Both calls return the recorded pepper. -/
theorem ensureTenantPepper_persisted_callAfterCall :
    ∃ w, Run.Steps (@system .sample).step (recordsFirst · ·) ⟨sampleTenants, []⟩ callAfterCall w ∧
      w.ended 0 = some (⟨1⟩, .ok (Dek.sample 3).plaintext) ∧
      w.ended 1 = some (⟨1⟩, .ok (Dek.sample 3).plaintext) ∧
      @Persisted .sample w.shared ⟨1⟩ (Dek.sample 3).plaintext := by
  obtain ⟨w, hw, hp⟩ := Run.Steps.exists_of_checked (@system .sample).step recordsFirst
    ⟨sampleTenants, []⟩ callAfterCall
    (fun w => w.ended 0 = some (⟨1⟩, .ok (Dek.sample 3).plaintext) &&
      w.ended 1 = some (⟨1⟩, .ok (Dek.sample 3).plaintext)) (by decide)
  simp only [Bool.and_eq_true, decide_eq_true_eq] at hp
  exact ⟨w, hw, hp.1, hp.2, (@ensureTenantPepper_persisted .sample .sample _ _ _ hw).1 0 _ _ hp.1⟩

/-- Two calls that both read the row before a pepper is recorded. -/
def callsFromOneRow : List (Sys.Act Uuid Event Empty) :=
  [.start ⟨1⟩, .start ⟨1⟩, .step 0 .done, .step 1 .done, .step 0 (.created (.sample 3)),
   .step 1 (.created (.sample 4)), .step 0 .done, .step 1 .done]

/-- They return different peppers, and only the one recorded last is persisted. -/
theorem pepper_recorded_twice :
    ∃ w, Run.Steps (@system .sample).step Run.Any ⟨sampleTenants, []⟩ callsFromOneRow w ∧
      w.ended 0 = some (⟨1⟩, .ok (Dek.sample 3).plaintext) ∧
      w.ended 1 = some (⟨1⟩, .ok (Dek.sample 4).plaintext) ∧
      (Dek.sample 3).plaintext ≠ (Dek.sample 4).plaintext ∧
      ¬ @Persisted .sample w.shared ⟨1⟩ (Dek.sample 3).plaintext := by
  obtain ⟨w, hw, hp⟩ := Run.Steps.exists_of_exec (@system .sample).step
    ⟨sampleTenants, []⟩ callsFromOneRow
    (fun w => w.ended 0 = some (⟨1⟩, .ok (Dek.sample 3).plaintext) &&
      w.ended 1 = some (⟨1⟩, .ok (Dek.sample 4).plaintext) &&
      w.shared.rows = [sampleTenant (some (Dek.sample 4).wrapped)]) (by decide)
  simp only [Bool.and_eq_true, decide_eq_true_eq] at hp
  obtain ⟨⟨h0, h1⟩, hrows⟩ := hp
  refine ⟨w, hw, h0, h1, by decide, fun h => ?_⟩
  obtain ⟨r, hr, -, wrapped, hwr, hu⟩ := h
  rw [Table.mem_def, hrows, List.mem_singleton] at hr
  subst hr
  cases hwr
  revert hu
  decide

end Pepper

end Messgr
