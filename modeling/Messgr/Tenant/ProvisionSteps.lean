import Messgr.Tenant.Provision

/-!
# What the calls on a tenant come to

What a statement does to the status of a tenant (`exec_status`), and what holds along the calls,
whatever Vault and the cluster answer and wherever they stop. A call of `provision_tenant` marks as
active only the tenant that it found or inserted, and returns a wrapped SecretID exactly when the
slug was not registered (`always_provisionTenant`). A call of `destroy_tenant` sets no status but
`offboarding_destroy` (`makes_destroyTenant`).
-/

namespace Messgr.Provision

open Option Table

/-! ## What a statement does -/

section
variable {ts ts' : Tenants} {t : Tenant} {s s' : Registry} {id : Uuid} {slug : String}
variable {f : Tenants.Change} {q : Stmt} {inp : Inputs} {s0 : Registry} {r : q.Answer}

theorem Tenants.findById_update (id' : Uuid) : (ts.update id f).findById id' =
      (ts.findById id').map fun t => if t.id = id then f.apply t else t := by
  rw [Tenants.findById, Tenants.update, find?_update]
  simp only [decide_eq_true_eq]
  rfl

theorem Tenants.mem_update : t ∈ (ts.update id f).table ↔
    (t ∈ ts.table ∧ t.id ≠ id) ∨ ∃ t0 ∈ ts.table, t0.id = id ∧ t = f.apply t0 := by
  rw [Tenants.update, Table.mem_update]
  simp only [decide_eq_true_eq, decide_eq_false_iff_not, ne_eq]

theorem Tenants.insert?_some (h : ts.insert? t = some ts') :
    (∀ b ∈ ts.table, b.id ≠ t.id) ∧ ∀ b, b ∈ ts'.table ↔ b ∈ ts.table ∨ b = t := by
  unfold Tenants.insert? at h
  split at h
  · cases h
  · split at h
    · cases h
    · next hi =>
      cases h
      exact insert?_some hi

theorem registered_iff : s.registered slug = true ↔ ∃ t ∈ s.tenants.table, t.slug = slug := by
  rw [Registry.registered, Tenants.findBySlug, List.find?_isSome]
  simp only [decide_eq_true_eq]
  rfl

theorem status_of_mem (h : t ∈ s.tenants.table) : s.status t.id = some t.status := by
  rw [Registry.status, Tenants.findById, find?_of_mem h, map_some]

theorem findBySlug_some (h : s.tenants.findBySlug slug = some t) :
    t ∈ s.tenants.table ∧ t.slug = slug :=
  ⟨List.mem_of_find?_eq_some h, by simpa using List.find?_some h⟩

/-- A change of a row sets the status of that row, if it sets a status. -/
theorem status_update {g : TenantStatus → TenantStatus} (hf : ∀ t, (f.apply t).status = g t.status)
    (id' : Uuid) :
    { s with tenants := s.tenants.update id f }.status id' =
      if id' = id then (s.status id').map g else s.status id' := by
  rw [Registry.status, Tenants.findById_update, Registry.status]
  cases h : s.tenants.findById id' with
  | none => simp
  | some t =>
    have hid : t.id = id' := (find?_some h).2
    simp only [map_some, hid]
    split
    · rw [hf]
    · rfl

theorem registered_update (h : s.registered slug = true) :
    { s with tenants := s.tenants.update id f }.registered slug = true := by
  obtain ⟨t, ht, rfl⟩ := registered_iff.1 h
  refine registered_iff.2 ?_
  by_cases hid : t.id = id
  · exact ⟨f.apply t, Tenants.mem_update.2 (.inr ⟨t, ht, hid, rfl⟩), f.slug t⟩
  · exact ⟨t, Tenants.mem_update.2 (.inl ⟨ht, hid⟩), rfl⟩

/-- The statements that set no status. -/
def Stmt.quiet : Stmt → Bool
  | .insertProvisioning _ | .markStatus _ _ | .suspend _ _ => false
  | _ => true

/-- A quiet statement keeps every status and slug. -/
theorem exec_quiet (hq : q.quiet = true) (hx : exec q r s = some s') :
    (∀ id, s'.status id = s.status id) ∧
      ∀ slug, s.registered slug = true → s'.registered slug = true := by
  cases q with
  | insertProvisioning | markStatus | suspend => cases hq
  | findBySlug _ | findById _ =>
    simp only [exec] at hx
    split at hx
    · cases hx
      exact ⟨fun _ => rfl, fun _ h => h⟩
    · cases hx
  | recordVaultRoleId tenantId roleId =>
    cases hx
    refine ⟨fun id => ?_, fun _ => registered_update⟩
    rw [status_update (g := fun st => st) fun _ => rfl, Option.map_id']
    split
    · rfl
    · rfl
  | _ =>
    cases hx
    exact ⟨fun _ => rfl, fun _ h => h⟩

theorem status_suspend (actor : String) (id' : Uuid) : (s.suspend id actor).status id' =
    if id' = id then (s.status id').map fun _ => .suspended else s.status id' := by
  unfold Registry.suspend
  split
  · next hnone =>
    split
    · next heq =>
      subst heq
      rw [Registry.status, isNone_iff_eq_none.1 hnone]
      rfl
    · rfl
  · exact status_update (s := s) (f := Tenants.setStatus .suspended) (fun _ => rfl) id'

theorem registered_suspend {actor : String} (h : s.registered slug = true) :
    (s.suspend id actor).registered slug = true := by
  unfold Registry.suspend
  split
  · exact h
  · exact registered_update (s := s) h

/-- What a statement does to the status of a tenant. -/
theorem exec_status (hx : exec q r s = some s') (id : Uuid) :
    s'.status id = s.status id ∨
      (∃ st, q = .markStatus id st ∧ s'.status id = (s.status id).map fun _ => st) ∨
      (∃ actor, q = .suspend id actor ∧ s'.status id = (s.status id).map fun _ => .suspended) ∨
      ∃ t, q = .insertProvisioning t ∧ s.status id = none := by
  by_cases hq : q.quiet = true
  · exact .inl ((exec_quiet hq hx).1 id)
  cases q with
  | insertProvisioning t =>
    obtain ⟨ts, hi, rfl⟩ := map_eq_some_iff.1 hx
    obtain ⟨hne, hmem⟩ := Tenants.insert?_some hi
    cases hst : s.status id with
    | none => exact .inr (.inr (.inr ⟨t, rfl, rfl⟩))
    | some st =>
      refine .inl ?_
      obtain ⟨t0, hf, rfl⟩ := map_eq_some_iff.1 hst
      obtain ⟨ht0, rfl⟩ := find?_some hf
      exact status_of_mem (s := { s with tenants := ts }) ((hmem t0).2 (.inl ht0))
  | markStatus tenantId st =>
    simp only [exec] at hx
    split at hx
    · cases hx
      rw [status_update (g := fun _ => st) fun _ => rfl]
      split
      · next heq => exact .inr (.inl ⟨st, by rw [heq], rfl⟩)
      · exact .inl rfl
    · cases hx
  | suspend tenantId actor =>
    simp only [exec] at hx
    split at hx
    · cases hx
      rw [status_suspend]
      split
      · next heq => exact .inr (.inr (.inl ⟨actor, by rw [heq], rfl⟩))
      · exact .inl rfl
    · cases hx
  | _ => exact absurd rfl hq

/-- A tenant that is registered stays registered. -/
theorem exec_registered (hx : exec q r s = some s') (h : s.registered slug = true) :
    s'.registered slug = true := by
  by_cases hq : q.quiet = true
  · exact (exec_quiet hq hx).2 slug h
  cases q with
  | insertProvisioning t =>
    obtain ⟨ts, hi, rfl⟩ := map_eq_some_iff.1 hx
    obtain ⟨t0, ht0, hs⟩ := registered_iff.1 h
    exact registered_iff.2 ⟨t0, ((Tenants.insert?_some hi).2 t0).2 (.inl ht0), hs⟩
  | markStatus tenantId st =>
    simp only [exec] at hx
    split at hx
    · cases hx
      exact registered_update h
    · cases hx
  | suspend tenantId actor =>
    simp only [exec] at hx
    split at hx
    · cases hx
      exact registered_suspend h
    · cases hx
  | _ => exact absurd rfl hq

/-! ## What a call comes to -/

/-- The status that `provision_tenant` finds, or gives to the tenant it inserts. -/
def Registry.foundStatus (s : Registry) (slug : String) : TenantStatus :=
  ((s.tenants.findBySlug slug).map (·.status)).getD .provisioning

/-- What a call of `provision_tenant` from `s0` is at each statement: the one status it sets is
`active`, for a tenant that has the status found. -/
structure Provisions (inp : Inputs) (s0 : Registry) (q : Stmt) (s : Registry) : Prop where
  marks : ∀ id st, q = .markStatus id st →
    st = .active ∧ s.status id = some (s0.foundStatus inp.slug)
  suspends : ∀ id actor, q ≠ .suspend id actor

theorem Provisions.of_quiet (h : q.quiet = true) : Provisions inp s0 q s := by
  constructor
  · rintro id st rfl
    cases h
  · rintro id actor rfl
    cases h

theorem makes_provisionVault (mint : Bool) : Prog.Makes (fun q : Stmt => q.quiet = true)
    (fun r => r.2.isSome = mint) (provisionVault slug mint) := by
  have hmount : Prog.Makes (fun q : Stmt => q.quiet = true) (fun _ => True)
      (ensureTransitMount ("transit/" ++ slug)) := by
    refine (Prog.Makes.stmt (by rfl)).bind fun existing _ => ?_
    split
    · trivial
    · exact ⟨rfl, fun _ => trivial⟩
  refine hmount.bind fun _ _ => (Prog.Makes.stmt (by rfl)).bind fun _ _ =>
    (Prog.Makes.stmt (by rfl)).bind fun _ _ => (Prog.Makes.stmt (by rfl)).bind fun _ _ =>
    (Prog.Makes.stmt (by rfl)).bind fun roleId _ => ?_
  cases mint with
  | true => exact (Prog.Makes.stmt (by rfl)).bind fun _ _ => rfl
  | false => rfl

theorem makes_ensureDatabaseExists (name : String) : Prog.Makes (fun q : Stmt => q.quiet = true)
    (fun _ => True) (ensureDatabaseExists name) := by
  refine (Prog.Makes.stmt (by rfl)).bind fun found _ => ?_
  split
  · trivial
  · exact ⟨rfl, fun _ => trivial⟩

theorem makes_connectTenantPool (name : String) : Prog.Makes (fun q : Stmt => q.quiet = true)
    (fun _ => True) (connectTenantPool id name) := by
  refine (Prog.Makes.stmt (by rfl)).bind fun found _ => ?_
  cases found with
  | none => trivial
  | some tenant => exact ⟨rfl, fun _ => trivial⟩

theorem makes_destroyVault : Prog.Makes (fun q : Stmt => q.quiet = true) (fun _ => True)
    (destroyVault slug) :=
  (Prog.Makes.stmt (by rfl)).bind fun _ _ => (Prog.Makes.stmt (by rfl)).bind fun _ _ =>
    (Prog.Makes.stmt (by rfl)).bind fun _ _ => (Prog.Makes.stmt (by rfl)).bind fun _ _ =>
    ⟨rfl, fun _ => trivial⟩

/-- The tenant of a call under way has the status found, and its slug is registered. -/
structure Underway (inp : Inputs) (s0 : Registry) (id : Uuid) (s : Registry) : Prop where
  status : s.status id = some (s0.foundStatus inp.slug)
  registered : s.registered inp.slug = true

theorem Underway.quiet (h : Underway inp s0 id s) (hq : q.quiet = true)
    (hx : exec q r s = some s') : Underway inp s0 id s' :=
  ⟨((exec_quiet hq hx).1 id).trans h.status, (exec_quiet hq hx).2 _ h.registered⟩

/-- A part of the call that sets no status. -/
theorem Underway.always {α : Type} {p : Program α} {Q : α → Prop} (h : Underway inp s0 id s)
    (hp : Prog.Makes (fun q : Stmt => q.quiet = true) Q p) :
    Prog.Always exec (Provisions inp s0) True (fun a s' => Q a ∧ Underway inp s0 id s') p s :=
  hp.always (fun _ _ hq _ => .of_quiet hq) (fun _ _ _ _ hq hx hs => hs.quiet hq hx) h

/-- A tenant is new just if its slug was not registered. -/
theorem always_register (inp : Inputs) (s0 : Registry) :
    Prog.Always exec (Provisions inp s0) True
      (fun a s => Underway inp s0 a.1 s ∧ a.2 = !s0.registered inp.slug) (register inp) s0 := by
  refine .bind (P := fun found s => found = s0.tenants.findBySlug inp.slug ∧ s = s0)
    (.stmt (.of_quiet rfl) fun found s hx => ?_) fun found s h => ?_
  · simp only [exec] at hx
    split at hx
    · next hf => exact ⟨hf, (Option.some.inj hx).symm⟩
    · cases hx
  obtain ⟨hfound, rfl⟩ := h
  cases found with
  | some tenant =>
    dsimp only
    split
    · obtain ⟨hmem, hslug⟩ := findBySlug_some hfound.symm
      have hstatus : s.foundStatus inp.slug = tenant.status := by
        rw [Registry.foundStatus, ← hfound]
        rfl
      refine ⟨⟨?_, registered_iff.2 ⟨tenant, hmem, hslug⟩⟩, ?_⟩
      · rw [hstatus]
        exact status_of_mem hmem
      · rw [Registry.registered, ← hfound]
        rfl
    · exact .bind (P := fun _ _ => True)
        (.stmt (.of_quiet rfl) fun _ _ _ => trivial) fun _ _ _ => trivial
  | none =>
    refine .bind (P := fun _ s' => s' = s)
      (Prog.Always.stmt (.of_quiet rfl) fun _ s' hx => (Option.some.inj hx).symm) fun id s' h => ?_
    subst h
    refine .bind (P := fun _ s'' => s'' = s')
      (Prog.Always.stmt (.of_quiet rfl) fun _ s'' hx => (Option.some.inj hx).symm)
      fun webhookToken s'' h => ?_
    subst h
    refine .bind (P := fun _ s => Underway inp s'' id s)
      (.stmt ⟨nofun, nofun⟩ fun _ s hx => ?_) fun _ s h => ⟨h, ?_⟩
    · obtain ⟨ts, hi, rfl⟩ := map_eq_some_iff.1 hx
      have hmem := ((Tenants.insert?_some hi).2 _).2 (.inr rfl)
      refine ⟨?_, registered_iff.2 ⟨_, hmem, rfl⟩⟩
      rw [Registry.foundStatus, ← hfound]
      exact status_of_mem (s := { s'' with tenants := ts }) hmem
    · rw [Registry.registered, ← hfound]
      rfl

/-- A call of `provision_tenant` marks as active a tenant that has the status it found, and returns
a wrapped SecretID exactly when the slug was not registered. -/
theorem always_provisionTenant (inp : Inputs) (s0 : Registry) :
    Prog.Always exec (Provisions inp s0) True
      (fun outcome s => outcome.vaultWrappedSecretId.isSome = (!s0.registered inp.slug) ∧
        s.registered inp.slug = true) (provisionTenant inp) s0 := by
  refine (always_register inp s0).bind fun a s1 h1 => ?_
  obtain ⟨tenantId, created⟩ := a
  obtain ⟨hu, hcreated⟩ := h1
  refine (hu.always (makes_provisionVault created)).bind fun b s2 h2 => ?_
  obtain ⟨roleId, wrapped⟩ := b
  obtain ⟨hwrapped, hu⟩ := h2
  refine (hu.always (.stmt (by rfl))).bind fun _ s3 h3 => ?_
  refine (h3.2.always (makes_ensureDatabaseExists _)).bind fun _ s4 h4 => ?_
  refine (h4.2.always (makes_connectTenantPool _)).bind fun _ s5 h5 => ?_
  refine (h5.2.always (.stmt (by rfl))).bind fun _ s6 h6 => ?_
  refine (h6.2.always (.stmt (by rfl))).bind fun version s7 h7 => ?_
  refine (h7.2.always (.stmt (by rfl))).bind fun _ s8 h8 => ?_
  refine .bind (P := fun _ s => s.registered inp.slug = true)
    (.stmt ⟨fun id st hq => ?_, nofun⟩ fun _ s hx => exec_registered hx h8.2.registered)
    fun _ s9 h9 => ?_
  · cases hq
    exact ⟨rfl, h8.2.status⟩
  refine .bind (P := fun _ s => s.registered inp.slug = true)
    (.stmt (.of_quiet rfl) fun _ s hx => exec_registered hx h9) fun _ s h => ⟨?_, h⟩
  exact hwrapped.trans hcreated

/-- What a call of `destroy_tenant` is at each statement: the one status it sets is
`offboarding_destroy`. -/
structure Destroys (q : Stmt) : Prop where
  marks : ∀ id st, q = .markStatus id st → st = .offboardingDestroy
  suspends : ∀ id actor, q ≠ .suspend id actor

theorem Destroys.of_quiet (h : q.quiet = true) : Destroys q := by
  constructor
  · rintro id st rfl
    cases h
  · rintro id actor rfl
    cases h

theorem makes_destroyTenant (actor : String) :
    Prog.Makes Destroys (fun _ => True) (destroyTenant id actor) := by
  refine .bind (.stmt (.of_quiet rfl)) fun found _ => ?_
  cases found with
  | none => trivial
  | some tenant =>
    refine (makes_destroyVault.mono fun _ => .of_quiet).bind fun _ _ => ?_
    refine .bind (.stmt (.of_quiet rfl)) fun _ _ => ?_
    refine .bind (.stmt ⟨fun _ _ hq => ?_, nofun⟩) fun _ _ => ?_
    · cases hq
      rfl
    · exact ⟨.of_quiet rfl, fun _ => trivial⟩

end

end Messgr.Provision
