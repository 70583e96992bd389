import Messgr.Lib.Run
import Messgr.Producer.Steps

/-!
# A certificate stays with its tenant

`classify_registration` looks for a mapping of the certificate to another tenant, and the mapping is
written by a later statement, in another database than the row; the branch for a producer that is
there already writes it without looking. So two tenants can take a certificate from each other
(`cert_changes_tenant`). As long as a registration is made only for a certificate that is mapped, or
that no other tenant has a row of or is registering, its mapping never goes to another tenant
(`cert_keeps_tenant`). The invariant is that all that claims a certificate claims it for the same
tenant (`Isolated`).
-/

namespace Messgr.Registration

open List Option Bool

/-! ## Claims -/

/-- A tenant has a row with the certificate. -/
def Store.HasRow (s : Store) (X : String) (T : Uuid) : Prop :=
  ∃ p ∈ s.producer T, p.certSubject = X

/-- The tenant that a registration writes for with its next statement. -/
def RegisterPc.writes? : RegisterPc → Option Uuid
  | .insertIfAbsent T | .upsertProducerCert T _ => some T
  | _ => none

/-- The certificate and the tenant of a registration that may still write. -/
def Call.target? (s : Store) : Call → Option (String × Uuid)
  | .register _ x _ pc => (pc.tenant? s).map fun T => (x.certSubject, T)
  | .disable _ _ _ _ => none

/-- The certificate and the tenant of a registration that is about to write. -/
def Call.writes? : Call → Option (String × Uuid)
  | .register _ x _ pc => pc.writes?.map fun T => (x.certSubject, T)
  | .disable _ _ _ _ => none

/-- The tenant has a row with the certificate or is registering it. -/
def Present (w : World) (X : String) (T : Uuid) : Prop :=
  w.store.HasRow X T ∨ ∃ call ∈ w.calls, call.target? w.store = some (X, T)

/-- The certificate is mapped. -/
def Store.Mapped (s : Store) (X : String) : Prop := ∃ c ∈ s.producerCert, c.certSubject = X

/-- The tenant has a row with the certificate, is about to write one or a mapping, or is the one
that the certificate is mapped to. -/
def Claims (w : World) (X : String) (T : Uuid) : Prop :=
  w.store.HasRow X T ∨ (∃ call ∈ w.calls, call.writes? = some (X, T)) ∨
    ∃ c ∈ w.store.producerCert, c.certSubject = X ∧ c.tenantId = T

/-- No two tenants claim a certificate, and while it is not mapped, no two are at it. -/
structure Isolated (w : World) : Prop where
  placed : ∀ X T, Present w X T → w.store.tenant.Has T
  agree : ∀ X T T', Claims w X T → Claims w X T' → T = T'
  alone : ∀ X, ¬ w.store.Mapped X → ∀ T T', Present w X T → Present w X T' → T = T'

/-! ## Steps -/

section
variable {x : Inputs} {s s' : Store} {e : Event} {pc pc' : RegisterPc} {name : String} {X : String}
  {T : Uuid}
variable {c : ProducerCert}

theorem tenant?_of_writes? (h : pc.writes? = some T) : pc.tenant? s = some T := by
  cases pc <;> first | exact h | cases h

section
variable (h : RegisterStep x s e pc s' pc')
include h

/-- A registration stays with its tenant. -/
theorem RegisterStep.target (hT : pc'.tenant? s' = some T) : pc.tenant? s = some T := by
  cases h with
  | found ht =>
    cases hT
    exact congrArg (Option.map (·.id)) ht
  | connected | identical | unknown | free | lost => exact hT
  | inserted _ next =>
    rcases next with rfl | rfl
    · exact hT
    · cases hT
  | mapped _ next | recorded next => rcases next with rfl | rfl <;> cases hT
  | _ => cases hT

/-- A new row is one of a registration that was about to write it. -/
theorem RegisterStep.hasRow (hr : s'.HasRow X T) :
    s.HasRow X T ∨ X = x.certSubject ∧ pc.writes? = some T := by
  obtain ⟨p, hp, rfl⟩ := hr
  rcases h.row_new hp with hp | ⟨rfl, rfl⟩
  · exact .inl ⟨p, hp, rfl⟩
  · exact .inr ⟨rfl, rfl⟩

/-- So is a mapping to another tenant. -/
theorem RegisterStep.cert (hc : c ∈ s'.producerCert) :
    (∃ c0 ∈ s.producerCert, c0.certSubject = c.certSubject ∧ c0.tenantId = c.tenantId) ∨
      c.certSubject = x.certSubject ∧ pc.writes? = some c.tenantId := by
  rcases h.cert_new hc with hc | ⟨hX, result, rfl, -⟩
  · exact .inl ⟨c, hc, rfl, rfl⟩
  · exact .inr ⟨hX, rfl⟩

/-- A mapping stays, or is the registration's. -/
theorem RegisterStep.cert_kept (hc : c ∈ s.producerCert) :
    ∃ c' ∈ s'.producerCert, c'.certSubject = c.certSubject ∧
      (c'.tenantId = c.tenantId ∨
        c.certSubject = x.certSubject ∧ pc.writes? = some c'.tenantId) := by
  cases h with
  | @mapped T result _ _ done _ =>
    obtain ⟨-, -, -, enabled, -, hmem⟩ := upsertProducerCert_some done
    by_cases hX : c.certSubject = x.certSubject
    · exact ⟨_, (hmem _).2 (.inl rfl), hX.symm, .inr ⟨hX, rfl⟩⟩
    · exact ⟨c, (hmem c).2 (.inr ⟨hc, hX⟩), rfl, .inl rfl⟩
  | _ => exact ⟨c, hc, rfl, .inl rfl⟩

theorem RegisterStep.mapped_kept (hX : s.Mapped X) : s'.Mapped X := by
  obtain ⟨c, hc, rfl⟩ := hX
  obtain ⟨c', hc', hX, -⟩ := h.cert_kept hc
  exact ⟨c', hc', hX⟩

/-- A registration that comes to write has found its row, or no mapping to another tenant. -/
theorem RegisterStep.writes (hT : pc'.writes? = some T) :
    pc.writes? = some T ∨ s.HasRow x.certSubject T ∨
      pc.tenant? s = some T ∧
        ∀ c ∈ s.producerCert, c.certSubject = x.certSubject → c.tenantId = T := by
  cases h with
  | identical hp _ hm =>
    cases hT
    simp only [Inputs.matches, and_eq_true, decide_eq_true_eq] at hm
    exact .inr (.inl ⟨_, hp, hm.1.1⟩)
  | free certs =>
    cases hT
    exact .inr (.inr ⟨rfl, certs⟩)
  | inserted _ next =>
    rcases next with rfl | rfl
    · exact .inl hT
    · cases hT
  | mapped _ next | recorded next => rcases next with rfl | rfl <;> cases hT
  | _ => cases hT

end

variable {pc pc' : DisablePc} (h : DisableStep name s e pc s' pc')
include h

/-- Disabling changes no row's certificate and no mapping's tenant. -/
theorem DisableStep.hasRow (hr : s'.HasRow X T) : s.HasRow X T := by
  obtain ⟨p, hp, rfl⟩ := hr
  obtain ⟨q, hq, heq⟩ := (h.rows _).2 _ hp
  exact ⟨q, hq, by rw [heq]⟩

theorem DisableStep.cert (hc : c ∈ s'.producerCert) :
    ∃ c0 ∈ s.producerCert, c0.certSubject = c.certSubject ∧ c0.tenantId = c.tenantId := by
  obtain ⟨c0, hc0, heq⟩ := h.cert_new hc
  exact ⟨c0, hc0, by rw [heq], by rw [heq]⟩

theorem DisableStep.cert_kept (hc : c ∈ s.producerCert) :
    ∃ c' ∈ s'.producerCert, c'.certSubject = c.certSubject ∧ c'.tenantId = c.tenantId := by
  cases h with
  | @disabledCert T p _ _ =>
    by_cases hX : c.certSubject = p.certSubject
    · exact ⟨_, mem_setCertEnabled.2 (.inr ⟨c, hc, hX, rfl⟩), rfl, rfl⟩
    · exact ⟨c, mem_setCertEnabled.2 (.inl ⟨hc, hX⟩), rfl, rfl⟩
  | _ => exact ⟨c, hc, rfl, rfl⟩

theorem DisableStep.mapped_kept (hX : s.Mapped X) : s'.Mapped X := by
  obtain ⟨c, hc, rfl⟩ := hX
  obtain ⟨c', hc', hX, -⟩ := h.cert_kept hc
  exact ⟨c', hc', hX⟩

end

/-! ## The invariant -/

section
variable {w w' : World} {X : String} {T : Uuid} {s s' : Store}

/-- A registration that has found the certificate mapped to no other tenant. -/
def Free (w : World) (X : String) (T : Uuid) : Prop :=
  Present w X T ∧ ∀ c ∈ w.store.producerCert, c.certSubject = X → c.tenantId = T

theorem Claims.present (h : Claims w X T) (hm : ¬ w.store.Mapped X) : Present w X T := by
  rcases h with hr | ⟨call, hcall, hw⟩ | ⟨c, hc, hX, -⟩
  · exact .inl hr
  · refine .inr ⟨call, hcall, ?_⟩
    cases call with
    | register entry x actor pc =>
      obtain ⟨T', hT', heq⟩ := map_eq_some_iff.1 hw
      cases heq
      exact map_eq_some_iff.2 ⟨T, tenant?_of_writes? hT', rfl⟩
    | disable entry name actor pc => cases hw
  · exact absurd ⟨c, hc, hX⟩ hm

/-- What claims a certificate, and what may come to claim it, is of one tenant. -/
theorem Isolated.agree_free (h : Isolated w) {T' : Uuid} (hT : Claims w X T ∨ Free w X T)
    (hT' : Claims w X T' ∨ Free w X T') : T = T' := by
  by_cases hm : w.store.Mapped X
  · obtain ⟨c, hc, hX⟩ := hm
    have one : ∀ {U : Uuid}, Claims w X U ∨ Free w X U → U = c.tenantId := by
      rintro U (hU | hU)
      · exact h.agree X U _ hU (.inr (.inr ⟨c, hc, hX, rfl⟩))
      · exact (hU.2 c hc hX).symm
    exact (one hT).trans (one hT').symm
  · have one : ∀ {U : Uuid}, Claims w X U ∨ Free w X U → Present w X U := fun hU =>
      hU.elim (fun hU => hU.present hm) And.left
    exact h.alone X hm T T' (one hT) (one hT')

/-- A step after which nobody is at a certificate who was not before. -/
theorem Isolated.shrink (h : Isolated w) (hT : ∀ T, w.store.tenant.Has T → w'.store.tenant.Has T)
    (hP : ∀ X T, Present w' X T → Present w X T) (hM : ∀ X, w.store.Mapped X → w'.store.Mapped X)
    (hC : ∀ X T, Claims w' X T → Claims w X T ∨ Free w X T) : Isolated w' where
  placed X T hp := hT T (h.placed X T (hP X T hp))
  agree X T T' hc hc' := h.agree_free (hC X T hc) (hC X T' hc')
  alone X hm T T' hp hp' :=
    h.alone X (fun hm' => hm (hM X hm')) T T' (hP X T hp) (hP X T' hp')

/-- Who a call is for depends on the slugs alone. -/
theorem tenant?_congr (h : ∀ slug, s'.tenantId? slug = s.tenantId? slug) (pc : RegisterPc) :
    pc.tenant? s' = pc.tenant? s := by
  cases pc <;> simp only [RegisterPc.tenant?, h]

theorem target?_congr (h : ∀ slug, s'.tenantId? slug = s.tenantId? slug) (call : Call) :
    call.target? s' = call.target? s := by
  cases call with
  | register entry x actor pc => simp only [Call.target?, tenant?_congr h]
  | disable entry name actor pc => rfl

theorem target?_congr_tenant (h : s'.tenant = s.tenant) (call : Call) :
    call.target? s' = call.target? s :=
  target?_congr (fun slug => by rw [Store.tenantId?, h]; rfl) call

/-- A statement of a registration keeps tenants apart. -/
theorem Isolated.register {t : Nat} {e : Event} {entry : Entry} {x : Inputs} {actor : String}
    {pc pc' : RegisterPc} (h : Isolated w) (hcall : w.calls[t]? = some (.register entry x actor pc))
    (hs : RegisterStep x w.store e pc s' pc') :
    Isolated ⟨s', w.calls.set t (.register entry x actor pc')⟩ := by
  have hmem := mem_of_getElem? hcall
  have hwrites : ∀ {T}, pc.writes? = some T → Claims w x.certSubject T := fun hT =>
    .inr (.inl ⟨_, hmem, map_eq_some_iff.2 ⟨_, hT, rfl⟩⟩)
  have htarget : ∀ {T}, pc.tenant? w.store = some T → Present w x.certSubject T := fun hT =>
    .inr ⟨_, hmem, map_eq_some_iff.2 ⟨_, hT, rfl⟩⟩
  refine h.shrink (fun T hT => ?_) (fun X T hp => ?_) (fun X hm => ?_) fun X T hc => ?_
  · rw [hs.tenant_eq]
    exact hT
  · rcases hp with hr | ⟨call, hc, hcT⟩
    · rcases hs.hasRow hr with hr | ⟨rfl, hw⟩
      · exact .inl hr
      · exact htarget (tenant?_of_writes? hw)
    · rcases mem_or_eq_of_mem_set hc with hc | rfl
      · exact .inr ⟨call, hc, (target?_congr_tenant hs.tenant_eq call).symm.trans hcT⟩
      · obtain ⟨T', hT', heq⟩ := map_eq_some_iff.1 hcT
        cases heq
        exact htarget (hs.target hT')
  · exact hs.mapped_kept hm
  · rcases hc with hr | ⟨call, hc, hcT⟩ | ⟨c, hc, rfl, rfl⟩
    · rcases hs.hasRow hr with hr | ⟨rfl, hw⟩
      · exact .inl (.inl hr)
      · exact .inl (hwrites hw)
    · rcases mem_or_eq_of_mem_set hc with hc | rfl
      · exact .inl (.inr (.inl ⟨call, hc, hcT⟩))
      · obtain ⟨T', hT', heq⟩ := map_eq_some_iff.1 hcT
        cases heq
        rcases hs.writes hT' with hw | hr | ⟨hp, hfree⟩
        · exact .inl (hwrites hw)
        · exact .inl (.inl hr)
        · exact .inr ⟨htarget hp, hfree⟩
    · rcases hs.cert hc with ⟨c0, hc0, hX, hT⟩ | ⟨hX, hw⟩
      · exact .inl (.inr (.inr ⟨c0, hc0, hX, hT⟩))
      · rw [hX]
        exact .inl (hwrites hw)

/-- A statement of a `disable_producer` keeps tenants apart. -/
theorem Isolated.disable {t : Nat} {e : Event} {entry : Entry} {name actor : String}
    {pc' pc : DisablePc} (h : Isolated w) (hs : DisableStep name w.store e pc s' pc') :
    Isolated ⟨s', w.calls.set t (.disable entry name actor pc')⟩ := by
  refine h.shrink (fun T hT => ?_) (fun X T hp => ?_) (fun X hm => ?_) fun X T hc => .inl ?_
  · rw [hs.tenant_eq]
    exact hT
  · rcases hp with hr | ⟨call, hc, hcT⟩
    · exact .inl (hs.hasRow hr)
    · rcases mem_or_eq_of_mem_set hc with hc | rfl
      · exact .inr ⟨call, hc, (target?_congr_tenant hs.tenant_eq call).symm.trans hcT⟩
      · cases hcT
  · exact hs.mapped_kept hm
  · rcases hc with hr | ⟨call, hc, hcT⟩ | ⟨c, hc, rfl, rfl⟩
    · exact .inl (hs.hasRow hr)
    · rcases mem_or_eq_of_mem_set hc with hc | rfl
      · exact .inr (.inl ⟨call, hc, hcT⟩)
      · cases hcT
    · obtain ⟨c0, hc0, hX, hT⟩ := hs.cert hc
      exact .inr (.inr ⟨c0, hc0, hX, hT⟩)

theorem Isolated.status (h : Isolated w) (tenantId : Uuid) (status : TenantStatus) :
    Isolated ⟨w.store.setStatus tenantId status, w.calls⟩ := by
  refine h.shrink (fun T hT => TenantRows.has_setStatus.2 hT) (fun X T hp => ?_)
    (fun X hm => hm) fun X T hc => .inl hc
  refine hp.imp_right fun ⟨call, hc, hcT⟩ => ⟨call, hc, ?_⟩
  exact (target?_congr (tenantId?_setStatus tenantId status) call).symm.trans hcT

end

/-! ## Registrations apart -/

/-- No other tenant has a row with the certificate. -/
def Store.onlyIn (s : Store) (X : String) (T : Uuid) : Bool :=
  s.tenant.rows.all fun t => t.id = T || (s.producer t.id).rows.all (·.certSubject ≠ X)

/-- The condition: a registration is made for a certificate that is mapped, or that no other tenant
has a row of or is registering. -/
def registersApart (w : World) : Act → Bool
  | .register entry x _ => (w.store.producerCert.find? x.certSubject).isSome ||
      (entry.tenant? w.store).all fun T => w.store.onlyIn x.certSubject T &&
        w.calls.all fun call => (call.target? w.store).all fun u => u.1 ≠ x.certSubject || u.2 = T
  | _ => true

section
variable {w w' : World} {a : Act} {s : Store}

theorem has_of_tenantId? {slug : String} {T : Uuid} (h : s.tenantId? slug = some T) :
    s.tenant.Has T := by
  obtain ⟨t, ht, rfl⟩ := map_eq_some_iff.1 h
  exact ⟨t, mem_of_find?_eq_some ht, rfl⟩

/-- Where the condition lets an unmapped certificate be registered, its tenant is the only one at
it. -/
theorem Isolated.eq_of_present {entry : Entry} {x : Inputs} {actor : String} {T T' : Uuid}
    (h : Isolated w) (hm : ¬ w.store.Mapped x.certSubject)
    (hc : registersApart w (.register entry x actor) = true)
    (hT' : entry.tenant? w.store = some T') (hp : Present w x.certSubject T) : T = T' := by
  have hnone : w.store.producerCert.find? x.certSubject = none := by
    cases hf : w.store.producerCert.find? x.certSubject with
    | none => rfl
    | some c => exact absurd ⟨c, Table.find?_some hf⟩ hm
  rw [registersApart, hnone, hT', isSome_none, Bool.false_or, all_some,
    and_eq_true, Store.onlyIn, List.all_eq_true, List.all_eq_true] at hc
  rcases hp with ⟨p, hp, hX⟩ | ⟨call, hcall, hcT⟩
  · obtain ⟨t, ht, rfl⟩ := h.placed _ T (.inl ⟨p, hp, hX⟩)
    rcases or_eq_true_iff.1 (hc.1 t ht) with heq | hno
    · exact of_decide_eq_true heq
    · exact absurd hX (of_decide_eq_true (List.all_eq_true.1 hno p hp))
  · have := hc.2 call hcall
    rw [hcT, all_some, or_eq_true] at this
    exact of_decide_eq_true (this.resolve_left fun hne => of_decide_eq_true hne rfl)

/-- A registration that may begin keeps tenants apart. -/
theorem Isolated.registering {entry : Entry} {x : Inputs} {actor : String} (h : Isolated w)
    (ho : entry.opens w.store = true) (hc : registersApart w (.register entry x actor) = true) :
    Isolated ⟨w.store, w.calls ++ [.register entry x actor entry.registerPc]⟩ := by
  set call := Call.register entry x actor entry.registerPc with hcall
  have htarget : ∀ {X T}, call.target? w.store = some (X, T) →
      X = x.certSubject ∧ entry.tenant? w.store = some T := by
    intro X T hT
    obtain ⟨T', hT', heq⟩ := map_eq_some_iff.1 hT
    cases heq
    cases entry <;> exact ⟨rfl, hT'⟩
  have hpresent : ∀ {X T}, Present ⟨w.store, w.calls ++ [call]⟩ X T →
      Present w X T ∨ X = x.certSubject ∧ entry.tenant? w.store = some T := by
    rintro X T (hr | ⟨c, hmem, hcT⟩)
    · exact .inl (.inl hr)
    · rcases mem_append.1 hmem with hmem | hmem
      · exact .inl (.inr ⟨c, hmem, hcT⟩)
      · rw [mem_singleton.1 hmem] at hcT
        exact .inr (htarget hcT)
  refine ⟨fun X T hp => ?_, fun X T T' hT hT' => ?_, fun X hm T T' hp hp' => ?_⟩
  · rcases hpresent hp with hp | ⟨-, hT⟩
    · exact h.placed X T hp
    · cases entry with
      | bySlug slug => exact has_of_tenantId? hT
      | byTenant T' => cases hT; exact of_decide_eq_true ho
  · have hold : ∀ {U}, Claims ⟨w.store, w.calls ++ [call]⟩ X U → Claims w X U := by
      rintro U (hr | ⟨c, hmem, hcT⟩ | hcert)
      · exact .inl hr
      · rcases mem_append.1 hmem with hmem | hmem
        · exact .inr (.inl ⟨c, hmem, hcT⟩)
        · rw [mem_singleton.1 hmem, hcall] at hcT
          cases entry <;> cases hcT
      · exact .inr (.inr hcert)
    exact h.agree X T T' (hold hT) (hold hT')
  · rcases hpresent hp with hp | ⟨rfl, hT⟩ <;> rcases hpresent hp' with hp' | ⟨hX, hT'⟩
    · exact h.alone X hm T T' hp hp'
    · subst hX
      exact h.eq_of_present hm hc hT' hp
    · exact (h.eq_of_present hm hc hT hp').symm
    · exact Option.some.inj (hT.symm.trans hT')

theorem Isolated.disabling {entry : Entry} {name actor : String} {pc : DisablePc}
    (h : Isolated w) : Isolated ⟨w.store, w.calls ++ [.disable entry name actor pc]⟩ := by
  refine h.shrink (fun _ hT => hT) (fun X T hp => ?_) (fun _ hm => hm) fun X T hc => .inl ?_
  · refine hp.imp_right fun ⟨call, hmem, hcT⟩ => ⟨call, ?_, hcT⟩
    refine (mem_append.1 hmem).resolve_right fun hmem => ?_
    rw [mem_singleton.1 hmem] at hcT
    cases hcT
  · refine hc.imp_right fun hc => hc.imp_left fun ⟨call, hmem, hcT⟩ => ⟨call, ?_, hcT⟩
    refine (mem_append.1 hmem).resolve_right fun hmem => ?_
    rw [mem_singleton.1 hmem] at hcT
    cases hcT

theorem Isolated.step (h : Isolated w) (hc : registersApart w a = true)
    (hs : w.step a = some w') : Isolated w' := by
  cases worldStep_of_step hs with
  | registering ho => exact h.registering ho hc
  | disabling => exact h.disabling
  | register hcall hstep => exact h.register hcall hstep
  | disable _ hstep => exact h.disable hstep
  | status tenantId status => exact h.status tenantId status

/-- A mapping stays with its tenant in a step. -/
theorem Isolated.cert_kept (h : Isolated w) (hs : w.step a = some w') {c : ProducerCert}
    (hc : c ∈ w.store.producerCert) :
    ∃ c' ∈ w'.store.producerCert, c'.certSubject = c.certSubject ∧ c'.tenantId = c.tenantId := by
  cases worldStep_of_step hs with
  | register hcall hstep =>
    obtain ⟨c', hc', hX, hT | ⟨hx, hw⟩⟩ := hstep.cert_kept hc
    · exact ⟨c', hc', hX, hT⟩
    · refine ⟨c', hc', hX, h.agree c.certSubject _ _
        (.inr (.inl ⟨_, mem_of_getElem? hcall, ?_⟩)) (.inr (.inr ⟨c, hc, rfl, rfl⟩))⟩
      rw [hx]
      exact map_eq_some_iff.2 ⟨_, hw, rfl⟩
  | disable _ hstep => exact hstep.cert_kept hc
  | _ => exact ⟨c, hc, rfl, rfl⟩

end

/-- The databases before any call: rows are those of tenants, and no two tenants have a row or a
mapping of one certificate. -/
structure Store.Consistent (s : Store) : Prop where
  placed : ∀ X T, s.HasRow X T → s.tenant.Has T
  rows : ∀ X T T', s.HasRow X T → s.HasRow X T' → T = T'
  mapped : ∀ c ∈ s.producerCert, ∀ T, s.HasRow c.certSubject T → T = c.tenantId

/-- Consistent databases keep tenants apart. -/
theorem isolated_start {s : Store} (h : s.Consistent) : Isolated ⟨s, []⟩ := by
  have hpresent : ∀ {X T}, Present ⟨s, []⟩ X T → s.HasRow X T := by
    rintro X T (hr | ⟨_, hmem, -⟩)
    · exact hr
    · cases hmem
  refine ⟨fun X T hp => h.placed X T (hpresent hp), fun X T T' hT hT' => ?_,
    fun X _ T T' hp hp' => h.rows X T T' (hpresent hp) (hpresent hp')⟩
  rcases hT with hr | ⟨_, hmem, -⟩ | ⟨c, hc, hX, rfl⟩
  · rcases hT' with hr' | ⟨_, hmem, -⟩ | ⟨c', hc', rfl, rfl⟩
    · exact h.rows X T T' hr hr'
    · cases hmem
    · exact h.mapped c' hc' T hr
  · cases hmem
  · rcases hT' with hr' | ⟨_, hmem, -⟩ | ⟨c', hc', hX', rfl⟩
    · exact (h.mapped c hc T' (hX ▸ hr')).symm
    · cases hmem
    · rw [Table.eq_of_key hc hc' (hX.trans hX'.symm)]

/-- In every run from consistent databases in which registrations are apart, with calls that fail or
stop at any statement and are made again, a certificate that is mapped to a tenant in one state is
mapped to it in every later one, and is resolved into no other tenant. -/
theorem cert_keeps_tenant {s : Store} (h0 : s.Consistent) {as bs : List Act} {w w' : World}
    (h1 : Run.Steps World.step (registersApart · ·) ⟨s, []⟩ as w)
    (h2 : Run.Steps World.step (registersApart · ·) w bs w') {c : ProducerCert}
    (hc : c ∈ w.store.producerCert) :
    (∃ c' ∈ w'.store.producerCert, c'.certSubject = c.certSubject ∧ c'.tenantId = c.tenantId) ∧
      ∀ identity, resolveProducer w'.store c.certSubject = .ok identity →
        identity.tenantId = c.tenantId := by
  have hiso : Isolated w := h1.inv (fun _ _ _ hC hs h => h.step hC hs) (isolated_start h0)
  obtain ⟨-, c', hc', hX, hT⟩ := h2.inv
    (I := fun w => Isolated w ∧ ∃ c' ∈ w.store.producerCert,
      c'.certSubject = c.certSubject ∧ c'.tenantId = c.tenantId)
    (fun v a v' hC hs ⟨hi, c1, hc1, hX, hT⟩ => by
      obtain ⟨c2, hc2, hX2, hT2⟩ := hi.cert_kept hs hc1
      exact ⟨hi.step hC hs, c2, hc2, hX2.trans hX, hT2.trans hT⟩)
    ⟨hiso, c, hc, rfl, rfl⟩
  refine ⟨⟨c', hc', hX, hT⟩, fun identity hr => ?_⟩
  obtain ⟨c2, hc2, hX2, -, rfl⟩ := resolveProducer_ok hr
  rw [Table.eq_of_key hc2 hc' (hX2.trans hX.symm)]
  exact hT

/-! ### Runs on fixed inputs -/

/-- Two tenants that are active, without producers. -/
def twoTenants : Store where
  tenant := ⟨[⟨⟨1⟩, "one", .active⟩, ⟨⟨2⟩, "two", .active⟩], by decide, by decide⟩
  producerCert := ∅
  platformAudit := []
  producer := fun _ => .empty
  references := fun c hc => absurd hc (Table.not_mem_empty c)

theorem twoTenants_consistent : twoTenants.Consistent := by
  have hno : ∀ X T, ¬ twoTenants.HasRow X T := fun X T ⟨p, hp, _⟩ => not_mem_nil hp
  exact ⟨fun X T hr => absurd hr (hno X T), fun X T _ hr => absurd hr (hno X T),
    fun c _ T hr => absurd hr (hno c.certSubject T)⟩

/-- The inputs of a producer. -/
def Inputs.sample : Inputs := ⟨"fraud", "CN=fraud", "team", "contact"⟩

/-- The first tenant registers it, and then so does the second. -/
def registeredThenRejected : List Act :=
  [.register (.bySlug "one") .sample "actor", .step 0 {}, .step 0 {}, .step 0 {}, .step 0 {},
   .step 0 { newId := ⟨10⟩ }, .step 0 {}, .step 0 {}]

def rejectedLater : List Act :=
  [.register (.byTenant ⟨2⟩) .sample "actor", .step 1 {}, .step 1 {}, .step 1 {}]

/-- The second is rejected. -/
theorem cert_keeps_tenant_registeredThenRejected :
    ∃ w w', Run.Steps World.step (registersApart · ·) ⟨twoTenants, []⟩ registeredThenRejected w ∧
      Run.Steps World.step (registersApart · ·) w rejectedLater w' ∧
      ∃ c' ∈ w'.store.producerCert, c'.certSubject = "CN=fraud" ∧ c'.tenantId = ⟨1⟩ := by
  obtain ⟨w, hw, hp⟩ := Run.Steps.exists_of_checked World.step registersApart ⟨twoTenants, []⟩
    registeredThenRejected
    (fun w => w.store.producerCert.rows = [⟨"CN=fraud", ⟨1⟩, ⟨10⟩, true⟩] &&
      (Run.exec (fun s a => if registersApart s a then World.step s a else none) w
        rejectedLater).isSome) (by decide +kernel)
  rw [Bool.and_eq_true, decide_eq_true_eq] at hp
  obtain ⟨w', hw', -⟩ := Run.Steps.exists_of_checked World.step registersApart w rejectedLater
    (fun _ => true) (by
      obtain ⟨v, hv⟩ := Option.isSome_iff_exists.1 hp.2
      rw [hv]
      rfl)
  have hc : ⟨"CN=fraud", ⟨1⟩, ⟨10⟩, true⟩ ∈ w.store.producerCert := by
    rw [Table.mem_def, hp.1]
    exact .head _
  exact ⟨w, w', hw, hw', (cert_keeps_tenant twoTenants_consistent hw hw' hc).1⟩

/-- The first tenant's registration inserts its row and stops. -/
def insertedOnly : List Act :=
  [.register (.bySlug "one") .sample "actor", .step 0 {}, .step 0 {}, .step 0 {}, .step 0 {},
   .step 0 { newId := ⟨10⟩ }, .step 0 { reply := .failed }]

/-- The second tenant registers the certificate. -/
def registeredByTwo : List Act :=
  [.register (.bySlug "two") .sample "actor", .step 1 {}, .step 1 {}, .step 1 {}, .step 1 {},
   .step 1 { newId := ⟨20⟩ }, .step 1 {}, .step 1 {}]

/-- The first tenant's registration is made again. -/
def registeredAgain : List Act :=
  [.register (.bySlug "one") .sample "actor", .step 2 {}, .step 2 {}, .step 2 {}, .step 2 {}]

/-- The certificate is mapped to the second tenant, and then to the first. -/
theorem cert_changes_tenant :
    ∃ w w', Run.Steps World.step Run.Any ⟨twoTenants, []⟩ (insertedOnly ++ registeredByTwo) w ∧
      Run.Steps World.step Run.Any w registeredAgain w' ∧
      resolveProducer w.store "CN=fraud" = .ok ⟨⟨2⟩, ⟨20⟩⟩ ∧
      resolveProducer w'.store "CN=fraud" = .ok ⟨⟨1⟩, ⟨10⟩⟩ := by
  obtain ⟨w, hw, hp⟩ := Run.Steps.exists_of_exec World.step ⟨twoTenants, []⟩
    (insertedOnly ++ registeredByTwo)
    (fun w => resolveProducer w.store "CN=fraud" = .ok ⟨⟨2⟩, ⟨20⟩⟩ &&
      (Run.exec World.step w registeredAgain).any fun w' =>
        resolveProducer w'.store "CN=fraud" = .ok ⟨⟨1⟩, ⟨10⟩⟩) (by decide +kernel)
  rw [Bool.and_eq_true, decide_eq_true_eq] at hp
  obtain ⟨w', hw', hp'⟩ := Run.Steps.exists_of_exec World.step w registeredAgain _ hp.2
  exact ⟨w, w', hw, hw', hp.1, of_decide_eq_true hp'⟩

end Messgr.Registration
