import Messgr.Producer.Register

/-!
# What the statements of producer calls do

`RegisterStep` and `DisableStep` list what a statement of a call finds and does, once for all later
proofs: `registerStep_of_exec`, `disableStep_of_exec`.
-/

namespace Messgr

open List Option Table

/-! ## The tables -/

namespace ProducerTable

variable {t t' : ProducerTable} {p q : Producer} {certSubject : String}

theorem eq_of_name (hp : p ∈ t) (hq : q ∈ t) (h : p.name = q.name) : p = q :=
  inj_on_of_nodup_map t.names hp hq h

theorem findByName_some {name : String} (h : t.findByName name = some p) : p ∈ t ∧ p.name = name :=
  ⟨mem_of_find?_eq_some h, by simpa using find?_some h⟩

theorem findByName_none {name : String} (h : t.findByName name = none) (hp : p ∈ t) :
    p.name ≠ name := by
  simpa using find?_eq_none.1 h p hp

theorem findByCertSubject_some (h : t.findByCertSubject certSubject = some p) :
    p ∈ t ∧ p.certSubject = certSubject :=
  ⟨mem_of_find?_eq_some h, by simpa using find?_some h⟩

theorem findByCertSubject_none (h : t.findByCertSubject certSubject = none) (hp : p ∈ t) :
    p.certSubject ≠ certSubject := by
  simpa using find?_eq_none.1 h p hp

/-- A row is inserted if its name and certificate are new. -/
theorem insertIfAbsent_some (h : t.insertIfAbsent p = some t') :
    (∀ q ∈ t, q.name ≠ p.name ∧ q.certSubject ≠ p.certSubject) ∧ ∀ q, q ∈ t' ↔ q ∈ t ∨ q = p := by
  unfold insertIfAbsent at h
  split at h
  · next hfree =>
    cases h
    refine ⟨fun q hq => ⟨fun hn => hfree.2.1 ?_, fun hc => hfree.2.2 ?_⟩, fun q => ?_⟩
    · exact hn ▸ mem_map_of_mem hq
    · exact hc ▸ mem_map_of_mem hq
    · show q ∈ t.rows ++ [p] ↔ _
      rw [mem_append, mem_singleton]
      rfl
  · cases h

/-- A row is refused for one with its id, name or certificate. -/
theorem insertIfAbsent_none (h : t.insertIfAbsent p = none) :
    ∃ q ∈ t, q.id = p.id ∨ q.name = p.name ∨ q.certSubject = p.certSubject := by
  unfold insertIfAbsent at h
  split at h
  · cases h
  · next hclash =>
    refine of_not_not fun hno => hclash ⟨fun hm => ?_, fun hm => ?_, fun hm => ?_⟩
    · obtain ⟨q, hq, heq⟩ := mem_map.1 hm
      exact hno ⟨q, hq, .inl heq⟩
    · obtain ⟨q, hq, heq⟩ := mem_map.1 hm
      exact hno ⟨q, hq, .inr (.inl heq)⟩
    · obtain ⟨q, hq, heq⟩ := mem_map.1 hm
      exact hno ⟨q, hq, .inr (.inr heq)⟩

/-- Disabling a row changes nothing else. -/
theorem mem_setEnabled {id : Uuid} {enabled : Bool} (h : q ∈ t.setEnabled id enabled) :
    ∃ p ∈ t, q = { p with enabled := q.enabled } := by
  obtain ⟨p, hp, rfl⟩ := mem_map.1 h
  refine ⟨p, hp, ?_⟩
  split <;> rfl

theorem exists_setEnabled (hp : p ∈ t) (id : Uuid) (enabled : Bool) :
    ∃ q ∈ t.setEnabled id enabled, p = { q with enabled := p.enabled } := by
  refine ⟨_, mem_map_of_mem hp, ?_⟩
  split <;> rfl

end ProducerTable

namespace Registration

section
variable {s s' : Store} {X : String} {T : Uuid} {c : ProducerCert}

@[simp] theorem producer_withProducer_self {t : ProducerTable} :
    (s.withProducer T t).producer T = t := Function.update_self _ _ _

theorem producer_withProducer_of_ne {T' : Uuid} {t : ProducerTable} (h : T' ≠ T) :
    (s.withProducer T t).producer T' = s.producer T' := Function.update_of_ne h _ _

/-- An upsert changes the one mapping, which stays enabled or disabled. -/
theorem upsertProducerCert_some {producerId : Uuid}
    (h : s.upsertProducerCert X T producerId = some s') :
    s.tenant.Has T ∧ s'.tenant = s.tenant ∧ s'.producer = s.producer ∧
    ∃ enabled, (∀ c ∈ s.producerCert, c.certSubject = X → enabled = c.enabled) ∧
      ∀ c, c ∈ s'.producerCert ↔
        c = ⟨X, T, producerId, enabled⟩ ∨ c ∈ s.producerCert ∧ c.certSubject ≠ X := by
  unfold Store.upsertProducerCert at h
  split at h
  · next hT =>
    cases h
    refine ⟨hT, rfl, rfl, _, fun c hc hX => ?_, fun c => mem_upsert⟩
    rw [← hX, find?_of_mem hc]
    rfl
  · cases h

theorem mem_setCertEnabled {enabled : Bool} :
    c ∈ (s.setCertEnabled X enabled).producerCert ↔
      (c ∈ s.producerCert ∧ c.certSubject ≠ X) ∨
      ∃ c0 ∈ s.producerCert, c0.certSubject = X ∧ c = { c0 with enabled := enabled } := by
  simp only [Store.setCertEnabled, mem_update, decide_eq_true_eq, decide_eq_false_iff_not, ne_eq]

/-- The mapping of a certificate is found with its tenant. -/
theorem findProducerCert_of_mem (hc : c ∈ s.producerCert) :
    ∃ status, s.findProducerCert c.certSubject = some (c, status) := by
  obtain ⟨t, ht, hid⟩ := s.references c hc
  cases hf : s.tenant.findById c.tenantId with
  | none => exact absurd hid (by simpa using find?_eq_none.1 hf t ht)
  | some t' => exact ⟨t'.status, by simp [Store.findProducerCert, find?_of_mem hc, hf]⟩

theorem findProducerCert_some {status : TenantStatus}
    (h : s.findProducerCert X = some (c, status)) : c ∈ s.producerCert ∧ c.certSubject = X := by
  obtain ⟨c', hc', h⟩ := bind_eq_some_iff.1 h
  obtain ⟨t, -, ht⟩ := map_eq_some_iff.1 h
  cases ht
  exact find?_some hc'

/-- Only an enabled mapping is resolved. -/
theorem resolveProducer_ok {identity : ResolvedIdentity} (h : resolveProducer s X = .ok identity) :
    ∃ c ∈ s.producerCert, c.certSubject = X ∧ c.enabled = true ∧
      identity = ⟨c.tenantId, c.producerId⟩ := by
  unfold resolveProducer at h
  split at h
  · cases h
  · next cert status hf =>
    obtain ⟨hc, hX⟩ := findProducerCert_some hf
    cases he : cert.enabled with
    | false => simp [he] at h
    | true =>
      simp only [he, Bool.not_true, Bool.false_eq_true, if_false] at h
      split at h
      · cases h
      · cases h
        exact ⟨cert, hc, hX, he, rfl⟩

end

/-! ## Registration -/

/-- What a statement of a registration finds, does and leads to. -/
inductive RegisterStep (x : Inputs) (s : Store) (e : Event) :
    RegisterPc → Store → RegisterPc → Prop
  | failed {pc : RegisterPc} : RegisterStep x s e pc s .failed
  | noTenant {slug : String} (missing : s.tenant.findBySlug slug = none) :
      RegisterStep x s e (.findBySlug slug) s (.rejected none (.noTenant slug))
  | found {slug : String} {t : TenantRow} (found : s.tenant.findBySlug slug = some t) :
      RegisterStep x s e (.findBySlug slug) s (.connect t.id)
  | connected {T : Uuid} : RegisterStep x s e (.connect T) s (.classify T false)
  | identical {T : Uuid} {retry : Bool} {p : Producer} (row : p ∈ s.producer T)
      (name : p.name = x.name) (inputs : x.matches p = true) :
      RegisterStep x s e (.classify T retry) s (.upsertProducerCert T ⟨p.id, .idempotent⟩)
  | differs {T : Uuid} {retry : Bool} {p : Producer} (row : p ∈ s.producer T)
      (name : p.name = x.name) (inputs : x.matches p = false) :
      RegisterStep x s e (.classify T retry) s (.rejected T (.differentInputs x.name p))
  | bound {T : Uuid} {retry : Bool} {p : Producer} (row : p ∈ s.producer T)
      (subject : p.certSubject = x.certSubject) (names : ∀ q ∈ s.producer T, q.name ≠ x.name) :
      RegisterStep x s e (.classify T retry) s (.rejected T (.boundInTenant x.certSubject p.name))
  | unknown {T : Uuid} {retry : Bool}
      (rows : ∀ q ∈ s.producer T, q.name ≠ x.name ∧ q.certSubject ≠ x.certSubject) :
      RegisterStep x s e (.classify T retry) s (.findProducerCert T retry)
  | boundElsewhere {T : Uuid} {retry : Bool} {c : ProducerCert} (cert : c ∈ s.producerCert)
      (subject : c.certSubject = x.certSubject) (other : c.tenantId ≠ T) :
      RegisterStep x s e (.findProducerCert T retry) s
        (.rejected T (.boundToOtherTenant x.certSubject))
  | winnerNotFound {T : Uuid} :
      RegisterStep x s e (.findProducerCert T true) s
        (.rejected T (.winnerNotFound x.name x.certSubject))
  | free {T : Uuid}
      (certs : ∀ c ∈ s.producerCert, c.certSubject = x.certSubject → c.tenantId = T) :
      RegisterStep x s e (.findProducerCert T false) s (.insertIfAbsent T)
  | inserted {T : Uuid} {t : ProducerTable} {pc' : RegisterPc}
      (done : (s.producer T).insertIfAbsent (x.row e.newId e.now) = some t)
      (next : pc' = .upsertProducerCert T ⟨e.newId, .created⟩ ∨ pc' = .failed) :
      RegisterStep x s e (.insertIfAbsent T) (s.withProducer T t) pc'
  | lost {T : Uuid} {q : Producer} (row : q ∈ s.producer T)
      (clash : q.id = e.newId ∨ q.name = x.name ∨ q.certSubject = x.certSubject) :
      RegisterStep x s e (.insertIfAbsent T) s (.classify T true)
  | mapped {T : Uuid} {result : RegisterOutcome} {s' : Store} {pc' : RegisterPc}
      (done : s.upsertProducerCert x.certSubject T result.producerId = some s')
      (next : pc' = .audit T (.ok result) ∨ pc' = .failed) :
      RegisterStep x s e (.upsertProducerCert T result) s' pc'
  | recorded {tenantId : Option Uuid} {result : Except Rejection RegisterOutcome} {r : AuditRecord}
      {pc' : RegisterPc} (next : pc' = .ended (result.mapError .rejected) ∨ pc' = .failed) :
      RegisterStep x s e (.audit tenantId result) (s.record r) pc'

section
variable {Pc : Type} {s s1 s' : Store} {reply : Reply} {next failed pc' : Pc}

theorem read_eq (h : read s reply next failed = (s', pc')) :
    s' = s ∧ (pc' = next ∨ pc' = failed) := by
  cases reply with
  | ok => cases h; exact ⟨rfl, .inl rfl⟩
  | _ => cases h; exact ⟨rfl, .inr rfl⟩

theorem write_eq (h : write s s1 reply next failed = (s', pc')) :
    (s' = s ∧ pc' = failed) ∨ (s' = s1 ∧ (reply = .ok ∧ pc' = next ∨ pc' = failed)) := by
  cases reply with
  | ok => cases h; exact .inr ⟨rfl, .inl ⟨rfl, rfl⟩⟩
  | failed => cases h; exact .inl ⟨rfl, rfl⟩
  | lost => cases h; exact .inr ⟨rfl, .inr rfl⟩

end

section
variable {x : Inputs} {actor : String} {s s' : Store} {e : Event} {pc pc' : RegisterPc}

/-- A read that leads on, or fails. -/
theorem registerStep_of_read {next : RegisterPc} (hn : RegisterStep x s e pc s next)
    (h : read s e.reply next .failed = (s', pc')) : RegisterStep x s e pc s' pc' := by
  obtain ⟨rfl, rfl | rfl⟩ := read_eq h
  · exact hn
  · exact .failed

theorem registerStep_classify (T : Uuid) (retry : Bool) :
    RegisterStep x s e (.classify T retry) s (classifyRegistration x s T retry) := by
  unfold classifyRegistration
  split
  · next existing hn =>
    obtain ⟨hp, hname⟩ := ProducerTable.findByName_some hn
    cases hm : x.matches existing with
    | true => exact .identical hp hname hm
    | false => exact .differs hp hname hm
  · next hn =>
    split
    · next other hc =>
      obtain ⟨hp, hcert⟩ := ProducerTable.findByCertSubject_some hc
      exact .bound hp hcert fun q hq => ProducerTable.findByName_none hn hq
    · next hc =>
      exact .unknown fun q hq =>
        ⟨ProducerTable.findByName_none hn hq, ProducerTable.findByCertSubject_none hc hq⟩

theorem registerStep_findProducerCert (T : Uuid) (retry : Bool) :
    RegisterStep x s e (.findProducerCert T retry) s (classifyCert x s T retry) := by
  unfold classifyCert
  split
  · next hany =>
    obtain ⟨⟨c, status⟩, hf, hne⟩ := (Option.any_eq_true _ _).1 hany
    obtain ⟨hc, hX⟩ := findProducerCert_some hf
    exact .boundElsewhere hc hX (of_decide_eq_true hne)
  · next hany =>
    cases retry with
    | true => exact .winnerNotFound
    | false =>
      refine .free fun c hc hX => of_not_not fun hne => hany ?_
      obtain ⟨status, hf⟩ := findProducerCert_of_mem hc
      rw [← hX, hf]
      exact decide_eq_true hne

/-- Every statement of a registration is one of these. -/
theorem registerStep_of_exec (h : pc.exec x actor s e = some (s', pc')) :
    RegisterStep x s e pc s' pc' := by
  cases pc with
  | findBySlug slug =>
    refine registerStep_of_read ?_ (Option.some.inj h)
    split
    · next ht => exact .found ht
    · next ht => exact .noTenant ht
  | connect T => exact registerStep_of_read .connected (Option.some.inj h)
  | classify T retry =>
    exact registerStep_of_read (registerStep_classify T retry) (Option.some.inj h)
  | findProducerCert T retry =>
    exact registerStep_of_read (registerStep_findProducerCert T retry) (Option.some.inj h)
  | insertIfAbsent T =>
    simp only [RegisterPc.exec] at h
    split at h
    · next t hi =>
      rcases write_eq (Option.some.inj h) with ⟨rfl, rfl⟩ | ⟨rfl, hn⟩
      · exact .failed
      · exact .inserted hi (hn.imp_left And.right)
    · next hi =>
      obtain ⟨q, hq, hclash⟩ := ProducerTable.insertIfAbsent_none hi
      exact registerStep_of_read (.lost hq hclash) (Option.some.inj h)
  | upsertProducerCert T result =>
    simp only [RegisterPc.exec] at h
    split at h
    · next s1 hs1 =>
      rcases write_eq (Option.some.inj h) with ⟨rfl, rfl⟩ | ⟨rfl, hn⟩
      · exact .failed
      · exact .mapped hs1 (hn.imp_left And.right)
    · cases h
      exact .failed
  | audit tenantId result =>
    rcases write_eq (Option.some.inj h) with ⟨rfl, rfl⟩ | ⟨rfl, hn⟩
    · exact .failed
    · exact .recorded (hn.imp_left And.right)
  | ended result => cases h

end

/-! ## Disabling -/

/-- What a statement of a `disable_producer` finds, does and leads to. -/
inductive DisableStep (name : String) (s : Store) (e : Event) :
    DisablePc → Store → DisablePc → Prop
  | failed {pc : DisablePc} : DisableStep name s e pc s .failed
  | noTenant {slug : String} :
      DisableStep name s e (.findBySlug slug) s (.audit none none (.error (.noTenant slug)))
  | found {slug : String} {t : TenantRow} (found : s.tenant.findBySlug slug = some t) :
      DisableStep name s e (.findBySlug slug) s (.connect t.id)
  | connected {T : Uuid} : DisableStep name s e (.connect T) s (.findByName T)
  | noProducer {T : Uuid} :
      DisableStep name s e (.findByName T) s (.audit T none (.error (.noProducer name)))
  | foundRow {T : Uuid} {p : Producer} (row : p ∈ s.producer T) (hname : p.name = name) :
      DisableStep name s e (.findByName T) s (.setCertEnabled T p)
  | disabledCert {T : Uuid} {p : Producer} {pc' : DisablePc}
      (next : e.reply = .ok ∧ (pc' = .setEnabled T p ∨ pc' = .audit T p (.ok .idempotent)) ∨
        pc' = .failed) :
      DisableStep name s e (.setCertEnabled T p) (s.setCertEnabled p.certSubject false) pc'
  | disabledRow {T : Uuid} {p : Producer} {pc' : DisablePc}
      (next : pc' = .audit T p (.ok .disabled) ∨ pc' = .failed) :
      DisableStep name s e (.setEnabled T p)
        (s.withProducer T ((s.producer T).setEnabled p.id false)) pc'
  | recorded {tenantId : Option Uuid} {existing : Option Producer}
      {result : Except Rejection Outcome} {r : AuditRecord} {pc' : DisablePc}
      (next : pc' = .ended (result.mapError .rejected) ∨ pc' = .failed) :
      DisableStep name s e (.audit tenantId existing result) (s.record r) pc'

section
variable {name actor : String} {s s' : Store} {e : Event} {pc pc' : DisablePc}

/-- Every statement of a `disable_producer` is one of these. -/
theorem disableStep_of_exec (h : pc.exec name actor s e = some (s', pc')) :
    DisableStep name s e pc s' pc' := by
  have hread : ∀ {next : DisablePc}, DisableStep name s e pc s next →
      read s e.reply next .failed = (s', pc') → DisableStep name s e pc s' pc' := by
    intro next hn hr
    obtain ⟨rfl, rfl | rfl⟩ := read_eq hr
    · exact hn
    · exact .failed
  cases pc with
  | findBySlug slug =>
    refine hread ?_ (Option.some.inj h)
    split
    · next ht => exact .found ht
    · exact .noTenant
  | connect T => exact hread .connected (Option.some.inj h)
  | findByName T =>
    refine hread ?_ (Option.some.inj h)
    split
    · next p hp =>
      obtain ⟨hmem, hname⟩ := ProducerTable.findByName_some hp
      exact .foundRow hmem hname
    · exact .noProducer
  | setCertEnabled T p =>
    rcases write_eq (Option.some.inj h) with ⟨rfl, rfl⟩ | ⟨rfl, hn⟩
    · exact .failed
    · refine .disabledCert ?_
      split at hn
      · exact hn.imp_left fun h => ⟨h.1, .inl h.2⟩
      · exact hn.imp_left fun h => ⟨h.1, .inr h.2⟩
  | setEnabled T p =>
    rcases write_eq (Option.some.inj h) with ⟨rfl, rfl⟩ | ⟨rfl, hn⟩
    · exact .failed
    · exact .disabledRow (hn.imp_left And.right)
  | audit tenantId existing result =>
    rcases write_eq (Option.some.inj h) with ⟨rfl, rfl⟩ | ⟨rfl, hn⟩
    · exact .failed
    · exact .recorded (hn.imp_left And.right)
  | ended result => cases h

end

/-! ## The system -/

/-- The tenant that a slug names. -/
def Store.tenantId? (s : Store) (slug : String) : Option Uuid :=
  (s.tenant.findBySlug slug).map (·.id)

/-- The tenant that a call is for. -/
def Entry.tenant? (s : Store) : Entry → Option Uuid
  | .bySlug slug => s.tenantId? slug
  | .byTenant T => some T

/-- The tenant that a registration is for, while it may write. -/
def RegisterPc.tenant? (s : Store) : RegisterPc → Option Uuid
  | .findBySlug slug => s.tenantId? slug
  | .connect T | .classify T _ | .findProducerCert T _ | .insertIfAbsent T
  | .upsertProducerCert T _ => some T
  | .audit _ _ | .ended _ => none

section
variable {w w' : World} {a : Act}

/-- What a step does: a call is made or makes a statement, or a tenant changes status. -/
inductive WorldStep (w : World) : Act → World → Prop
  | registering {entry : Entry} {x : Inputs} {actor : String}
      (opens : entry.opens w.store = true) :
      WorldStep w (.register entry x actor)
        ⟨w.store, w.calls ++ [.register entry x actor entry.registerPc]⟩
  | disabling {entry : Entry} {name actor : String} :
      WorldStep w (.disable entry name actor)
        ⟨w.store, w.calls ++ [.disable entry name actor entry.disablePc]⟩
  | register {t : Nat} {e : Event} {entry : Entry} {x : Inputs} {actor : String}
      {pc pc' : RegisterPc} {s' : Store} (call : w.calls[t]? = some (.register entry x actor pc))
      (step : RegisterStep x w.store e pc s' pc') :
      WorldStep w (.step t e) ⟨s', w.calls.set t (.register entry x actor pc')⟩
  | disable {t : Nat} {e : Event} {entry : Entry} {name actor : String} {pc pc' : DisablePc}
      {s' : Store} (call : w.calls[t]? = some (.disable entry name actor pc))
      (step : DisableStep name w.store e pc s' pc') :
      WorldStep w (.step t e) ⟨s', w.calls.set t (.disable entry name actor pc')⟩
  | status (tenantId : Uuid) (status : TenantStatus) :
      WorldStep w (.setStatus tenantId status) ⟨w.store.setStatus tenantId status, w.calls⟩

/-- Every step is one of these. -/
theorem worldStep_of_step (h : w.step a = some w') : WorldStep w a w' := by
  cases a with
  | register entry x actor =>
    simp only [World.step] at h
    split at h
    · next ho => cases h; exact .registering ho
    · cases h
  | disable entry name actor =>
    simp only [World.step] at h
    split at h
    · cases h; exact .disabling
    · cases h
  | step t e =>
    obtain ⟨⟨s', call'⟩, hr, rfl⟩ := map_eq_some_iff.1 h
    obtain ⟨call, hcall, hx⟩ := bind_eq_some_iff.1 hr
    cases call with
    | register entry x actor pc =>
      obtain ⟨⟨s1, pc'⟩, hpc, heq⟩ := map_eq_some_iff.1 hx
      cases heq
      exact .register hcall (registerStep_of_exec hpc)
    | disable entry name actor pc =>
      obtain ⟨⟨s1, pc'⟩, hpc, heq⟩ := map_eq_some_iff.1 hx
      cases heq
      exact .disable hcall (disableStep_of_exec hpc)
  | setStatus tenantId status =>
    cases h
    exact .status tenantId status

end

/-! ## What every step keeps -/

section
variable {x : Inputs} {name : String} {s s' : Store} {e : Event} {T : Uuid} {p : Producer}
variable {w w' : World} {a : Act}

theorem RegisterStep.tenant_eq {pc pc' : RegisterPc} (h : RegisterStep x s e pc s' pc') :
    s'.tenant = s.tenant := by
  cases h with
  | mapped done => exact (upsertProducerCert_some done).2.1
  | _ => rfl

theorem DisableStep.tenant_eq {pc pc' : DisablePc} (h : DisableStep name s e pc s' pc') :
    s'.tenant = s.tenant := by
  cases h <;> rfl

theorem tenantId?_setStatus (tenantId : Uuid) (status : TenantStatus) (slug : String) :
    (s.setStatus tenantId status).tenantId? slug = s.tenantId? slug := by
  simp only [Store.tenantId?, Store.setStatus, TenantRows.findBySlug, TenantRows.setStatus,
    Table.updateRows, find?_map, Option.map_map]
  congr 1
  · funext r
    simp only [Function.comp]
    split <;> rfl
  · congr 1
    funext r
    simp only [Function.comp]
    split <;> rfl

/-- Slugs stay with their tenants. -/
theorem tenantId?_of_step (h : w.step a = some w') (slug : String) :
    w'.store.tenantId? slug = w.store.tenantId? slug := by
  cases worldStep_of_step h with
  | register _ hs | disable _ hs => rw [Store.tenantId?, hs.tenant_eq]; rfl
  | status tenantId status => exact tenantId?_setStatus tenantId status slug
  | _ => rfl

theorem entry_tenant?_of_step (h : w.step a = some w') (entry : Entry) :
    entry.tenant? w'.store = entry.tenant? w.store := by
  cases entry with
  | bySlug slug => exact tenantId?_of_step h slug
  | byTenant T => rfl

theorem RegisterStep.row_kept {pc pc' : RegisterPc} (h : RegisterStep x s e pc s' pc')
    (hp : p ∈ s.producer T) : p ∈ s'.producer T := by
  cases h with
  | @inserted T' t _ done _ =>
    by_cases hT : T = T'
    · subst hT
      rw [producer_withProducer_self]
      exact ((ProducerTable.insertIfAbsent_some done).2 p).2 (.inl hp)
    · rwa [producer_withProducer_of_ne hT]
  | mapped done => rwa [(upsertProducerCert_some done).2.2.1]
  | _ => exact hp

/-- A row that was not there is the one that a registration inserts. -/
theorem RegisterStep.row_new {pc pc' : RegisterPc} (h : RegisterStep x s e pc s' pc')
    (hp : p ∈ s'.producer T) :
    p ∈ s.producer T ∨ pc = .insertIfAbsent T ∧ p = x.row e.newId e.now := by
  cases h with
  | @inserted T' t _ done _ =>
    by_cases hT : T = T'
    · subst hT
      rw [producer_withProducer_self] at hp
      rcases ((ProducerTable.insertIfAbsent_some done).2 p).1 hp with hp | rfl
      · exact .inl hp
      · exact .inr ⟨rfl, rfl⟩
    · rw [producer_withProducer_of_ne hT] at hp
      exact .inl hp
  | mapped done =>
    rw [(upsertProducerCert_some done).2.2.1] at hp
    exact .inl hp
  | _ => exact .inl hp

/-- The rows stay, but for whether they are enabled. -/
theorem DisableStep.rows {pc pc' : DisablePc} (h : DisableStep name s e pc s' pc') (T : Uuid) :
    (∀ p ∈ s.producer T, ∃ q ∈ s'.producer T, p = { q with enabled := p.enabled }) ∧
      ∀ p ∈ s'.producer T, ∃ q ∈ s.producer T, p = { q with enabled := p.enabled } := by
  cases h with
  | @disabledRow T' _ _ _ =>
    by_cases hT : T = T'
    · subst hT
      rw [producer_withProducer_self]
      exact ⟨fun p hp => ProducerTable.exists_setEnabled hp _ _,
        fun p hp => ProducerTable.mem_setEnabled hp⟩
    · rw [producer_withProducer_of_ne hT]
      exact ⟨fun p hp => ⟨p, hp, rfl⟩, fun p hp => ⟨p, hp, rfl⟩⟩
  | _ => exact ⟨fun p hp => ⟨p, hp, rfl⟩, fun p hp => ⟨p, hp, rfl⟩⟩

/-- A mapping that was not there is the one that a registration writes. -/
theorem RegisterStep.cert_new {pc pc' : RegisterPc} (h : RegisterStep x s e pc s' pc')
    {c : ProducerCert} (hc : c ∈ s'.producerCert) :
    c ∈ s.producerCert ∨ c.certSubject = x.certSubject ∧
      ∃ result, pc = .upsertProducerCert c.tenantId result ∧ c.producerId = result.producerId := by
  cases h with
  | @mapped T result _ _ done _ =>
    obtain ⟨-, -, -, enabled, -, hmem⟩ := upsertProducerCert_some done
    rcases (hmem c).1 hc with rfl | ⟨hc, -⟩
    · exact .inr ⟨rfl, result, rfl, rfl⟩
    · exact .inl hc
  | _ => exact .inl hc

theorem DisableStep.cert_new {pc pc' : DisablePc} (h : DisableStep name s e pc s' pc')
    {c : ProducerCert} (hc : c ∈ s'.producerCert) :
    ∃ c0 ∈ s.producerCert, c = { c0 with enabled := c.enabled } := by
  cases h with
  | disabledCert =>
    rcases mem_setCertEnabled.1 hc with ⟨hc, -⟩ | ⟨c0, hc0, -, rfl⟩
    · exact ⟨c, hc, rfl⟩
    · exact ⟨c0, hc0, rfl⟩
  | _ => exact ⟨c, hc, rfl⟩

theorem row_of_step (h : w.step a = some w') (hp : p ∈ w.store.producer T) :
    ∃ q ∈ w'.store.producer T, p = { q with enabled := p.enabled } := by
  cases worldStep_of_step h with
  | register _ hs => exact ⟨p, hs.row_kept hp, rfl⟩
  | disable _ hs => exact (hs.rows T).1 p hp
  | _ => exact ⟨p, hp, rfl⟩

end

end Registration

end Messgr
