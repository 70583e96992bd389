import Messgr.Lib.Indexed
import Messgr.Producer.Isolation

/-!
# Registrations with the same inputs converge

Any number of `register_producer` calls with the inputs `x` in the tenant `T`, whose name and
certificate nobody else uses. The row of the first `INSERT` is the only one there ever is with the
name or the certificate (`Converging.rows`), so a call that loses finds it when it looks again, and
every mapping of the certificate is to that row (`Converging.certs`). `registrations_converge` says
what the calls return and what is there once one of them has. Only that a call is not rejected rests
on the ids being new.
-/

namespace Messgr.Registration

open List

/-- The call has returned a `created`, or will. -/
def RegisterPc.Creates : RegisterPc → Prop
  | .upsertProducerCert _ result | .audit _ (.ok result) | .ended (.ok result) =>
    result.outcome = .created
  | _ => False

section
variable (x : Inputs) (T : Uuid)

/-- The tenant has a row with the name and the id. -/
def Store.HasId (s : Store) (id : Uuid) : Prop := ∃ p ∈ s.producer T, p.name = x.name ∧ p.id = id

variable (fresh : Prop)

/-- What a call with the inputs found and did. With `fresh` ids, one that has lost finds the winner.
-/
def RegisterOk (s : Store) : RegisterPc → Prop
  | .findBySlug slug => s.tenantId? slug = some T
  | .connect _ | .classify _ false | .findProducerCert _ false | .insertIfAbsent _ => True
  | .classify _ true => fresh → ∃ id, s.HasId x T id
  | .upsertProducerCert _ result => s.HasId x T result.producerId
  | .audit _ (.ok result) | .ended (.ok result) =>
    s.Mapped x.certSubject ∧ s.HasId x T result.producerId
  | .findProducerCert _ true | .audit _ (.error _) => ¬ fresh
  | .ended (.error err) => fresh → err = .database

/-- The call is one with the inputs in the tenant, and creates. -/
def Call.Creates (s : Store) : Call → Prop
  | .register entry y _ pc => entry.tenant? s = some T ∧ y = x ∧ pc.Creates
  | .disable _ _ _ _ => False

/-- A registration has the inputs in the tenant, or another certificate and, in the tenant, another
name. -/
def Call.Converges (s : Store) : Call → Prop
  | .register entry y _ pc => (∀ T', pc.tenant? s = some T' → entry.tenant? s = some T') ∧
      (entry.tenant? s = some T ∧ y = x ∧ RegisterOk x T fresh s pc ∨
        y.certSubject ≠ x.certSubject ∧ (y.name = x.name → entry.tenant? s ≠ some T))
  | .disable _ _ _ _ => True

structure Converging (w : World) : Prop where
  rows : ∀ p ∈ w.store.producer T, p.name = x.name ∨ p.certSubject = x.certSubject →
    p.name = x.name ∧ x.matches p = true
  certs : ∀ c ∈ w.store.producerCert, c.certSubject = x.certSubject →
    c.tenantId = T ∧ w.store.HasId x T c.producerId
  calls : Indexed.All (fun _ call => call.Converges x T fresh w.store) w.calls
  created : Indexed.AtMostOne (Call.Creates x T w.store) w.calls

end

/-! ## What every step keeps -/

section
variable {x y : Inputs} {T : Uuid} {fresh : Prop} {X : String} {s s' : Store} {e : Event}
  {w w' : World} {a : Act} {pc pc' : RegisterPc}

theorem Store.HasId.eq {id id' : Uuid} (h : s.HasId x T id) (h' : s.HasId x T id') : id = id' := by
  obtain ⟨p, hp, hname, rfl⟩ := h
  obtain ⟨q, hq, hname', rfl⟩ := h'
  rw [ProducerTable.eq_of_name hp hq (hname.trans hname'.symm)]

section
variable (h : w.step a = some w')
include h

theorem hasId_of_step {id : Uuid} (hid : w.store.HasId x T id) : w'.store.HasId x T id := by
  obtain ⟨p, hp, hname, rfl⟩ := hid
  obtain ⟨q, hq, heq⟩ := row_of_step h hp
  exact ⟨q, hq, by rw [← hname, heq], by rw [heq]⟩

theorem mapped_of_step (hX : w.store.Mapped X) : w'.store.Mapped X := by
  cases worldStep_of_step h with
  | register _ hstep | disable _ hstep => exact hstep.mapped_kept hX
  | _ => exact hX

/-- A step of another call keeps what a call has found. -/
theorem RegisterOk.of_step (hok : RegisterOk x T fresh w.store pc) :
    RegisterOk x T fresh w'.store pc := by
  cases pc with
  | findBySlug slug => exact (tenantId?_of_step h slug).trans hok
  | connect => trivial
  | classify T' retry =>
    cases retry with
    | false => trivial
    | true => exact fun hf => (hok hf).imp fun _ hid => hasId_of_step h hid
  | findProducerCert T' retry =>
    cases retry with
    | false => trivial
    | true => exact hok
  | insertIfAbsent => trivial
  | upsertProducerCert => exact hasId_of_step h hok
  | audit T' result =>
    cases result with
    | ok result => exact ⟨mapped_of_step h hok.1, hasId_of_step h hok.2⟩
    | error why => exact hok
  | ended result =>
    cases result with
    | ok result => exact ⟨mapped_of_step h hok.1, hasId_of_step h hok.2⟩
    | error err => exact hok

theorem Call.Converges.of_step {call : Call}
    (hcall : call.Converges x T fresh w.store) : call.Converges x T fresh w'.store := by
  cases call with
  | disable => trivial
  | register entry y actor pc =>
    obtain ⟨htarget, hkind⟩ := hcall
    simp only [Call.Converges, tenant?_congr (tenantId?_of_step h), entry_tenant?_of_step h]
    refine ⟨htarget, hkind.imp_left fun ⟨hT, hy, hok⟩ => ⟨hT, hy, hok.of_step h⟩⟩

theorem Call.Creates.of_step {call : Call}
    (hcall : call.Creates x T w'.store) : call.Creates x T w.store := by
  cases call with
  | disable => exact hcall
  | register entry y actor pc =>
    simp only [Call.Creates, entry_tenant?_of_step h] at hcall
    exact hcall

end

/-! ## One statement -/

/-- A call creates once its `INSERT` has found the name free. -/
theorem RegisterStep.creates (h : RegisterStep x s e pc s' pc') (hc : pc'.Creates) :
    pc.Creates ∨ ∃ T', pc = .insertIfAbsent T' ∧ ∀ q ∈ s.producer T', q.name ≠ x.name := by
  cases h with
  | @inserted T' t _ done next =>
    exact .inr ⟨T', rfl, fun q hq => ((ProducerTable.insertIfAbsent_some done).1 q hq).1⟩
  | identical => cases hc
  | mapped _ next =>
    rcases next with rfl | rfl
    · exact .inl hc
    · exact hc.elim
  | @recorded _ result _ _ next =>
    rcases next with rfl | rfl
    · cases result with
      | ok result => exact .inl hc
      | error why => exact hc.elim
    · exact hc.elim
  | _ => exact hc.elim

theorem RegisterOk.hasId (h : RegisterOk x T fresh s pc) (hc : pc.Creates) :
    ∃ id, s.HasId x T id := by
  cases pc with
  | upsertProducerCert _ result => exact ⟨_, h⟩
  | audit _ result =>
    cases result with
    | ok result => exact ⟨_, h.2⟩
    | error why => exact hc.elim
  | ended result =>
    cases result with
    | ok result => exact ⟨_, h.2⟩
    | error err => exact hc.elim
  | _ => exact hc.elim

/-- A statement of a call with the inputs finds rows and mapping of such calls. -/
theorem RegisterStep.ok (h : RegisterStep x s e pc s' pc')
    (hrows : ∀ p ∈ s.producer T, p.name = x.name ∨ p.certSubject = x.certSubject →
      p.name = x.name ∧ x.matches p = true)
    (hcerts : ∀ c ∈ s.producerCert, c.certSubject = x.certSubject → c.tenantId = T)
    (htarget : ∀ T', pc.tenant? s = some T' → T' = T)
    (hfresh : fresh → ∀ T', pc = .insertIfAbsent T' → ∀ q ∈ s.producer T', q.id ≠ e.newId)
    (hok : RegisterOk x T fresh s pc) : RegisterOk x T fresh s' pc' := by
  cases h with
  | failed => exact fun _ => rfl
  | @noTenant slug missing =>
    rw [RegisterOk, Store.tenantId?, missing] at hok
    cases hok
  | found | connected => trivial
  | identical hp hname =>
    cases htarget _ rfl
    exact ⟨_, hp, hname, rfl⟩
  | differs hp hname hm =>
    cases htarget _ rfl
    rw [(hrows _ hp (.inl hname)).2] at hm
    cases hm
  | bound hp hX hnames =>
    cases htarget _ rfl
    exact absurd (hrows _ hp (.inr hX)).1 (hnames _ hp)
  | @unknown T' retry hnone =>
    cases htarget _ rfl
    cases retry with
    | false => trivial
    | true =>
      intro hf
      obtain ⟨id, p, hp, hname, -⟩ := hok hf
      exact (hnone p hp).1 hname
  | boundElsewhere hc hX hne =>
    cases htarget _ rfl
    exact absurd (hcerts _ hc hX) hne
  | winnerNotFound => exact hok
  | free => trivial
  | @inserted T' t _ done next =>
    cases htarget _ rfl
    rcases next with rfl | rfl
    · refine ⟨x.row e.newId e.now, ?_, rfl, rfl⟩
      rw [producer_withProducer_self]
      exact ((ProducerTable.insertIfAbsent_some done).2 _).2 (.inr rfl)
    · exact fun _ => rfl
  | @lost T' q hq hclash =>
    cases htarget _ rfl
    intro hf
    rcases hclash with hid | hclash
    · exact absurd hid (hfresh hf _ rfl q hq)
    · exact ⟨q.id, q, hq, (hrows q hq hclash).1, rfl⟩
  | @mapped T' result _ _ done next =>
    obtain ⟨-, -, hproducer, enabled, -, hmem⟩ := upsertProducerCert_some done
    rcases next with rfl | rfl
    · refine ⟨⟨_, (hmem _).2 (.inl rfl), rfl⟩, ?_⟩
      rw [Store.HasId, hproducer]
      exact hok
    · exact fun _ => rfl
  | @recorded _ result _ _ next =>
    rcases next with rfl | rfl
    · cases result with
      | ok result => exact hok
      | error why => exact fun hf => absurd hf hok
    · exact fun _ => rfl

end

/-! ## Runs -/

/-- The condition: only the inputs in the tenant register the certificate, or the name in the
tenant. -/
def otherwiseUnused (x : Inputs) (T : Uuid) (w : World) : Act → Bool
  | .register entry y _ => entry.tenant? w.store = some T && y = x ||
      y.certSubject ≠ x.certSubject && (y.name ≠ x.name || entry.tenant? w.store ≠ some T)
  | _ => true

/-- The id that `Uuid::new_v4` draws for a row is none of the table. -/
def drawsNew (w : World) : Act → Bool
  | .step t e =>
    match w.calls[t]? with
    | some (.register _ _ _ (.insertIfAbsent T)) => (w.store.producer T).rows.all (·.id ≠ e.newId)
    | _ => true
  | _ => true

section
variable {x : Inputs} {T : Uuid} {fresh : Prop} {w w' : World} {a : Act} {s' : Store}
variable {entry : Entry} {y : Inputs} {actor : String}

theorem new_of_drawsNew {t : Nat} {e : Event} {T' : Uuid} (h : drawsNew w (.step t e) = true)
    (hcall : w.calls[t]? = some (.register entry y actor (.insertIfAbsent T'))) :
    ∀ q ∈ w.store.producer T', q.id ≠ e.newId := by
  intro q hq
  simp only [drawsNew, hcall, all_eq_true] at h
  exact of_decide_eq_true (h q hq)

theorem converges_registering (h : otherwiseUnused x T w (.register entry y actor) = true) :
    (Call.register entry y actor entry.registerPc).Converges x T fresh w.store := by
  refine ⟨fun T' hT' => by cases entry <;> exact hT', ?_⟩
  simp only [otherwiseUnused, Bool.or_eq_true, Bool.and_eq_true, decide_eq_true_eq] at h
  rcases h with ⟨hT, rfl⟩ | ⟨hX, hname⟩
  · refine .inl ⟨hT, rfl, ?_⟩
    cases entry with
    | bySlug slug => exact hT
    | byTenant T' => trivial
  · exact .inr ⟨hX, fun hn => hname.resolve_left (not_not_intro hn)⟩

/-- A call that creates has its row. -/
theorem Converging.hasId (h : Converging x T fresh w) {call : Call} (hmem : call ∈ w.calls)
    (hc : call.Creates x T w.store) : ∃ id, w.store.HasId x T id := by
  obtain ⟨t, ht⟩ := getElem?_of_mem hmem
  cases call with
  | disable => exact hc.elim
  | register entry y actor pc =>
    obtain ⟨hT, rfl, hpc⟩ := hc
    rcases (h.calls t _ ht).2 with ⟨-, -, hok⟩ | ⟨hX, -⟩
    · exact hok.hasId hpc
    · exact absurd rfl hX

/-- A statement of a registration. -/
theorem Converging.register {t : Nat} {e : Event} {pc pc' : RegisterPc} (h : Converging x T fresh w)
    (hnew : fresh → drawsNew w (.step t e) = true)
    (hs : w.step (.step t e) = some ⟨s', w.calls.set t (.register entry y actor pc')⟩)
    (hcall : w.calls[t]? = some (.register entry y actor pc))
    (hstep : RegisterStep y w.store e pc s' pc') :
    Converging x T fresh ⟨s', w.calls.set t (.register entry y actor pc')⟩ := by
  obtain ⟨htarget, hkind⟩ := h.calls t _ hcall
  have hentry := entry_tenant?_of_step hs entry
  refine ⟨fun p hp hclash => ?_, fun c hc hX => ?_, ?_, ?_⟩
  · rcases hstep.row_new hp with hp | ⟨rfl, rfl⟩
    · exact h.rows p hp hclash
    · rcases hkind with ⟨-, rfl, -⟩ | ⟨hX, hname⟩
      · exact ⟨rfl, by simp [Inputs.matches, Inputs.row]⟩
      · rcases hclash with hn | hX'
        · exact absurd (htarget T rfl) (hname hn)
        · exact absurd hX' hX
  · rcases hstep.cert_new hc with hc | ⟨hX', result, rfl, hid⟩
    · exact (h.certs c hc hX).imp_right (hasId_of_step hs)
    · rcases hkind with ⟨hT, rfl, hok⟩ | ⟨hne, -⟩
      · rw [hid]
        exact ⟨Option.some.inj ((htarget _ rfl).symm.trans hT), hasId_of_step hs hok⟩
      · exact absurd (hX'.symm.trans hX) hne
  · refine .set (h.calls.mono fun _ _ hc => hc.of_step hs) ⟨fun T' hT' => ?_, ?_⟩
    · exact hentry.trans (htarget T' (hstep.target hT'))
    · rw [hentry]
      refine hkind.imp_left ?_
      rintro ⟨hT, rfl, hok⟩
      refine ⟨hT, rfl, hstep.ok h.rows (fun c hc hX => (h.certs c hc hX).1) ?_ ?_ hok⟩
      · exact fun T' hT' => Option.some.inj ((htarget T' hT').symm.trans hT)
      · rintro hf T' rfl
        exact new_of_drawsNew (hnew hf) hcall
  · have hold : Indexed.AtMostOne (Call.Creates x T s') w.calls :=
      h.created.mono fun _ hc => hc.of_step hs
    refine hold.set hcall ?_
    rintro ⟨hT, rfl, hpc'⟩
    rcases hstep.creates hpc' with hpc | ⟨T', rfl, hfree⟩
    · exact .inl ⟨hT, rfl, hpc⟩
    · -- the name is free, so nobody has created
      refine .inr fun call hmem hc => ?_
      obtain ⟨id, p, hp, hname, -⟩ := h.hasId hmem (hc.of_step hs)
      cases Option.some.inj ((htarget T' rfl).symm.trans (hentry.symm.trans hT))
      exact hfree p hp hname

/-- A statement of a `disable_producer`. -/
theorem Converging.disable {t : Nat} {e : Event} {entry : Entry} {name actor : String}
    {pc pc' : DisablePc} (h : Converging x T fresh w)
    (hs : w.step (.step t e) = some ⟨s', w.calls.set t (.disable entry name actor pc')⟩)
    (hcall : w.calls[t]? = some (.disable entry name actor pc))
    (hstep : DisableStep name w.store e pc s' pc') :
    Converging x T fresh ⟨s', w.calls.set t (.disable entry name actor pc')⟩ := by
  refine ⟨fun p hp hclash => ?_, fun c hc hX => ?_, ?_, ?_⟩
  · obtain ⟨q, hq, heq⟩ := (hstep.rows _).2 _ hp
    rw [heq] at hclash ⊢
    exact h.rows q hq hclash
  · obtain ⟨c0, hc0, heq⟩ := hstep.cert_new hc
    rw [heq] at hX ⊢
    exact (h.certs c0 hc0 hX).imp_right (hasId_of_step hs)
  · exact .set (h.calls.mono fun _ _ hc => hc.of_step hs) trivial
  · have hold : Indexed.AtMostOne (Call.Creates x T s') w.calls :=
      h.created.mono fun _ hc => hc.of_step hs
    exact hold.set hcall fun hc => hc.elim

/-- Every step that meets the condition keeps convergence. -/
theorem Converging.step (hC : otherwiseUnused x T w a = true)
    (hnew : fresh → drawsNew w a = true) (hs : w.step a = some w') (h : Converging x T fresh w) :
    Converging x T fresh w' := by
  have hcalls : Indexed.All (fun _ call => call.Converges x T fresh w'.store) w.calls :=
    h.calls.mono fun _ _ hc => hc.of_step hs
  have hcreated : Indexed.AtMostOne (Call.Creates x T w'.store) w.calls :=
    h.created.mono fun _ hc => hc.of_step hs
  cases worldStep_of_step hs with
  | @registering entry y actor _ =>
    refine ⟨h.rows, h.certs, hcalls.append fun _ _ call hmem => ?_,
      hcreated.append fun call hmem => ?_⟩
    · rw [mem_singleton.1 hmem]
      exact converges_registering hC
    · rw [mem_singleton.1 hmem]
      cases entry <;> exact fun hc => hc.2.2
  | disabling =>
    refine ⟨h.rows, h.certs, hcalls.append fun _ _ call hmem => ?_,
      hcreated.append fun call hmem => ?_⟩
    · rw [mem_singleton.1 hmem]
      trivial
    · rw [mem_singleton.1 hmem]
      exact id
  | register hcall hstep => exact h.register hnew hs hcall hstep
  | disable hcall hstep => exact h.disable hs hcall hstep
  | status => exact ⟨h.rows, h.certs, hcalls, hcreated⟩

end

/-- A `register_producer` with the inputs in the tenant has returned. -/
def Returned (x : Inputs) (T : Uuid) (w : World) (t : Nat)
    (result : Except ProducerError RegisterOutcome) : Prop :=
  ∃ entry actor, entry.tenant? w.store = some T ∧
    w.calls[t]? = some (.register entry x actor (.ended result))

theorem converging_start {x : Inputs} {T : Uuid} {fresh : Prop} {s : Store}
    (hrows : ∀ p ∈ s.producer T, p.name ≠ x.name ∧ p.certSubject ≠ x.certSubject)
    (hcerts : ∀ c ∈ s.producerCert, c.certSubject ≠ x.certSubject) : Converging x T fresh ⟨s, []⟩ :=
  ⟨fun p hp hclash => absurd hclash (not_or_intro (hrows p hp).1 (hrows p hp).2),
    fun c hc hX => absurd hX (hcerts c hc), .nil, .nil⟩

theorem Converging.returned {x : Inputs} {T : Uuid} {fresh : Prop} {w : World} {t : Nat}
    {result : Except ProducerError RegisterOutcome} (h : Converging x T fresh w)
    (hr : Returned x T w t result) : RegisterOk x T fresh w.store (.ended result) := by
  obtain ⟨entry, actor, -, hcall⟩ := hr
  rcases (h.calls t _ hcall).2 with ⟨-, -, hok⟩ | ⟨hX, -⟩
  · exact hok
  · exact absurd rfl hX

/-- In every run in which the certificate, and in the tenant the name, are used by nobody before and
registered only with the inputs, with calls that fail or stop at any statement and whatever else is
called in between: all calls that return `Ok` return one id, at most one returns `created`, and, the
ids being new, none is rejected. Once a call has returned `Ok`, the tenant has one row with the name
or the certificate, with the inputs and the id, and the certificate is mapped to it. -/
theorem registrations_converge {x : Inputs} {T : Uuid} {s : Store}
    (hrows : ∀ p ∈ s.producer T, p.name ≠ x.name ∧ p.certSubject ≠ x.certSubject)
    (hcerts : ∀ c ∈ s.producerCert, c.certSubject ≠ x.certSubject) {as : List Act} {w : World}
    (h : Run.Steps World.step (otherwiseUnused x T · ·) ⟨s, []⟩ as w) :
    (∀ t u r r', Returned x T w t (.ok r) → Returned x T w u (.ok r') →
      r.producerId = r'.producerId ∧ (r.outcome = .created → r'.outcome = .created → t = u)) ∧
    (Run.Steps World.step (drawsNew · ·) ⟨s, []⟩ as w →
      ∀ t err, Returned x T w t (.error err) → err = .database) ∧
    ∀ t r, Returned x T w t (.ok r) →
      (∃ p ∈ w.store.producer T, p.name = x.name ∧ x.matches p = true ∧ p.id = r.producerId ∧
        ∀ q ∈ w.store.producer T, q.name = x.name ∨ q.certSubject = x.certSubject → q = p) ∧
      ∃ enabled, w.store.producerCert.find? x.certSubject =
        some ⟨x.certSubject, T, r.producerId, enabled⟩ := by
  have hconv : Converging x T False w :=
    h.inv (fun _ _ _ hC hs h => h.step hC False.elim hs) (converging_start hrows hcerts)
  refine ⟨fun t u r r' hr hr' => ⟨?_, fun hc hc' => ?_⟩, fun hnew t err hr => ?_, fun t r hr => ?_⟩
  · exact (hconv.returned hr).2.eq (hconv.returned hr').2
  · obtain ⟨entry, actor, hT, hcall⟩ := hr
    obtain ⟨entry', actor', hT', hcall'⟩ := hr'
    exact hconv.created t u _ _ hcall hcall' ⟨hT, rfl, hc⟩ ⟨hT', rfl, hc'⟩
  · have hconv' : Converging x T True w :=
      (h.and hnew).inv (fun _ _ _ hC hs h => h.step hC.1 (fun _ => hC.2) hs)
        (converging_start hrows hcerts)
    exact hconv'.returned hr trivial
  · obtain ⟨⟨c, hc, hX⟩, hid⟩ := hconv.returned hr
    obtain ⟨p, hp, hname, hpid⟩ := hid
    obtain ⟨-, hm⟩ := hconv.rows p hp (.inl hname)
    refine ⟨⟨p, hp, hname, hm, hpid, fun q hq hclash => ?_⟩, c.enabled, ?_⟩
    · exact ProducerTable.eq_of_name hq hp ((hconv.rows q hq hclash).1.trans hname.symm)
    · obtain ⟨hT, hcid⟩ := hconv.certs c hc hX
      rw [← hX, Table.find?_of_mem hc, ← hT, ← hcid.eq ⟨p, hp, hname, hpid⟩]

/-- Two calls find the name free and insert, and a third fails. -/
def registeredTogether : List Act :=
  [.register (.bySlug "one") .sample "actor", .register (.byTenant ⟨1⟩) .sample "actor",
   .register (.bySlug "one") .sample "actor", .step 0 {}, .step 0 {}, .step 0 {}, .step 0 {},
   .step 1 {}, .step 1 {}, .step 0 { newId := ⟨10⟩ }, .step 1 { newId := ⟨11⟩ }, .step 1 {},
   .step 2 { reply := .failed }, .step 1 {}, .step 1 {}, .step 0 {}, .step 0 {}]

/-- The one that loses returns the id of the other. -/
theorem registrations_converge_registeredTogether :
    ∃ w, Run.Steps World.step (otherwiseUnused .sample ⟨1⟩ · ·) ⟨twoTenants, []⟩
        registeredTogether w ∧
      Returned .sample ⟨1⟩ w 0 (.ok ⟨⟨10⟩, .created⟩) ∧
      Returned .sample ⟨1⟩ w 1 (.ok ⟨⟨10⟩, .idempotent⟩) ∧
      (∀ t err, Returned .sample ⟨1⟩ w t (.error err) → err = .database) ∧
      ∃ enabled, w.store.producerCert.find? "CN=fraud" = some ⟨"CN=fraud", ⟨1⟩, ⟨10⟩, enabled⟩ := by
  obtain ⟨w, hw, hp⟩ := Run.Steps.exists_of_checked World.step
    (fun w a => otherwiseUnused .sample ⟨1⟩ w a && drawsNew w a) ⟨twoTenants, []⟩
    registeredTogether
    (fun w => w.store.tenantId? "one" = some ⟨1⟩ &&
      w.calls = [.register (.bySlug "one") .sample "actor" (.ended (.ok ⟨⟨10⟩, .created⟩)),
        .register (.byTenant ⟨1⟩) .sample "actor" (.ended (.ok ⟨⟨10⟩, .idempotent⟩)),
        .register (.bySlug "one") .sample "actor" .failed])
    (by decide +kernel)
  simp only [Bool.and_eq_true, decide_eq_true_eq] at hp
  have h0 : Returned .sample ⟨1⟩ w 0 (.ok ⟨⟨10⟩, .created⟩) :=
    ⟨.bySlug "one", "actor", hp.1, by rw [hp.2]; rfl⟩
  have h1 : Returned .sample ⟨1⟩ w 1 (.ok ⟨⟨10⟩, .idempotent⟩) :=
    ⟨.byTenant ⟨1⟩, "actor", rfl, by rw [hp.2]; rfl⟩
  have hrun : Run.Steps World.step (otherwiseUnused .sample ⟨1⟩ · ·) ⟨twoTenants, []⟩
      registeredTogether w := hw.mono fun _ _ hC => (Bool.and_eq_true_iff.1 hC).1
  have hnew : Run.Steps World.step (drawsNew · ·) ⟨twoTenants, []⟩ registeredTogether w :=
    hw.mono fun _ _ hC => (Bool.and_eq_true_iff.1 hC).2
  have hend := registrations_converge (fun p hmem => absurd hmem List.not_mem_nil)
    (fun c hmem => absurd hmem (Table.not_mem_empty c)) hrun
  exact ⟨w, hrun, h0, h1, hend.2.1 hnew, (hend.2.2 0 _ h0).2⟩

end Messgr.Registration
