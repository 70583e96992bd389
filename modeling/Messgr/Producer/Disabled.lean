import Messgr.Lib.Indexed
import Messgr.Producer.Isolation

/-!
# A disabled producer stays disabled

No statement enables a mapping that is disabled (`off_of_step`). But the `UPDATE` of
`set_cert_enabled` writes nothing for a certificate without a mapping, and the call returns `Ok` all
the same: a registration that stopped before its mapping and is made again maps the certificate as
enabled, whatever the row says (`disabled_resolves`). A call whose `UPDATE` finds the mapping is for
good (`disabled_stays_disabled`).
-/

namespace Messgr.Registration

/-- The certificate is mapped and disabled. -/
def Store.Off (s : Store) (X : String) : Prop :=
  ∃ c ∈ s.producerCert, c.certSubject = X ∧ c.enabled = false

/-- The producer that a `disable_producer` names has the certificate. -/
def Store.Names (s : Store) (entry : Entry) (name X : String) : Prop :=
  ∃ T, entry.tenant? s = some T ∧ ∃ p ∈ s.producer T, p.name = name ∧ p.certSubject = X

/-! ## What every step keeps -/

section
variable {x : Inputs} {name X : String} {entry : Entry} {s s' : Store} {e : Event} {w w' : World}
  {a : Act}

/-- A registration leaves a mapping as enabled as it was. -/
theorem RegisterStep.off {pc pc' : RegisterPc} (h : RegisterStep x s e pc s' pc') (hX : s.Off X) :
    s'.Off X := by
  cases h with
  | mapped done =>
    obtain ⟨-, -, -, enabled, hsame, hmem⟩ := upsertProducerCert_some done
    obtain ⟨c, hc, rfl, hoff⟩ := hX
    by_cases hx : c.certSubject = x.certSubject
    · exact ⟨_, (hmem _).2 (.inl rfl), hx.symm, (hsame c hc hx).trans hoff⟩
    · exact ⟨c, (hmem c).2 (.inr ⟨hc, hx⟩), rfl, hoff⟩
  | _ => exact hX

theorem DisableStep.off {pc pc' : DisablePc} (h : DisableStep name s e pc s' pc') (hX : s.Off X) :
    s'.Off X := by
  cases h with
  | @disabledCert T p _ _ =>
    obtain ⟨c, hc, rfl, hoff⟩ := hX
    by_cases hx : c.certSubject = p.certSubject
    · exact ⟨_, mem_setCertEnabled.2 (.inr ⟨c, hc, hx, rfl⟩), rfl, rfl⟩
    · exact ⟨c, mem_setCertEnabled.2 (.inl ⟨hc, hx⟩), rfl, hoff⟩
  | _ => exact hX

theorem off_of_step (h : w.step a = some w') (hX : w.store.Off X) : w'.store.Off X := by
  cases worldStep_of_step h with
  | register _ hstep => exact hstep.off hX
  | disable _ hstep => exact hstep.off hX
  | _ => exact hX

theorem names_of_step (h : w.step a = some w') (hX : w.store.Names entry name X) :
    w'.store.Names entry name X := by
  obtain ⟨T, hT, p, hp, rfl, rfl⟩ := hX
  obtain ⟨q, hq, heq⟩ := row_of_step h hp
  exact ⟨T, (entry_tenant?_of_step h entry).trans hT, q, hq, by rw [heq], by rw [heq]⟩

/-- A disabled mapping is resolved as such. -/
theorem Store.Off.resolveProducer (h : s.Off X) :
    ∃ tenantId producerId, resolveProducer s X = .error (.disabled tenantId producerId) := by
  obtain ⟨c, hc, rfl, hoff⟩ := h
  obtain ⟨status, hf⟩ := findProducerCert_of_mem hc
  refine ⟨c.tenantId, c.producerId, ?_⟩
  simp [Registration.resolveProducer, hf, hoff]

end

/-! ## One call -/

/-- What a `disable_producer` has found and done: once its `UPDATE` is over, the certificate of its
producer is disabled. -/
def DisableOk (s : Store) (entry : Entry) (name : String) : DisablePc → Prop
  | .findBySlug slug => entry = .bySlug slug
  | .connect T | .findByName T => entry.tenant? s = some T
  | .setCertEnabled _ existing => s.Names entry name existing.certSubject
  | .setEnabled _ _ | .audit _ _ (.ok _) | .ended (.ok _) => ∃ X, s.Names entry name X ∧ s.Off X
  | .audit _ _ (.error _) | .ended (.error _) => True

section
variable {name : String} {entry : Entry} {s s' : Store} {e : Event} {w w' : World} {a : Act}
  {pc pc' : DisablePc}

theorem disableOk_disablePc : DisableOk s entry name entry.disablePc := by
  cases entry <;> rfl

/-- No step of another call undoes it. -/
theorem DisableOk.of_step (h : w.step a = some w') (hok : DisableOk w.store entry name pc) :
    DisableOk w'.store entry name pc := by
  have hdone : (∃ X, w.store.Names entry name X ∧ w.store.Off X) →
      ∃ X, w'.store.Names entry name X ∧ w'.store.Off X := fun ⟨X, hn, hoff⟩ =>
    ⟨X, names_of_step h hn, off_of_step h hoff⟩
  cases pc with
  | findBySlug slug => exact hok
  | connect | findByName => exact (entry_tenant?_of_step h entry).trans hok
  | setCertEnabled T p => exact names_of_step h hok
  | setEnabled T p => exact hdone hok
  | audit T p result | ended result =>
    cases result with
    | ok outcome => exact hdone hok
    | error why => trivial

/-- A statement of the call, at the databases that it leaves. -/
theorem DisableStep.ok (h : DisableStep name s e pc s' pc') (hok : DisableOk s' entry name pc)
    (hmapped : ∀ T p, pc = .setCertEnabled T p → s.Mapped p.certSubject) :
    DisableOk s' entry name pc' := by
  cases h with
  | failed | noTenant | noProducer => trivial
  | found ht =>
    cases hok
    simp only [DisableOk, Entry.tenant?, Store.tenantId?, ht, Option.map_some]
  | connected => exact hok
  | foundRow hp hname => exact ⟨_, hok, _, hp, hname, rfl⟩
  | @disabledCert T p _ next =>
    obtain ⟨c, hc, hX⟩ := hmapped T p rfl
    have hdone : ∃ X, (s.setCertEnabled p.certSubject false).Names entry name X ∧
        (s.setCertEnabled p.certSubject false).Off X :=
      ⟨p.certSubject, hok, _, mem_setCertEnabled.2 (.inr ⟨c, hc, hX, rfl⟩), hX, rfl⟩
    rcases next with ⟨-, rfl | rfl⟩ | rfl
    · exact hdone
    · exact hdone
    · trivial
  | disabledRow next =>
    rcases next with rfl | rfl
    · exact hok
    · trivial
  | @recorded _ _ result _ _ next =>
    rcases next with rfl | rfl
    · cases result with
      | ok outcome => exact hok
      | error why => trivial
    · trivial

end

/-! ## Runs -/

/-- The condition: the `UPDATE` of the call finds a mapping of its certificate. -/
def updatesMapping (t : Nat) (w : World) : Act → Bool
  | .step u _ =>
    match w.calls[u]? with
    | some (.disable _ _ _ (.setCertEnabled _ existing)) =>
      u ≠ t || (w.store.producerCert.find? existing.certSubject).isSome
    | _ => true
  | _ => true

/-- What the call has found and done. -/
def Call.DisableOk (s : Store) : Call → Prop
  | .register _ _ _ _ => True
  | .disable entry name _ pc => Registration.DisableOk s entry name pc

section
variable {t : Nat} {w w' : World} {a : Act}

theorem mapped_of_updatesMapping {e : Event} {entry : Entry} {name actor : String} {T : Uuid}
    {p : Producer} (h : updatesMapping t w (.step t e) = true)
    (hcall : w.calls[t]? = some (.disable entry name actor (.setCertEnabled T p))) :
    w.store.Mapped p.certSubject := by
  simp only [updatesMapping, hcall, ne_eq, not_true_eq_false, decide_false, Bool.false_or] at h
  obtain ⟨c, hc⟩ := Option.isSome_iff_exists.1 h
  exact ⟨c, Table.find?_some hc⟩

/-- Every step that meets the condition keeps it disabled. -/
theorem disableOk_step (hC : updatesMapping t w a = true) (hs : w.step a = some w')
    (h : Indexed.All (fun u call => u = t → call.DisableOk w.store) w.calls) :
    Indexed.All (fun u call => u = t → call.DisableOk w'.store) w'.calls := by
  -- the calls that make no statement
  have hold : Indexed.All (fun u call => u = t → call.DisableOk w'.store) w.calls := by
    refine h.mono fun u call hok hu => ?_
    cases call with
    | register => trivial
    | disable => exact .of_step hs (hok hu)
  cases worldStep_of_step hs with
  | registering =>
    refine hold.append fun _ _ call hc _ => ?_
    rw [List.mem_singleton.1 hc]
    trivial
  | disabling =>
    refine hold.append fun _ _ call hc _ => ?_
    rw [List.mem_singleton.1 hc]
    exact disableOk_disablePc
  | register => exact hold.set fun _ => trivial
  | @disable u e _ _ _ _ _ _ hcall hstep =>
    refine hold.set fun hu => ?_
    subst hu
    refine hstep.ok (hold _ _ hcall rfl) fun T p hpc => ?_
    subst hpc
    exact mapped_of_updatesMapping hC hcall
  | status => exact hold

end

/-- In every run from any databases, with calls that fail or stop at any statement and are made
again: once a `disable_producer` whose `UPDATE` finds the mapping has returned `Ok`, there is the
producer that it names, and after any further run its certificate is resolved as disabled. -/
theorem disabled_stays_disabled {s : Store} {t : Nat} {as bs : List Act} {w w' : World}
    (h1 : Run.Steps World.step (updatesMapping t · ·) ⟨s, []⟩ as w)
    {entry : Entry} {name actor : String} {outcome : Outcome}
    (hcall : w.calls[t]? = some (.disable entry name actor (.ended (.ok outcome))))
    (h2 : Run.Steps World.step Run.Any w bs w') :
    ∃ T p, entry.tenant? w.store = some T ∧ p ∈ w.store.producer T ∧ p.name = name ∧
      ∃ tenantId producerId,
        resolveProducer w'.store p.certSubject = .error (.disabled tenantId producerId) := by
  have hok := h1.inv (I := fun w => Indexed.All (fun u call => u = t → call.DisableOk w.store)
    w.calls) (fun _ _ _ hC hs h => disableOk_step hC hs h) .nil
  obtain ⟨X, ⟨T, hT, p, hp, hname, rfl⟩, hoff⟩ := hok t _ hcall rfl
  have hoff' : w'.store.Off p.certSubject :=
    h2.inv (I := fun w => w.store.Off p.certSubject) (fun _ _ _ _ hs h => off_of_step hs h) hoff
  exact ⟨T, p, hT, hp, hname, hoff'.resolveProducer⟩

/-! ### Runs on fixed inputs -/

/-- The producer is disabled. -/
def disabledByOne : List Act :=
  [.disable (.bySlug "one") "fraud" "actor", .step 1 {}, .step 1 {}, .step 1 {}, .step 1 {},
   .step 1 {}, .step 1 {}]

/-- The call that has disabled it. -/
def disabledCall : Call := .disable (.bySlug "one") "fraud" "actor" (.ended (.ok .disabled))

/-- Registering it again does not enable it. -/
theorem disabled_stays_disabled_registeredAgain :
    ∃ w w', Run.Steps World.step (updatesMapping 1 · ·) ⟨twoTenants, []⟩
        (registeredThenRejected ++ disabledByOne) w ∧
      Run.Steps World.step Run.Any w registeredAgain w' ∧
      ∃ T p, (Entry.bySlug "one").tenant? w.store = some T ∧ p ∈ w.store.producer T ∧
        p.name = "fraud" ∧ ∃ tenantId producerId,
          resolveProducer w'.store p.certSubject = .error (.disabled tenantId producerId) := by
  obtain ⟨w, hw, hp⟩ := Run.Steps.exists_of_checked World.step (updatesMapping 1) ⟨twoTenants, []⟩
    (registeredThenRejected ++ disabledByOne)
    (fun w => w.calls[1]? = some disabledCall && (Run.exec World.step w registeredAgain).isSome)
    (by decide +kernel)
  rw [Bool.and_eq_true, decide_eq_true_eq] at hp
  obtain ⟨w', hw'⟩ := Option.isSome_iff_exists.1 hp.2
  have hrun := Run.Steps.of_exec hw'
  exact ⟨w, w', hw, hrun, disabled_stays_disabled hw hp.1 hrun⟩

/-- The registration stops before its mapping, the producer is disabled, and the registration is
made again: the certificate is resolved. -/
theorem disabled_resolves :
    ∃ w w', Run.Steps World.step Run.Any ⟨twoTenants, []⟩ (insertedOnly ++ disabledByOne) w ∧
      Run.Steps World.step Run.Any w registeredAgain w' ∧ w.calls[1]? = some disabledCall ∧
      resolveProducer w'.store "CN=fraud" = .ok ⟨⟨1⟩, ⟨10⟩⟩ := by
  obtain ⟨w, hw, hp⟩ := Run.Steps.exists_of_exec World.step ⟨twoTenants, []⟩
    (insertedOnly ++ disabledByOne)
    (fun w => w.calls[1]? = some disabledCall &&
      (Run.exec World.step w registeredAgain).any fun w' =>
        resolveProducer w'.store "CN=fraud" = .ok ⟨⟨1⟩, ⟨10⟩⟩) (by decide +kernel)
  rw [Bool.and_eq_true, decide_eq_true_eq] at hp
  obtain ⟨w', hw', hp'⟩ := Run.Steps.exists_of_exec World.step w registeredAgain _ hp.2
  exact ⟨w, w', hw, hw', hp.1, of_decide_eq_true hp'⟩

end Messgr.Registration
