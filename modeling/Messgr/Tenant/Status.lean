import Messgr.Tenant.ProvisionSteps

/-!
# The status of a tenant

Calls of `provision_tenant`, of the suspend handler and of `destroy_tenant`, one after another, each
of which may fail at any step. Every one of them writes the status at its end without looking at it:
`provision_tenant` makes a suspended or a destroyed tenant active, and a suspend makes a destroyed
one suspended (`status_not_one_way`). As long as no such call is started, the status is a one-way
machine (`status_one_way`).
-/

namespace Messgr.Provision

/-- The calls. -/
inductive Input
  | provision (inp : Inputs)
  | suspend (tenantId : Uuid) (actor : String)
  | destroy (tenantId : Uuid) (actor : String)
deriving DecidableEq

/-- What they return. -/
inductive Outcome
  | provisioned (outcome : ProvisionOutcome)
  | suspended (found : Bool)
  | destroyed
deriving DecidableEq

def call : Input → Program Outcome
  | .provision inp => do
    let outcome ← provisionTenant inp
    pure (.provisioned outcome)
  | .suspend tenantId actor => do
    let found ← suspend tenantId actor
    pure (.suspended found)
  | .destroy tenantId actor => do
    destroyTenant tenantId actor
    pure .destroyed

abbrev World := Serial Registry Input Stmt.Answer ProvisionError Outcome

abbrev Act := Serial.Act Input Stmt.Answer

/-- One act: a call starts, its next statement is made, or it ends. -/
def step : World → Act → Option World := Serial.step call exec

/-- The call under way is one of `provision_tenant`. -/
def provisioning (w : World) : Bool :=
  w.current.any fun c => match c.input with
    | .provision _ => true
    | _ => false

/-- The call is not one of `provision_tenant` for a suspended or a destroyed tenant, nor a suspend
of a destroyed one. -/
def Registry.mayCall (s : Registry) : Input → Bool
  | .provision inp =>
    s.foundStatus inp.slug ≠ .suspended && s.foundStatus inp.slug ≠ .offboardingDestroy
  | .suspend tenantId _ => s.status tenantId ≠ some .offboardingDestroy
  | .destroy _ _ => true

/-- The condition: only such calls start. -/
def respectsStatus (w : World) : Act → Bool
  | .start i => w.shared.mayCall i
  | _ => true

/-! ## Along a call -/

/-- What the calls are at each statement. -/
def Writes : Input → Registry → Stmt → Registry → Prop
  | .provision inp, s0, q, s => Provisions inp s0 q s
  | .suspend tenantId actor, s0, q, s => q = .suspend tenantId actor ∧ s = s0
  | .destroy _ _, _, q, _ => Destroys q

theorem always_call (i : Input) (s : Registry) :
    Prog.Always exec (Writes i s) True (fun _ _ => True) (call i) s := by
  cases i with
  | provision inp => exact (always_provisionTenant inp s).bind fun _ _ _ => trivial
  | suspend tenantId actor =>
    exact .bind (P := fun _ _ => True) (.stmt ⟨rfl, rfl⟩ fun _ _ _ => trivial) fun _ _ _ => trivial
  | destroy tenantId actor =>
    exact ((makes_destroyTenant actor).always (K := fun _ => True) (fun _ _ hq _ => hq)
      (fun _ _ _ _ _ _ _ => trivial) trivial).bind fun _ _ _ => trivial

/-! ## One step -/

section
variable {w w' : World} {a : Act} {id : Uuid}

/-- The call under way might start, and makes the statements of its kind. -/
structure Holds (w : World) : Prop where
  writes : Serial.Holds exec Writes (fun _ _ _ _ => True) w
  started : w.Started fun i s => s.mayCall i = true

theorem Holds.step (h : Holds w) (hc : respectsStatus w a = true) (hs : step w a = some w') :
    Holds w' where
  writes := h.writes.step always_call hs
  started := h.started.step (fun _ ha => by subst ha; exact hc) hs

/-- What a step does to a tenant's status: a mark of the call, a suspend, or a new tenant. -/
theorem step_status (hs : step w a = some w') (id : Uuid) :
    w'.shared.status id = w.shared.status id ∨ w.shared.status id = none ∨
      ∃ c q r k, a = .answer q r ∧ w.current = some c ∧ c.prog = .call q k ∧
        ((∃ st, q = .markStatus id st ∧
            w'.shared.status id = (w.shared.status id).map fun _ => st) ∨
          ∃ actor, q = .suspend id actor ∧
            w'.shared.status id = (w.shared.status id).map fun _ => .suspended) := by
  cases a with
  | start i =>
    obtain ⟨-, rfl⟩ := Serial.step_start hs
    exact .inl rfl
  | stop =>
    obtain ⟨c, -, rfl⟩ := Serial.step_stop hs
    exact .inl rfl
  | answer q r =>
    obtain ⟨c, k, s, hc, hk, hx, rfl⟩ := Serial.step_answer hs
    rcases exec_status hx id with h | h | h | ⟨t, -, h⟩
    · exact .inl h
    · exact .inr (.inr ⟨c, q, r, k, rfl, hc, hk, .inl h⟩)
    · exact .inr (.inr ⟨c, q, r, k, rfl, hc, hk, .inr h⟩)
    · exact .inr (.inl h)

/-- A call of `provision_tenant` leaves a suspended and a destroyed tenant as they are. -/
theorem provisioning_step {st : TenantStatus} (hw : Holds w) (hs : step w a = some w')
    (hp : provisioning w = true) (h : w.shared.status id = some st)
    (hst : st = .suspended ∨ st = .offboardingDestroy) : w'.shared.status id = some st := by
  rcases step_status hs id with heq | hnone | ⟨c, q, r, k, rfl, hcur, hk, hq⟩
  · rw [heq, h]
  · rw [h] at hnone
    cases hnone
  have hat := hw.writes.at hcur hk
  have hmay := hw.started c hcur
  cases hi : c.input with
  | provision inp =>
    rw [hi] at hat hmay
    rcases hq with ⟨st', rfl, -⟩ | ⟨actor, rfl, -⟩
    · obtain ⟨-, hfound⟩ := hat.marks id st' rfl
      rw [h, Option.some.injEq] at hfound
      rcases hst with rfl | rfl <;> simp [Registry.mayCall, ← hfound] at hmay
    · exact absurd rfl (hat.suspends id actor)
  | suspend | destroy => simp [provisioning, hcur, hi] at hp

/-- A destroyed tenant stays destroyed. -/
theorem destroyed_step (hw : Holds w) (hs : step w a = some w')
    (h : w.shared.status id = some .offboardingDestroy) :
    w'.shared.status id = some .offboardingDestroy := by
  by_cases hp : provisioning w = true
  · exact provisioning_step hw hs hp h (.inr rfl)
  rcases step_status hs id with heq | hnone | ⟨c, q, r, k, rfl, hcur, hk, hq⟩
  · rw [heq, h]
  · rw [h] at hnone
    cases hnone
  have hat := hw.writes.at hcur hk
  have hmay := hw.started c hcur
  cases hi : c.input with
  | provision inp => simp [provisioning, hcur, hi] at hp
  | suspend tenantId actor =>
    rw [hi] at hat hmay
    obtain ⟨rfl, hstart⟩ := hat
    rcases hq with ⟨st, hq, -⟩ | ⟨actor', hq, -⟩
    · cases hq
    · cases hq
      simp [Registry.mayCall, ← hstart, h] at hmay
  | destroy tenantId actor =>
    rw [hi] at hat
    rcases hq with ⟨st, rfl, heq⟩ | ⟨actor', rfl, -⟩
    · rw [heq, h, hat.marks id st rfl]
      rfl
    · exact absurd rfl (hat.suspends id actor')

theorem provisioning_answer {q : Stmt} {r : q.Answer} (hs : step w (.answer q r) = some w')
    (hp : provisioning w = true) : provisioning w' = true := by
  obtain ⟨c, k, s, hc, -, -, rfl⟩ := Serial.step_answer hs
  rw [provisioning, hc] at hp
  exact hp

end

/-! ## Whole runs -/

/-- In every run in which `provision_tenant` is not called for a suspended or a destroyed tenant and
no destroyed tenant is suspended, a destroyed tenant stays destroyed, and a call of
`provision_tenant` leaves a suspended tenant suspended. -/
theorem status_one_way (s0 : Registry) (as bs : List Act) (w w' : World)
    (h : Run.Steps step (respectsStatus · ·) (Serial.idle s0) as w)
    (h' : Run.Steps step (respectsStatus · ·) w bs w') (id : Uuid) :
    (w.shared.status id = some .offboardingDestroy →
      w'.shared.status id = some .offboardingDestroy) ∧
    ((∀ a ∈ bs, ∃ q r, a = .answer q r) → provisioning w = true →
      w.shared.status id = some .suspended → w'.shared.status id = some .suspended) := by
  have hw : Holds w := h.inv (fun _ _ _ hc hs hw => hw.step hc hs) ⟨.idle s0, nofun⟩
  clear h
  induction h' with
  | nil => exact ⟨fun h => h, fun _ _ h => h⟩
  | @cons w v w' a bs hc hs _ ih =>
    obtain ⟨hdestroyed, hsuspended⟩ := ih (hw.step hc hs)
    refine ⟨fun h => hdestroyed (destroyed_step hw hs h), fun hall hp h => ?_⟩
    obtain ⟨q, r, rfl⟩ := hall a List.mem_cons_self
    exact hsuspended (fun b hb => hall b (.tail _ hb)) (provisioning_answer hs hp)
      (provisioning_step hw hs hp h (.inl rfl))

/-! ## Fixed runs -/

/-- The acts of calls from a state, with the sample answers. -/
def acts (calls : List (Input × Nat)) (w : World) : List Act :=
  Serial.calls call exec sampleReply calls w

/-- Calls on a new control database, and calls after them. -/
theorem exists_runs (c : World → Act → Bool) (before after : List (Input × Nat))
    (p : World → World → Bool)
    (h : ((Run.exec (fun w a => if c w a then step w a else none) (Serial.idle Registry.empty)
        (acts before (Serial.idle Registry.empty))).any fun w =>
      (Run.exec (fun w a => if c w a then step w a else none) w (acts after w)).any (p w)) = true) :
    ∃ w w', Run.Steps step (c · ·) (Serial.idle Registry.empty)
        (acts before (Serial.idle Registry.empty)) w ∧
      Run.Steps step (c · ·) w (acts after w) w' ∧ p w w' = true := by
  obtain ⟨w, hw, h⟩ := Run.Steps.exists_of_checked step c _ _ _ h
  obtain ⟨w', hw', hp⟩ := Run.Steps.exists_of_checked step c _ _ _ h
  exact ⟨w, w', hw, hw', hp⟩

/-- The id of the tenant in the runs. -/
abbrev acme : Uuid := ⟨1⟩

/-- A destroyed tenant stays destroyed through a `destroy_tenant` that fails on its way and another
one. -/
theorem status_one_way_destroyed :
    ∃ as bs w w', Run.Steps step (respectsStatus · ·) (Serial.idle Registry.empty) as w ∧
      Run.Steps step (respectsStatus · ·) w bs w' ∧
      w.shared.status acme = some .offboardingDestroy ∧
      w'.ended.length = 4 ∧ w'.shared.status acme = some .offboardingDestroy := by
  obtain ⟨w, w', h, h', hp⟩ := exists_runs respectsStatus
    [(.provision sampleInputs, 40), (.destroy acme "operator", 40)]
    [(.destroy acme "operator", 3), (.destroy acme "operator", 40)]
    (fun w w' => w.shared.status acme = some .offboardingDestroy && w'.ended.length = 4)
    (by decide +kernel)
  simp only [Bool.and_eq_true, decide_eq_true_eq] at hp
  exact ⟨_, _, w, w', h, h', hp.1, hp.2, (status_one_way Registry.empty _ _ w w' h h' acme).1 hp.1⟩

/-- After the calls of the first list the tenant has the status `st`, and after those of the second
one the status `st'`. -/
def Turns (before after : List (Input × Nat)) (st st' : TenantStatus) : Prop :=
  ∃ w w', Run.Steps step Run.Any (Serial.idle Registry.empty)
      (acts before (Serial.idle Registry.empty)) w ∧
    Run.Steps step Run.Any w (acts after w) w' ∧
    w.shared.status acme = some st ∧ w'.shared.status acme = some st'

theorem Turns.of_checked {before after : List (Input × Nat)} {st st' : TenantStatus}
    (h : ((Run.exec (fun w a => if (fun _ _ => true) w a then step w a else none)
        (Serial.idle Registry.empty) (acts before (Serial.idle Registry.empty))).any fun w =>
      (Run.exec (fun w a => if (fun _ _ => true) w a then step w a else none) w
        (acts after w)).any fun w' =>
          w.shared.status acme = some st && w'.shared.status acme = some st') = true) :
    Turns before after st st' := by
  obtain ⟨w, w', hw, hw', hp⟩ := exists_runs (fun _ _ => true) before after _ h
  simp only [Bool.and_eq_true, decide_eq_true_eq] at hp
  exact ⟨w, w', hw.mono fun _ _ _ => trivial, hw'.mono fun _ _ _ => trivial, hp⟩

/-- A call of `provision_tenant` makes a suspended and a destroyed tenant active, and a suspend
makes a destroyed one suspended. -/
theorem status_not_one_way :
    Turns [(.provision sampleInputs, 40), (.suspend acme "operator", 40)]
      [(.provision sampleInputs, 40)] .suspended .active ∧
    Turns [(.provision sampleInputs, 40), (.destroy acme "operator", 40)]
      [(.provision sampleInputs, 40)] .offboardingDestroy .active ∧
    Turns [(.provision sampleInputs, 40), (.destroy acme "operator", 40)]
      [(.suspend acme "operator", 40)] .offboardingDestroy .suspended :=
  ⟨.of_checked (by decide +kernel), .of_checked (by decide +kernel),
    .of_checked (by decide +kernel)⟩

end Messgr.Provision
