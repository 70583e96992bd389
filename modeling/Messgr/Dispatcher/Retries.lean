import Messgr.Dispatcher.Attempts

/-!
# The retries of a row

`try_process` takes the `attempts` of a row for the number of its failed calls, while every claim
counts them up. `Retries` is the world with the calls of the provider and the retryable failures of
each message.

`retries_counted`: the retryable failures of a message are backed off in their order, and none ends
it before the eighth call, while a row goes back to the queue only with as many failures as
claims. A deferral uses up an attempt without a call (`failed_after_one_call`). The invariant is
`InStep`.
-/

namespace Messgr

open Option World

/-- The pass has not had the answer of the provider, and can still come to it. -/
def Stage.unanswered : Stage → Bool
  | .terminal .. | .reschedule _ | .bounded .. => false
  | _ => true

/-- A pass before the answer was so a stage before, and at the call if it waits for the answer. -/
theorem unanswered_of_goto {cfg : Config} {db : TenantDb} {row : OutboxRow} {env : Env}
    {stage stage' : Stage} (h : (tryProcess cfg db row env stage).1 = .goto stage')
    (hu : stage'.unanswered = true) :
    stage.unanswered = true ∧ stage ≠ .sending ∧ (stage' = .sending → stage = .send) := by
  cases stage <;>
    simp only [tryProcess, Next.read, Next.write, Next.databaseError] at h <;>
    grind [Stage.unanswered]

/-- Nothing is written when the provider has answered. -/
theorem tryProcess_sending_db {cfg : Config} {db : TenantDb} {row : OutboxRow} {env : Env} :
    (tryProcess cfg db row env .sending).2 = db := by
  simp only [tryProcess]
  cases env.provider with
  | ok outcome => rfl
  | error e => dsimp only; split <;> rfl

/-! ## The system -/

/-- The answer of the provider is an error that is worth another attempt. -/
def Env.failsRetryably (env : Env) : Bool :=
  match env.provider with
  | .error e => e.isRetryable
  | .ok _ => false

/-- The world, the provider calls for each message and those that failed retryably. -/
structure Retries where
  world : World
  calls : Uuid → Nat
  failures : Uuid → Nat

/-- Nothing has been called yet. -/
def Retries.start (w : World) : Retries := ⟨w, fun _ => 0, fun _ => 0⟩

/-- The calls and the failures after an act. -/
def Retries.counted (s : Retries) : Act → (Uuid → Nat) × (Uuid → Nat)
  | .task t env =>
    match s.world.job? t with
    | some ⟨row, .send⟩ =>
      (Function.update s.calls row.commsRequestId (s.calls row.commsRequestId + 1), s.failures)
    | some ⟨row, .sending⟩ =>
      if env.failsRetryably then
        (s.calls, Function.update s.failures row.commsRequestId (s.failures row.commsRequestId + 1))
      else (s.calls, s.failures)
    | _ => (s.calls, s.failures)
  | _ => (s.calls, s.failures)

/-- Performs one act, if it can be performed. -/
def Retries.step [UuidCrate] (s : Retries) (a : Act) : Option Retries :=
  (s.world.step a).map fun w => ⟨w, (s.counted a).1, (s.counted a).2⟩

/-- The condition: a row goes back to the queue with as many retryable failures behind it
as claims. -/
def requeuesFailed (s : Retries) (a : Act) : Bool :=
  s.world.requeuesOnly (fun r => r.attempts = s.failures r.commsRequestId) a

/-- What an act counts: a call, a failure or nothing. -/
theorem counted_cases (s : Retries) (a : Act) :
    (∃ t env job, a = .task t env ∧ s.world.job? t = some job ∧ job.stage = .send ∧
      s.counted a = (Function.update s.calls job.id (s.calls job.id + 1), s.failures)) ∨
    (∃ t env job, a = .task t env ∧ s.world.job? t = some job ∧ job.stage = .sending ∧
      s.counted a = (s.calls, Function.update s.failures job.id (s.failures job.id + 1))) ∨
    (s.counted a = (s.calls, s.failures) ∧
      ∀ t env job, a = .task t env → s.world.job? t = some job → job.stage ≠ .send) := by
  cases a with
  | task t env =>
    cases hjob : s.world.job? t with
    | none =>
      refine .inr (.inr ⟨by simp [Retries.counted, hjob], ?_⟩)
      rintro _ _ job ⟨⟩ h
      cases hjob.symm.trans h
    | some job =>
      obtain ⟨row, stage⟩ := job
      cases stage with
      | send => exact .inl ⟨t, env, _, rfl, hjob, rfl, by simp [Retries.counted, hjob, Job.id]⟩
      | sending =>
        cases hf : env.failsRetryably with
        | true =>
          exact .inr (.inl ⟨t, env, _, rfl, hjob, rfl, by simp [Retries.counted, hjob, hf, Job.id]⟩)
        | false =>
          refine .inr (.inr ⟨by simp [Retries.counted, hjob, hf], ?_⟩)
          rintro _ _ job ⟨⟩ h
          cases hjob.symm.trans h
          exact Stage.noConfusion
      | _ =>
        refine .inr (.inr ⟨by simp [Retries.counted, hjob], ?_⟩)
        rintro _ _ job ⟨⟩ h
        cases hjob.symm.trans h
        exact Stage.noConfusion
  | _ => exact .inr (.inr ⟨rfl, by simp⟩)

/-! ## The invariant -/

/-- The counts of a pass without an answer: its claim is the one after the failures, its call is
made when it waits for the answer, and its row is as it was claimed while it is queued. -/
structure Retries.Unanswered (s : Retries) (j : Job) : Prop where
  attempts : j.row.attempts = s.failures j.id + 1
  calls : s.calls j.id = s.failures j.id + if j.stage = .sending then 1 else 0
  row : ∀ r ∈ s.world.db.outbox, r.commsRequestId = j.id →
    r.attempts = j.row.attempts ∧ r.leasedUntil ≠ none

/-- The counts are in step with the attempts. -/
structure Retries.InStep (s : Retries) : Prop where
  new : ∀ id, (∀ q ∈ s.world.db.commsRequest, q.id ≠ id) → s.calls id = 0 ∧ s.failures id = 0
  failed_le : ∀ id, s.failures id ≤ s.calls id
  calls_le : ∀ r ∈ s.world.db.outbox, s.calls r.commsRequestId ≤ r.attempts
  free : ∀ r ∈ s.world.db.outbox, r.leasedUntil = none → s.failures r.commsRequestId = r.attempts
  held : ∀ {t j}, s.world.Holds t j → j.stage.unanswered = true → s.Unanswered j
  one : ∀ {t t' j j'}, s.world.Holds t j → s.world.Holds t' j' → j.stage.unanswered = true →
    j'.stage.unanswered = true → j.id = j'.id → t = t'

theorem World.Unclaimed.inStep {w : World} (h : w.Unclaimed) : (Retries.start w).InStep where
  new _ _ := ⟨rfl, rfl⟩
  failed_le _ := Nat.le_refl _
  calls_le _ _ := Nat.zero_le _
  free r hr _ := (h.attempts r hr).symm
  held hj := absurd hj h.not_holds
  one hj := absurd hj h.not_holds

namespace Retries.InStep

variable {s : Retries} {w' : World} {a : Act} {t : Nat} {job : Job}

/-- A row that can be claimed has had as many calls as failures. -/
theorem calls_free (h : s.InStep) {r : OutboxRow} (hr : r ∈ s.world.db.outbox)
    (hfree : r.leasedUntil = none) : s.calls r.commsRequestId = r.attempts :=
  Nat.le_antisymm (h.calls_le r hr) (h.free r hr hfree ▸ h.failed_le _)

/-- The row of a pass without an answer keeps its lease, when only rows that failed go back. -/
theorem row_step (h : s.Unanswered job) (hs : s.world.Sound) (hq : QueueStep s.world a w')
    (hc : requeuesFailed s a = true) (hj : s.world.Holds t job) :
    ∀ r' ∈ w'.db.outbox, r'.commsRequestId = job.id →
      r'.attempts = job.row.attempts ∧ r'.leasedUntil ≠ none := by
  intro r' hr' hid
  cases hq.rowStep hr' with
  | kept old => exact h.row r' old hid
  | inserted fresh =>
    obtain ⟨q, hqm, hqid⟩ := hs.request_of_holds hj
    exact absurd (hqid.trans hid.symm) (fresh q hqm)
  | @cancelled r _ old => exact h.row r old hid
  | @claimed r _ old free => exact absurd free (h.row r old hid).2
  | @requeued r _ old back =>
    have hf : r.attempts = s.failures r.commsRequestId :=
      of_decide_eq_true (of_requeuesOnly hc old back)
    have hid' : r.commsRequestId = job.id := hid
    have := (h.row r old hid).1
    have := h.attempts
    rw [hid'] at hf
    omega

/-- A pass over a row that was just claimed. -/
theorem unanswered_of_claimed (h : s.InStep) {r : OutboxRow} (hr : r ∈ s.world.db.outbox)
    (hfree : r.leasedUntil = none) {leasedUntil : Time}
    (heq : job.row = { r with attempts := r.attempts + 1, leasedUntil := some leasedUntil })
    (hrow : job.row ∈ w'.db.outbox) (hne : job.stage ≠ .sending) :
    (Retries.mk w' s.calls s.failures).Unanswered job := by
  have hid : job.id = r.commsRequestId := by rw [Job.id, heq]
  refine ⟨?_, ?_, fun r' hr' hid' => ?_⟩
  · show job.row.attempts = s.failures job.id + 1
    rw [hid, h.free r hr hfree, heq]
  · show s.calls job.id = s.failures job.id + _
    rw [if_neg hne, hid, h.calls_free hr hfree, h.free r hr hfree]
    rfl
  · rw [Table.eq_of_key hr' hrow hid']
    exact ⟨rfl, by rw [heq]; exact some_ne_none _⟩

/-- A pass without an answer was there before the step, at its task, or is over a row just claimed.
-/
theorem unanswered_before (hq : QueueStep s.world a w') (hj : w'.Holds t job)
    (hu : job.stage.unanswered = true) :
    (∃ j0, s.world.Holds t j0 ∧ j0.stage.unanswered = true ∧ j0.id = job.id) ∨
      (∃ env, a = .task t env) ∧ ∃ r ∈ s.world.db.outbox, r.commsRequestId = job.id ∧
        r.leasedUntil = none := by
  rcases hq.holds_cases hj with hj | ⟨r0, hr0, _, _, kind, heq, -, -, hfree, ha⟩ |
    ⟨cfg, env, job, stage, -, hjob, hgoto, rfl⟩
  · exact .inl ⟨job, hj, hu, rfl⟩
  · exact .inr ⟨ha, r0, hr0, by rw [Job.id, heq]; rfl, hfree⟩
  · exact .inl ⟨job, holds_of_job? hjob, (unanswered_of_goto hgoto hu).1, rfl⟩

/-- A step that counts nothing. -/
theorem step_of_uncounted (h : s.InStep) (hs : s.world.Sound) (hq : QueueStep s.world a w')
    (hc : requeuesFailed s a = true)
    (hsend : ∀ t env job, a = .task t env → s.world.job? t = some job → job.stage ≠ .send) :
    (Retries.mk w' s.calls s.failures).InStep where
  new id hnew := by
    refine h.new id fun q hqm hqid => ?_
    obtain ⟨q', hq', hid, -⟩ := (hs.db_step hq).2 q hqm
    exact hnew q' hq' (hid.trans hqid)
  failed_le := h.failed_le
  calls_le r' hr' := by
    show s.calls r'.commsRequestId ≤ r'.attempts
    cases hq.rowStep hr' with
    | kept old => exact h.calls_le r' old
    | inserted fresh => exact Nat.le_of_eq (h.new _ fresh).1
    | @cancelled r _ old | @requeued r _ old back => exact h.calls_le r old
    | @claimed r _ old free => exact Nat.le_succ_of_le (h.calls_le r old)
  free r' hr' hfree := by
    show s.failures r'.commsRequestId = r'.attempts
    cases hq.rowStep hr' with
    | kept old => exact h.free r' old hfree
    | inserted fresh => exact (h.new _ fresh).2
    | @cancelled r _ old => exact h.free r old hfree
    | claimed old free => cases hfree
    | @requeued r _ old back =>
      exact (of_decide_eq_true (of_requeuesOnly (r := r) hc old back)).symm
  held {t j} hj hu := by
    rcases hq.holds_cases hj with hj | ⟨r0, hr0, _, _, kind, heq, hrow, hfirst, hfree, -⟩ |
      ⟨cfg, env, job, stage, ha, hjob, hgoto, rfl⟩
    · have hold := h.held hj hu
      exact ⟨hold.attempts, hold.calls, row_step hold hs hq hc hj⟩
    · refine h.unanswered_of_claimed hr0 hfree heq hrow ?_
      rcases @firstStage_cases kind _ _ with he | ⟨write, he⟩ <;> rw [hfirst, he] <;>
        exact Stage.noConfusion
    · obtain ⟨hu0, hne, hsending⟩ := unanswered_of_goto hgoto hu
      have hold := h.held (holds_of_job? hjob) hu0
      refine ⟨hold.attempts, ?_, @row_step _ _ _ _ job hold hs hq hc (holds_of_job? hjob)⟩
      have := hold.calls
      rw [if_neg hne] at this
      show s.calls job.id = s.failures job.id + _
      rw [if_neg fun h => hsend t env job ha hjob (hsending h), this]
  one {t t' j j'} hj hj' hu hu' hid := by
    rcases unanswered_before hq hj hu with
        ⟨j0, hj0, hu0, hid0⟩ | ⟨⟨env, ha⟩, r0, hr0, hrid, hfree⟩ <;>
      rcases unanswered_before hq hj' hu' with
        ⟨j0', hj0', hu0', hid0'⟩ | ⟨⟨env', ha'⟩, r0', hr0', hrid', hfree'⟩
    · exact h.one hj0 hj0' hu0 hu0' (hid0.trans (hid.trans hid0'.symm))
    · exact absurd hfree' ((h.held hj0 hu0).row r0' hr0' (hrid'.trans (hid.symm.trans hid0.symm))).2
    · exact absurd hfree ((h.held hj0' hu0').row r0 hr0 (hrid.trans (hid.trans hid0'.symm))).2
    · cases ha.symm.trans ha'
      rfl

/-- A step of a pass at the call or at the answer, with what it counts. -/
theorem step_of_counted (h : s.InStep) (hs : s.world.Sound) (hj : s.world.Holds t job)
    (hu : job.stage.unanswered = true) {s' : Retries} {next : Next} (hdb : s'.world.db = s.world.db)
    (holds : ∀ t' j, s'.world.Holds t' j ↔ (s.world.Holds t' j ∧ ¬ (t' = t ∧ j.id = job.id)) ∨
      (t' = t ∧ ∃ stage, next = .goto stage ∧ j = { job with stage := stage }))
    (hcalls : ∀ id ≠ job.id, s'.calls id = s.calls id)
    (hfailures : ∀ id ≠ job.id, s'.failures id = s.failures id)
    (hle : s'.failures job.id ≤ s'.calls job.id) (hbound : s'.calls job.id ≤ job.row.attempts)
    (hnext : ∀ stage, next = .goto stage → stage.unanswered = true →
      stage = .sending ∧ job.row.attempts = s'.failures job.id + 1 ∧
        s'.calls job.id = s'.failures job.id + 1) : s'.InStep := by
  have hrow := (h.held hj hu).row
  -- another pass without an answer is over another message
  have other : ∀ {t' j}, s.world.Holds t' j → ¬ (t' = t ∧ j.id = job.id) →
      j.stage.unanswered = true → j.id ≠ job.id :=
    fun hj' hne hu' hid => hne ⟨h.one hj' hj hu' hu hid, hid⟩
  constructor
  · intro id hnew
    have hne : id ≠ job.id := by
      obtain ⟨q, hqm, hqid⟩ := hs.request_of_holds hj
      exact fun hid => hnew q (hdb ▸ hqm) (hqid.trans hid.symm)
    rw [hcalls id hne, hfailures id hne]
    exact h.new id (hdb ▸ hnew)
  · intro id
    by_cases hid : id = job.id
    · exact hid ▸ hle
    · rw [hcalls id hid, hfailures id hid]
      exact h.failed_le id
  · intro r hr
    rw [hdb] at hr
    by_cases hid : r.commsRequestId = job.id
    · rw [hid, (hrow r hr hid).1]
      exact hbound
    · rw [hcalls _ hid]
      exact h.calls_le r hr
  · intro r hr hfree
    rw [hdb] at hr
    have hid : r.commsRequestId ≠ job.id := fun hid => (hrow r hr hid).2 hfree
    rw [hfailures _ hid]
    exact h.free r hr hfree
  · intro t' j hj' hu'
    rcases (holds t' j).1 hj' with ⟨hj', hne⟩ | ⟨rfl, stage, hgoto, rfl⟩
    · have hold := h.held hj' hu'
      have hid := other hj' hne hu'
      refine ⟨?_, ?_, hdb ▸ hold.row⟩
      · rw [hfailures _ hid]
        exact hold.attempts
      · rw [hcalls _ hid, hfailures _ hid]
        exact hold.calls
    · obtain ⟨rfl, hattempts, hcall⟩ := hnext stage hgoto hu'
      exact ⟨hattempts, hcall, hdb ▸ hrow⟩
  · intro t1 t2 j1 j2 hj1 hj2 hu1 hu2 hid
    rcases (holds t1 j1).1 hj1 with ⟨hj1, hne1⟩ | ⟨rfl, _, -, rfl⟩ <;>
      rcases (holds t2 j2).1 hj2 with ⟨hj2, hne2⟩ | ⟨rfl, _, -, rfl⟩
    · exact h.one hj1 hj2 hu1 hu2 hid
    · exact absurd hid (other hj1 hne1 hu1)
    · exact absurd hid.symm (other hj2 hne2 hu2)
    · rfl

variable [UuidCrate]

/-- Every step that meets the condition keeps the counts in step. -/
theorem step (h : s.InStep) (hs : s.world.Sound) {s' : Retries} (hstep : s.step a = some s')
    (hc : requeuesFailed s a = true) : s'.InStep := by
  obtain ⟨w', hw, rfl⟩ := map_eq_some_iff.1 hstep
  rcases counted_cases s a with ⟨t, env, job, rfl, hjob, hstage, hcount⟩ |
    ⟨t, env, job, rfl, hjob, hstage, hcount⟩ | ⟨hcount, hsend⟩
  · obtain ⟨cfg, hdb, holds, -⟩ := passed_of_step hw hjob
    have hj := holds_of_job? hjob
    have hu : job.stage.unanswered = true := by rw [hstage]; rfl
    obtain ⟨hattempts, hcalls, -⟩ := h.held hj hu
    rw [hstage] at hdb holds hcalls
    have hone : Function.update s.calls job.id (s.calls job.id + 1) job.id =
        s.failures job.id + 1 := by
      rw [Function.update_self, hcalls, if_neg Stage.noConfusion]
    rw [hcount]
    refine h.step_of_counted hs hj hu hdb holds (fun id hne => Function.update_of_ne hne _ _)
      (fun _ _ => rfl) (Nat.le_of_succ_le (Nat.le_of_eq hone.symm))
      (Nat.le_of_eq (hone.trans hattempts.symm)) ?_
    intro stage hgoto _
    cases hgoto
    exact ⟨rfl, hattempts, hone⟩
  · obtain ⟨cfg, hdb, holds, -⟩ := passed_of_step hw hjob
    have hj := holds_of_job? hjob
    have hu : job.stage.unanswered = true := by rw [hstage]; rfl
    obtain ⟨hattempts, hcalls, -⟩ := h.held hj hu
    rw [hstage] at hdb holds hcalls
    have hall : Function.update s.failures job.id (s.failures job.id + 1) job.id =
        s.calls job.id := by
      rw [Function.update_self, hcalls, if_pos rfl]
    rw [hcount]
    exact h.step_of_counted hs hj hu (hdb.trans tryProcess_sending_db) holds (fun _ _ => rfl)
      (fun id hne => Function.update_of_ne hne _ _) (Nat.le_of_eq hall)
      (Nat.le_of_eq (hcalls.trans hattempts.symm))
      (fun stage hgoto hu' => absurd rfl (unanswered_of_goto hgoto hu').2.1)
  · rw [hcount]
    exact h.step_of_uncounted hs (queueStep_of_step hw) hc hsend

end Retries.InStep

section
variable [UuidCrate] {w0 : World} {s s' : Retries} {as : List Act}

/-- The counts are in step in every run that meets the condition. -/
theorem inStep_of_steps (h0 : w0.Unclaimed)
    (h : Run.Steps Retries.step (requeuesFailed · ·) (.start w0) as s) : s.InStep := by
  refine h.inv_of (J := fun s => s.world.Sound) (fun s a s' _ hstep hs => ?_)
    (fun s a s' hc hstep hs hi => hi.step hs hstep hc) h0.sound h0.inStep
  obtain ⟨w', hw, rfl⟩ := map_eq_some_iff.1 hstep
  exact hs.of_step hw

/-- In every run from rows that were never claimed, in which a row goes back to the queue only with
as many failures as claims: a retryable failure ends its message as `failed` only if the provider
was called `MAX_SEND_ATTEMPTS` times for it, and is rescheduled otherwise, the `k`-th with the
`k`-th step of the backoff. -/
theorem retries_counted (h0 : w0.Unclaimed)
    (h : Run.Steps Retries.step (requeuesFailed · ·) (.start w0) as s) {t : Nat} {env : Env}
    {job : Job} {e : SenderError} (hjob : s.world.job? t = some job)
    (hstage : job.stage = .sending) (he : env.provider = .error e) (hr : e.isRetryable = true)
    (hstep : s.step (.task t env) = some s') :
    (s'.world.job? t = some { job with stage := .terminal .failed none (providerStatusOf e) } ∧
      maxSendAttempts ≤ s'.calls job.id) ∨
    s'.world.job? t = some { job with
      stage := .reschedule (env.clock + backoffDelay (s'.failures job.id) env.jitter) } := by
  have hu : job.stage.unanswered = true := by rw [hstage]; rfl
  obtain ⟨hattempts, hcalls, -⟩ := (inStep_of_steps h0 h).held (World.holds_of_job? hjob) hu
  obtain ⟨w', hw, rfl⟩ := Option.map_eq_some_iff.1 hstep
  obtain ⟨cfg, -, -, hnext⟩ := passed_of_step hw hjob
  have hcount : s.counted (.task t env) =
      (s.calls, Function.update s.failures job.id (s.failures job.id + 1)) := by
    obtain ⟨row, stage⟩ := job
    cases hstage
    simp [Retries.counted, hjob, Env.failsRetryably, he, hr]
  rw [hcount]
  rw [hstage, if_pos rfl] at hcalls
  simp only [hstage, tryProcess, he, hr, Bool.true_and, decide_eq_true_eq] at hnext
  by_cases hlt : job.row.attempts < maxSendAttempts
  · refine .inr (hnext _ ?_)
    rw [if_pos hlt, hattempts]
    simp only [Function.update_self]
  · refine .inl ⟨hnext _ (by rw [if_neg hlt]), ?_⟩
    show maxSendAttempts ≤ s.calls job.id
    omega

end

/-- The provider answers with 503. -/
def Env.unavailable : Env := { provider := .error (.provider 503 "") }

/-- The message is claimed and comes to the wait for the answer of the provider. -/
def untilAnswer (now : Time) : List Act :=
  [Act.task 0 {}, .task 0 {}, .task 0 { pick := .one ⟨7⟩, now := now }] ++
    List.replicate 10 (Act.task 0 {})

/-- The first call for the message has failed, and the second is made after its backoff. -/
def retriedOnce : List Act :=
  acceptedMarketing ++ untilAnswer 0 ++ [Act.task 0 .unavailable, .task 0 {}, .task 0 {}] ++
    untilAnswer (60 * 1000 * millisecond)

/-- The second failure of a message is backed off with the second step. -/
theorem retries_counted_second :
    ∃ (s s' : Retries) (job : Job),
      Run.Steps (@Retries.step .sample) (requeuesFailed · ·) (.start .empty) retriedOnce s ∧
      s.world.job? 0 = some job ∧ job.stage = .sending ∧
      @Retries.step .sample s (.task 0 .unavailable) = some s' ∧ s'.failures job.id = 2 ∧
      s'.world.job? 0 = some { job with stage := .reschedule (0 + backoffDelay 2 0) } := by
  obtain ⟨s, h, hp⟩ := Run.Steps.exists_of_checked (@Retries.step .sample) requeuesFailed
    (.start .empty) retriedOnce
    (fun s => (s.world.job? 0).any fun job => job.stage = .sending &&
      (@Retries.step .sample s (.task 0 .unavailable)).any fun s' =>
        s'.failures job.id = 2 && s'.calls job.id = 2) (by decide +kernel)
  simp only [Option.any_eq_true, Bool.and_eq_true, decide_eq_true_eq] at hp
  obtain ⟨job, hjob, hstage, s', hs', htwo, hcalls⟩ := hp
  refine ⟨s, s', job, h, hjob, hstage, hs', htwo, ?_⟩
  rcases @retries_counted .sample _ _ _ _ World.unclaimed_empty h _ _ _ _ hjob hstage rfl rfl hs'
    with ⟨-, hmax⟩ | hback
  · rw [hcalls] at hmax
    exact absurd hmax (by decide)
  · rwa [htwo] at hback

/-- Without the condition a message deferred seven times is `failed` after one call. -/
theorem failed_after_one_call :
    ∃ (s s' : Retries) (as : List Act) (job : Job),
      Run.Steps (@Retries.step .sample) Run.Any (.start .empty) as s ∧
      s.world.job? 0 = some job ∧ job.stage = .sending ∧
      @Retries.step .sample s (.task 0 .unavailable) = some s' ∧
      s'.world.job? 0 = some { job with stage := .terminal .failed none (some "503") } ∧
      s'.calls job.id = 1 := by
  obtain ⟨s, h, hp⟩ := Run.Steps.exists_of_exec (@Retries.step .sample) (.start .empty)
    (acceptedMarketing ++ (List.replicate 7 deferral).flatten ++ untilAnswer 0)
    (fun s => (s.world.job? 0).any fun job => job.stage = .sending &&
      (@Retries.step .sample s (.task 0 .unavailable)).any fun s' =>
        s'.world.job? 0 = some { job with stage := .terminal .failed none (some "503") } &&
          s'.calls job.id = 1) (by decide +kernel)
  simp only [Option.any_eq_true, Bool.and_eq_true, decide_eq_true_eq] at hp
  obtain ⟨job, hjob, hstage, s', hs', hfailed, hcalls⟩ := hp
  exact ⟨s, s', _, job, h, hjob, hstage, hs', hfailed, hcalls⟩

end Messgr
