import Messgr.Dispatcher.Queue

/-!
# Cancellations

`cancel` answers `Cancelled` when it has marked the row of the queue, or found the message settled
as cancelled. A pass looks at the mark once, right before the provider call, in a statement of its
own: what is marked after that look is sent all the same. `cancellation_final` is the guarantee
that remains, for runs in which no pass is past its look when `cancel` answers; `Cancelled` is the
invariant that carries it.
-/

namespace Messgr

open List World

section
variable {w w' : World} {a : Act}

/-! ## What a step does with statuses and cancellations -/

/-- The act writes the final status of a message: a step of a pass at this write that takes effect.
-/
def World.Writes (w : World) (a : Act) (id : Uuid) (status : Status) : Prop :=
  ∃ t env job, a = .task t env ∧ w.job? t = some job ∧ job.id = id ∧
    job.stage.writes = some status ∧ env.reply ≠ .failed

/-- A request before and after a step: its status is the same, or was just written. -/
structure CommsRequest.Continues (w : World) (a : Act) (q q' : CommsRequest) : Prop where
  id : q.id = q'.id
  producerId : q.producerId = q'.producerId
  status : q.finalStatus = q'.finalStatus ∨
    ∃ status, w.Writes a q'.id status ∧ q'.finalStatus = some status

/-- The requests after a step continue requests before, or are new and queued. -/
theorem QueueStep.request_cases (hq : QueueStep w a w') {q' : CommsRequest}
    (hq' : q' ∈ w'.db.commsRequest) :
    (∃ q ∈ w.db.commsRequest, q.Continues w a q') ∨
      ((∀ q ∈ w.db.commsRequest, q.id ≠ q'.id) ∧ q'.finalStatus = none ∧
        ∃ r ∈ w'.db.outbox, r.commsRequestId = q'.id ∧ r.producerId = q'.producerId) := by
  have same : q' ∈ w.db.commsRequest → ∃ q ∈ w.db.commsRequest, q.Continues w a q' :=
    fun h => ⟨q', h, rfl, rfl, .inl rfl⟩
  cases hq with
  | frame outbox commsRequest commsEvent holds log quiet => exact .inl (same (commsRequest ▸ hq'))
  | inserted fresh db holds log =>
    rcases insertTransactional_ok db with ⟨hdb, -⟩ | ⟨-, hreq, hout, -⟩
    · exact .inl (same (hdb ▸ hq'))
    · rcases (hreq q').1 hq' with hq' | rfl
      · exact .inl (same hq')
      · exact .inr ⟨fresh, rfl, _, (hout _).2 (.inr rfl), rfl, rfl⟩
  | cancelled found db holds log | swept db holds log =>
    rw [db] at hq'
    exact .inl (same hq')
  | wasCancelled found db holds log | crashed db holds log => exact .inl (same (db ▸ hq'))
  | lost lookup pc reply unleased claimed holds log quiet
  | claimed lookup unleased claimed holds log quiet =>
    rw [claimed.db] at hq'
    exact .inl (same hq')
  | @passed t env cfg task job _ lookup head db holds log =>
    refine .inl ?_
    by_cases hreply : env.reply = .failed
    · rw [db, tryProcess_of_failed hreply] at hq'
      exact same hq'
    have written : ∀ {status providerRef providerStatus}, job.stage.writes = some status →
        q' ∈ (writeTerminal w.db env.clock job.row.createdAt job.row.commsRequestId
          job.row.customerId status providerRef providerStatus status).commsRequest →
        ∃ q ∈ w.db.commsRequest, q.Continues w (.task t env) q' := by
      intro status providerRef providerStatus hwrites h
      rcases mem_setFinalStatus.1 h with ⟨h, -⟩ | ⟨q, hq, hid, rfl⟩
      · exact same (by simpa using h)
      · exact ⟨q, by simpa using hq, rfl, rfl, .inr ⟨status, ⟨t, env, job, rfl,
          job?_eq_some.2 ⟨task, lookup, head⟩, hid.2.symm, hwrites, hreply⟩, rfl⟩⟩
    have hpass := @tryProcess_passStep cfg w.db job.row env job.stage
    rw [← db] at hpass
    generalize w'.db = db' at hpass hq'
    generalize hstage : job.stage = stage at hpass
    generalize (tryProcess cfg w.db job.row env stage).1 = next at hpass
    cases hpass with
    | goto | gaveUp | rescheduled => exact same hq'
    | recorded result => exact same (by simpa [recordEvent] using hq')
    | wrote | bounded => exact written (by rw [hstage]; rfl) hq'

/-- The status `sent` was there before the step, or a pass is at writing it. -/
theorem QueueStep.sent_cases (hq : QueueStep w a w') {q' : CommsRequest}
    (hq' : q' ∈ w'.db.commsRequest) (hf : q'.finalStatus = some .sent) :
    (∃ q ∈ w.db.commsRequest, q.id = q'.id ∧ q.finalStatus = some .sent) ∨
    ∃ t job providerRef providerStatus, w.Holds t job ∧ job.id = q'.id ∧
      job.stage = .terminal .sent providerRef providerStatus := by
  rcases hq.request_cases hq' with ⟨q, hqm, hcont⟩ | ⟨-, hnone, -⟩
  · rcases hcont.status with hsame | ⟨status, ⟨t, env, job, -, hjob, hid, hwrites, -⟩, hstatus⟩
    · exact .inl ⟨q, hqm, hcont.id, hsame.trans hf⟩
    · cases hstatus.symm.trans hf
      cases hstage : job.stage with
      | terminal status providerRef providerStatus =>
        rw [hstage] at hwrites
        cases hwrites
        exact .inr ⟨t, job, providerRef, providerStatus, holds_of_job? hjob, hid, hstage⟩
      | bounded write attempt =>
        rw [hstage] at hwrites
        cases write <;> cases hwrites
      | _ =>
        rw [hstage] at hwrites
        cases hwrites
  · rw [hf] at hnone
    cases hnone

/-- An answered cancellation is that of the statement just made, or an earlier one. -/
theorem QueueStep.cancelReturned_cases (hq : QueueStep w a w') {id : Uuid}
    (h : .cancelReturned id ∈ w'.log) :
    .cancelReturned id ∈ w.log ∨
    (∃ now producerId, a = .cancel now id producerId ∧
      (cancelOutbox w.db now id producerId).1 = true ∧
      w'.db = (cancelOutbox w.db now id producerId).2 ∧ ∀ t j, w'.Holds t j ↔ w.Holds t j) ∨
    ∃ producerId, a = .cancelFallback id producerId ∧
      cancelFallback w.db id producerId = .cancelled ∧
      w'.db = w.db ∧ ∀ t j, w'.Holds t j ↔ w.Holds t j := by
  have old : ∀ {obs : List Obs}, w'.log = w.log ++ obs → (∀ o ∈ obs, o.ofMessage = false) →
      .cancelReturned id ∈ w.log := by
    intro obs hlog hquiet
    rw [hlog] at h
    exact (mem_append.1 h).resolve_right fun ho => Bool.noConfusion (hquiet _ ho)
  cases hq with
  | frame outbox commsRequest commsEvent holds log quiet
  | lost lookup pc reply unleased claimed holds log quiet
  | claimed lookup unleased claimed holds log quiet => exact .inl (old log quiet)
  | inserted fresh db holds log | swept db holds log | crashed db holds log => exact .inl (log ▸ h)
  | cancelled found db holds log =>
    rw [log] at h
    rcases mem_append.1 h with h | h
    · exact .inl h
    · cases mem_singleton.1 h
      exact .inr (.inl ⟨_, _, rfl, found, db, holds⟩)
  | wasCancelled found db holds log =>
    rw [log] at h
    rcases mem_append.1 h with h | h
    · exact .inl h
    · cases mem_singleton.1 h
      exact .inr (.inr ⟨_, rfl, found, db, holds⟩)
  | passed lookup head db holds log =>
    rw [log] at h
    refine .inl ((mem_append.1 h).resolve_right fun h => ?_)
    obtain ⟨heq, -⟩ | ⟨status, heq⟩ := (passObs_cases h).2 <;> cases heq

end

/-! ## The guarantee -/

/-- Whether a pass over a message is past its look at the cancellation. -/
def World.committedTo (w : World) (id : Uuid) : Bool :=
  w.tasks.any fun task => task.pc.jobs.rows.any fun j => j.id = id && j.stage.committed

/-- A condition: when a statement of `cancel` answers `Cancelled`, no pass over the message
is past its look at the cancellation. -/
def cancelsBeforeCommit (w : World) : Act → Bool
  | .cancel now id producerId =>
    !(cancelOutbox w.db now id producerId).1 || !w.committedTo id
  | .cancelFallback id producerId =>
    cancelFallback w.db id producerId ≠ .cancelled || !w.committedTo id
  | _ => true

/-- A cancelled message: its row is marked while it is queued, no pass over it is past the look at
the mark, and it is not sent. -/
structure Cancelled (w : World) (id : Uuid) : Prop where
  known : ∃ q ∈ w.db.commsRequest, q.id = id
  row : ∀ r ∈ w.db.outbox, r.commsRequestId = id → r.cancelledAt.isSome = true
  pass : ∀ {t j}, w.Holds t j → j.id = id → j.stage.committed = false
  status : ∀ q ∈ w.db.commsRequest, q.id = id → q.finalStatus ≠ some .sent

section
variable {w w' : World} {a : Act} {id : Uuid}

theorem committed_of_holds (h : w.committedTo id = false) {t : Nat} {j : Job} (hj : w.Holds t j)
    (hid : j.id = id) : j.stage.committed = false := by
  obtain ⟨task, ht, hj⟩ := hj
  simp only [World.committedTo, List.any_eq_false, Bool.and_eq_true, decide_eq_true_eq, not_and,
    Bool.not_eq_true] at h
  simpa [hid] using h task (mem_of_getElem? ht) j hj

/-- What was cancelled stays so. -/
theorem Cancelled.step (h : Cancelled w id) (hs : w.Sound) (hq : QueueStep w a w') :
    Cancelled w' id := by
  obtain ⟨q, hqm, hqid⟩ := h.known
  refine ⟨?_, fun r' hr' hid => ?_, fun {t j} hj hid => ?_, fun q' hq' hid hf => ?_⟩
  · obtain ⟨q', hq', hid, -⟩ := (hs.db_step hq).2 q hqm
    exact ⟨q', hq', hid.trans hqid⟩
  · rcases hq.outbox_cases hr' with ⟨r, hr, hb⟩ | hnew
    · exact hb.cancelled (h.row r hr (hb.id.trans hid))
    · exact absurd (hqid.trans hid.symm) (hnew q hqm)
  · rcases hq.holds_cases hj with hj | ⟨_, _, _, _, kind, _, _, hfirst, -⟩ |
      ⟨cfg, env, job, stage, -, hjob, hgoto, rfl⟩
    · exact h.pass hj hid
    · rcases firstStage_cases with he | ⟨write, he⟩ <;> rw [hfirst, he] <;> rfl
    · -- a pass commits only when it finds the row and no mark on it
      by_contra hc
      rcases isCancelled_of_goto hgoto (by simpa using hc) with hc | hc
      · rw [h.pass (holds_of_job? hjob) hid] at hc
        cases hc
      · obtain ⟨r, hr, hnone⟩ := Option.map_eq_some_iff.1 hc
        obtain ⟨hr, hrid⟩ := Table.find?_some hr
        rw [h.row r hr (hrid.trans hid)] at hnone
        cases hnone
  · rcases hq.sent_cases hq' hf with ⟨q, hq, hqid, hf⟩ | ⟨t, job, _, _, hjob, hjid, hstage⟩
    · exact h.status q hq (hqid.trans hid) hf
    · have := h.pass hjob (hjid.trans hid)
      rw [hstage] at this
      cases this

/-- A message that `cancel` answers for is cancelled. -/
theorem cancelled_of_answer (hs : w.Sound) (hc : cancelsBeforeCommit w a = true)
    (hq : QueueStep w a w') (h : .cancelReturned id ∈ w'.log) (hn : .cancelReturned id ∉ w.log) :
    Cancelled w' id := by
  rcases hq.cancelReturned_cases h with h | ⟨now, producerId, rfl, hfound, hdb, hholds⟩ |
    ⟨producerId, rfl, hfound, hdb, hholds⟩
  · exact absurd h hn
  · have hnone : w.committedTo id = false := by simpa [cancelsBeforeCommit, hfound] using hc
    obtain ⟨o, ho, hid, hp⟩ := cancelOutbox_fst.1 hfound
    obtain ⟨q, hqm, hqid, -, -, hopen⟩ := hs.db.agrees.request o ho
    have hreq : w'.db.commsRequest = w.db.commsRequest := by rw [hdb]; rfl
    refine ⟨⟨q, hreq ▸ hqm, hqid.trans hid⟩, fun r hr hrid => ?_,
      fun hj => committed_of_holds hnone ((hholds _ _).1 hj), fun q' hq' hq'id => ?_⟩
    · rw [hdb] at hr
      rcases mem_cancelOutbox.1 hr with ⟨hr, hne⟩ | ⟨r0, -, -, rfl⟩
      · have := Table.eq_of_key hr ho (hrid.trans hid.symm)
        exact absurd ⟨hrid, this ▸ hp⟩ hne
      · rfl
    · have := hs.db.agrees.unique q' (hreq ▸ hq') q hqm (hq'id.trans (hqid.trans hid).symm)
      rw [this, hopen]
      simp
  · have hnone : w.committedTo id = false := by simpa [cancelsBeforeCommit, hfound] using hc
    obtain ⟨q, hqm, hqid, hf⟩ := cancelFallback_cancelled hfound
    have hset : w.db.Settled id := ⟨q, hqm, hqid, by simp [hf]⟩
    rw [← hdb] at hqm hset
    refine ⟨⟨q, hqm, hqid⟩, fun r hr hrid => ?_,
      fun hj => committed_of_holds hnone ((hholds _ _).1 hj), fun q' hq' hq'id => ?_⟩
    · exact absurd hrid ((hs.db_step hq).1.agrees.ne_of_settled hset hr)
    · rw [(hs.db_step hq).1.agrees.unique q' hq' q hqm (hq'id.trans hqid.symm), hf]
      simp

/-- Calls of the provider never follow the cancellation of their message. -/
def NoCallAfterCancel (log : List Obs) : Prop :=
  log.Pairwise fun x y => ∀ id p t n, x = .cancelReturned id → y ≠ .providerCall p t id n

/-- A step keeps that, when what was cancelled is. -/
theorem noCallAfterCancel_step (h : NoCallAfterCancel w.log)
    (hc : ∀ id, .cancelReturned id ∈ w.log → Cancelled w id) (hq : QueueStep w a w') :
    NoCallAfterCancel w'.log := by
  obtain ⟨obs, hlog, hobs, hcall⟩ := hq.log_cases
  rw [hlog]
  refine pairwise_append.2 ⟨h, ?_, fun x hx y hy id p t n hxid hyid => ?_⟩
  · rcases hobs with hquiet | ⟨o, rfl⟩
    · refine pairwise_of_forall_mem_list fun x hx y hy id p t n hxid => ?_
      rw [hxid] at hx
      exact Bool.noConfusion (hquiet _ hx)
    · exact pairwise_singleton _ _
  · -- the pass that makes a call is committed to it
    subst hxid hyid
    obtain ⟨job, hjob, hid, -, hstage⟩ := hcall p t id n hy
    have := (hc id hx).pass hjob hid
    rw [hstage] at this
    cases this

variable [UuidCrate]

/-- In every run in which `cancel` answers `Cancelled` only while no pass over the message is past
its look at the mark, no call of the provider for the message follows the answer, and the message is
never `sent`. -/
theorem cancellation_final {w0 : World} {as : List Act} (h0 : w0.Initial)
    (h : Run.Steps World.step (cancelsBeforeCommit · ·) w0 as w) :
    (w.log.Pairwise fun x y => ∀ id p t n, x = .cancelReturned id → y ≠ .providerCall p t id n) ∧
      ∀ id, .cancelReturned id ∈ w.log →
        ∀ q ∈ w.db.commsRequest, q.id = id → q.finalStatus ≠ some .sent := by
  have hinv : NoCallAfterCancel w.log ∧ ∀ id, .cancelReturned id ∈ w.log → Cancelled w id := by
    refine h.inv_of (J := World.Sound) (I := fun w => NoCallAfterCancel w.log ∧
      ∀ id, .cancelReturned id ∈ w.log → Cancelled w id)
      (fun _ _ _ _ hs h => h.of_step hs) ?_ h0.sound ?_
    · intro w a w' hc hs hsound ⟨hlog, hcan⟩
      have hq := queueStep_of_step hs
      refine ⟨noCallAfterCancel_step hlog hcan hq, fun id hid => ?_⟩
      by_cases hold : .cancelReturned id ∈ w.log
      · exact (hcan id hold).step hsound hq
      · exact cancelled_of_answer hsound hc hq hid hold
    · simp [NoCallAfterCancel, h0.log]
  exact ⟨hinv.1, fun id hid => (hinv.2 id hid).status⟩

end

/-- A dispatcher claims a message and takes it to its look at the cancellation. -/
def sampleClaimed : List Act :=
  [Act.startDispatcher .sample, .openContext] ++ Act.elect 0 ++ Act.accept 1 (.sample ⟨7⟩ "k") ++
    [Act.task 0 {}] ++ Act.claimRow 0 ⟨7⟩ ++ List.replicate 9 (Act.task 0 {})

/-- The message is cancelled before the look, and the pass goes to its end. -/
def cancelledInTime : List Act :=
  sampleClaimed ++ [Act.cancel 0 ⟨7⟩ ⟨2⟩] ++ List.replicate 2 (Act.task 0 {})

/-- The pass finds the mark, and no call follows. -/
theorem cancellation_final_cancelledInTime :
    ∃ w, Run.Steps (@World.step .sample) (cancelsBeforeCommit · ·) .empty cancelledInTime w ∧
      .cancelReturned ⟨7⟩ ∈ w.log ∧
      (w.db.commsRequest.rows.map fun q => (q.id, q.finalStatus)) = [(⟨7⟩, some .cancelled)] ∧
      (w.log.Pairwise fun x y =>
        ∀ id p t n, x = .cancelReturned id → y ≠ .providerCall p t id n) ∧
      ∀ q ∈ w.db.commsRequest, q.id = ⟨7⟩ → q.finalStatus ≠ some .sent := by
  obtain ⟨w, hw, hp⟩ := Run.Steps.exists_of_checked (@World.step .sample) cancelsBeforeCommit
    .empty cancelledInTime (fun w => .cancelReturned ⟨7⟩ ∈ w.log ∧
      (w.db.commsRequest.rows.map fun q => (q.id, q.finalStatus)) = [(⟨7⟩, some .cancelled)])
    (by decide)
  obtain ⟨hlog, hstatus⟩ := of_decide_eq_true hp
  obtain ⟨hcall, hfinal⟩ := @cancellation_final w .sample _ _ World.initial_empty hw
  exact ⟨w, hw, hlog, hstatus, hcall, hfinal _ hlog⟩

/-- The message is cancelled between the look and the call. -/
def cancelledTooLate : List Act :=
  sampleClaimed ++ [Act.task 0 {}, .cancel 0 ⟨7⟩ ⟨2⟩] ++ List.replicate 3 (Act.task 0 {})

/-- Without the condition a message is called for and sent after `cancel` answered `Cancelled`. -/
theorem sent_after_cancelledTooLate :
    ¬ ∀ (w0 w : World) (as : List Act), w0.Initial →
      Run.Steps (@World.step .sample) Run.Any w0 as w →
      (w.log.Pairwise fun x y =>
        ∀ id p t n, x = .cancelReturned id → y ≠ .providerCall p t id n) ∧
      ∀ id, .cancelReturned id ∈ w.log →
        ∀ q ∈ w.db.commsRequest, q.id = id → q.finalStatus ≠ some .sent := by
  intro h
  obtain ⟨w, hw, hp⟩ := Run.Steps.exists_of_exec (@World.step .sample) .empty cancelledTooLate
    (fun w => .cancelReturned ⟨7⟩ ∈ w.log ∧
      w.db.commsRequest.rows.any fun q => q.id = ⟨7⟩ ∧ q.finalStatus = some .sent) (by decide)
  obtain ⟨hlog, hsent⟩ := of_decide_eq_true hp
  obtain ⟨q, hq, hsent⟩ := List.any_eq_true.1 hsent
  obtain ⟨hid, hf⟩ := of_decide_eq_true hsent
  exact (h _ w _ World.initial_empty hw).2 ⟨7⟩ hlog q hq hid hf

end Messgr
