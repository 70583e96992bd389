import Messgr.Dispatcher.Steps
import Messgr.KillSwitch.Scopes
import Messgr.Tenant.Ledger

/-!
# What a step does with the queue

The processes meet in the outbox. `QueueStep` says what each act does with the tables of messages,
with the rows that tasks hold and with the log, and `queueStep_of_step` that every step is one of
these. `World.Sound` is what holds in every run: the ledger and the queue agree, and the rows that
tasks hold have their requests.
-/

namespace Messgr

open List Option Table World TenantDb

/-! ## Rows that tasks hold -/

/-- A task has claimed the row of a job and has not finished it. -/
def World.Holds (w : World) (t : Nat) (j : Job) : Prop :=
  ∃ task, w.tasks[t]? = some task ∧ j ∈ task.pc.jobs

/-- The job that a task is at. -/
def World.job? (w : World) (t : Nat) : Option Job := w.tasks[t]?.bind (·.pc.jobs.rows.head?)

/-- The messages a task holds. -/
def World.heldIds (w : World) (t : Nat) : List Uuid :=
  ((w.tasks[t]?.map fun task => task.pc.jobs.rows) |>.getD []).map Job.id

section
variable {w w' : World} {t t' : Nat} {task : Task} {j job : Job} {jobs : Jobs}

theorem World.job?_eq_some : w.job? t = some job ↔
    ∃ task, w.tasks[t]? = some task ∧ task.pc.jobs.rows.head? = some job :=
  bind_eq_some_iff

theorem World.holds_of_job? (h : w.job? t = some job) : w.Holds t job := by
  obtain ⟨task, ht, hj⟩ := job?_eq_some.1 h
  exact ⟨task, ht, mem_of_mem_head? hj⟩

theorem mem_heldIds {id : Uuid} : id ∈ w.heldIds t ↔ ∃ j, w.Holds t j ∧ j.id = id := by
  simp only [World.heldIds, World.Holds, List.mem_map]
  cases w.tasks[t]? <;> simp [Table.mem_def]

/-- The jobs after one task moved. -/
theorem holds_set (ht : w.tasks[t]? = some task) {pc : Pc}
    (hw : w'.tasks = w.tasks.set t { task with pc := pc }) :
    w'.Holds t' j ↔ (t' = t ∧ j ∈ pc.jobs) ∨ (t' ≠ t ∧ w.Holds t' j) := by
  have hlt : t < w.tasks.length := (List.getElem?_eq_some_iff.1 ht).1
  by_cases h : t' = t
  · subst h
    simp [World.Holds, hw, hlt]
  · simp [World.Holds, hw, h, Ne.symm h]

/-- The jobs after a task moved that had none and has none. -/
theorem holds_set_of_empty (ht : w.tasks[t]? = some task) {pc : Pc} (h : task.pc.jobs = ∅)
    (h' : pc.jobs = ∅) (hw : w'.tasks = w.tasks.set t { task with pc := pc }) :
    w'.Holds t' j ↔ w.Holds t' j := by
  rw [holds_set ht hw, h']
  by_cases heq : t' = t
  · subst heq
    simp [World.Holds, ht, h]
  · simp [heq]

/-- A new task holds nothing. -/
theorem holds_spawn {new : List Task} (hnew : ∀ task ∈ new, task.pc.jobs = ∅)
    (hw : w'.tasks = w.tasks ++ new) : w'.Holds t j ↔ w.Holds t j := by
  unfold World.Holds
  rw [hw]
  constructor
  · intro ⟨task, ht, hj⟩
    rw [getElem?_append] at ht
    split at ht
    · exact ⟨task, ht, hj⟩
    · exact absurd (hnew task (mem_of_getElem? ht) ▸ hj) (not_mem_empty j)
  · intro ⟨task, ht, hj⟩
    have hlt : t < w.tasks.length := (List.getElem?_eq_some_iff.1 ht).1
    exact ⟨task, by rwa [getElem?_append_left hlt], hj⟩

/-- A batch after a step of a pass: the other rows, and that row at its next stage unless the pass
ended. -/
theorem mem_nextJobs {next : Next} (hjob : job ∈ jobs) :
    j ∈ next.jobs jobs job ↔
      (j ∈ jobs ∧ j.id ≠ job.id) ∨
        ∃ stage, next = .goto stage ∧ j = { job with stage := stage } := by
  cases next with
  | goto stage =>
    simp only [Next.jobs, mem_update, decide_eq_true_eq, decide_eq_false_iff_not,
      Next.goto.injEq, exists_eq_left']
    refine or_congr_right ⟨fun h => ?_, fun hj => ⟨job, hjob, rfl, hj⟩⟩
    obtain ⟨a, ha, hid, hj⟩ := h
    rwa [eq_of_key ha hjob hid] at hj
  | ended result => simp [Next.jobs]

/-- A batch after a step of the pass over its first row. -/
theorem rows_nextJobs {rest : List Job} (head : jobs.rows = job :: rest) (next : Next) :
    (next.jobs jobs job).rows =
      match next with
      | .goto stage => { job with stage := stage } :: rest
      | .ended _ => rest := by
  have hn := jobs.nodup
  rw [head, map_cons, nodup_cons] at hn
  have hne : ∀ j ∈ rest, j.id ≠ job.id := fun j hj heq => hn.1 (heq ▸ mem_map_of_mem hj)
  cases next with
  | goto stage =>
    show Table.updateRows _ _ jobs.rows = _
    rw [head, Table.updateRows, map_cons]
    refine congrArg₂ List.cons (by simp) ((map_congr_left fun j hj => ?_).trans (map_id _))
    simp [hne j hj]
  | ended result =>
    show List.filter _ jobs.rows = _
    rw [head, filter_cons_of_neg (by simp)]
    exact filter_eq_self.2 fun j hj => by simp [hne j hj]

/-- The jobs after a step of a pass. -/
theorem holds_passed {next : Next} (hjob : job ∈ jobs)
    (lookup : w.tasks[t]? = some task) (pc : task.pc = .working jobs)
    (hw : w'.tasks = w.tasks.set t { task with pc := .working (next.jobs jobs job) }) (t' : Nat)
    (j : Job) :
    w'.Holds t' j ↔ (w.Holds t' j ∧ ¬ (t' = t ∧ j.id = job.id)) ∨
      (t' = t ∧ ∃ stage, next = .goto stage ∧ j = { job with stage := stage }) := by
  rw [holds_set lookup hw]
  show (t' = t ∧ j ∈ next.jobs jobs job) ∨ _ ↔ _
  rw [mem_nextJobs hjob]
  have hold : w.Holds t j ↔ j ∈ jobs := by
    simp [World.Holds, lookup, pc, Pc.jobs]
  by_cases ht : t' = t
  · subst ht
    simp [hold]
  · simp [ht]

/-- The rows of a batch are those that were claimed, at their first stage. -/
theorem mem_batch {kind : TaskKind} {clock : Time} {rows : OutboxRows} :
    j ∈ kind.batch clock rows ↔ j.row ∈ rows ∧ j.stage = kind.firstStage clock j.row := by
  simp only [TaskKind.batch, Table.mem_map]
  constructor
  · rintro ⟨row, hrow, rfl⟩
    exact ⟨hrow, rfl⟩
  · rintro ⟨hrow, hstage⟩
    exact ⟨j.row, hrow, by rw [← hstage]⟩

end

/-! ## Steps, as the queue sees them -/

/-- The entries of the log that tell what became of a message. -/
def Obs.ofMessage : Obs → Bool
  | .providerCall .. | .cancelReturned _ => true
  | _ => false

/-- What an act does with the tables of messages, the rows that tasks hold and the log: mostly
nothing (`frame`). -/
inductive QueueStep (w : World) : Act → World → Prop
  | frame {a : Act} {w' : World} {obs : List Obs} (outbox : w'.db.outbox = w.db.outbox)
      (commsRequest : w'.db.commsRequest = w.db.commsRequest)
      (commsEvent : w'.db.commsEvent = w.db.commsEvent)
      (holds : ∀ t j, w'.Holds t j ↔ w.Holds t j)
      (log : w'.log = w.log ++ obs) (quiet : ∀ o ∈ obs, o.ofMessage = false) : QueueStep w a w'
  | inserted {now : Time} {c : NewComms} {outcome : InsertOutcome} {w' : World}
      (fresh : ∀ r ∈ w.db.commsRequest, r.id ≠ c.commsRequestId)
      (db : insertTransactional w.db now c = .ok (outcome, w'.db))
      (holds : ∀ t j, w'.Holds t j ↔ w.Holds t j) (log : w'.log = w.log) :
      QueueStep w (.insert now c) w'
  | cancelled {now : Time} {id producerId : Uuid} {w' : World}
      (found : (cancelOutbox w.db now id producerId).1 = true)
      (db : w'.db = (cancelOutbox w.db now id producerId).2)
      (holds : ∀ t j, w'.Holds t j ↔ w.Holds t j) (log : w'.log = w.log ++ [.cancelReturned id]) :
      QueueStep w (.cancel now id producerId) w'
  | wasCancelled {id producerId : Uuid} {w' : World}
      (found : cancelFallback w.db id producerId = .cancelled) (db : w'.db = w.db)
      (holds : ∀ t j, w'.Holds t j ↔ w.Holds t j) (log : w'.log = w.log ++ [.cancelReturned id]) :
      QueueStep w (.cancelFallback id producerId) w'
  | swept {p : Nat} {w' : World} (db : w'.db = clearStaleLeases w.db)
      (holds : ∀ t j, w'.Holds t j ↔ w.Holds t j) (log : w'.log = w.log) : QueueStep w (.sweep p) w'
  | crashed {h : Nat} {w' : World} (db : w'.db = w.db)
      (holds : ∀ t j, w'.Holds t j ↔ w.Holds t j ∧ ¬ ∃ task ∈ w.tasks[t]?, task.owner = h)
      (log : w'.log = w.log) : QueueStep w (.crash h) w'
  | lost {t : Nat} {env : Env} {eligible : OutboxRow → Bool} {leasedUntil : Time}
      {rows : OutboxRows} {w' : World} {obs : List Obs} {task : Task}
      {exclusion : ChannelExclusion} (lookup : w.tasks[t]? = some task)
      (pc : task.pc = .claiming leasedUntil exclusion) (reply : env.reply = .lost)
      (unleased : ∀ r, eligible r = true → r.leasedUntil = none)
      (claimed : Claimed w.db eligible leasedUntil env.pick.ids rows w'.db)
      (holds : ∀ t j, w'.Holds t j ↔ w.Holds t j)
      (log : w'.log = w.log ++ obs) (quiet : ∀ o ∈ obs, o.ofMessage = false) :
      QueueStep w (.task t env) w'
  | claimed {t : Nat} {env : Env} {eligible : OutboxRow → Bool} {leasedUntil : Time}
      {rows : OutboxRows} {w' : World} {obs : List Obs} {task : Task}
      (lookup : w.tasks[t]? = some task)
      (unleased : ∀ r, eligible r = true → r.leasedUntil = none)
      (claimed : Claimed w.db eligible leasedUntil env.pick.ids rows w'.db)
      (holds : ∀ t' j, w'.Holds t' j ↔
        w.Holds t' j ∨ (t' = t ∧ j.row ∈ rows ∧ j.stage = task.kind.firstStage env.clock j.row))
      (log : w'.log = w.log ++ obs) (quiet : ∀ o ∈ obs, o.ofMessage = false) :
      QueueStep w (.task t env) w'
  | passed {t : Nat} {env : Env} {cfg : Config} {task : Task} {job : Job} {w' : World}
      (lookup : w.tasks[t]? = some task) (head : task.pc.jobs.rows.head? = some job)
      (db : w'.db = (tryProcess cfg w.db job.row env job.stage).2)
      (holds : ∀ t' j, w'.Holds t' j ↔ (w.Holds t' j ∧ ¬ (t' = t ∧ j.id = job.id)) ∨
        (t' = t ∧ ∃ stage, (tryProcess cfg w.db job.row env job.stage).1 = .goto stage ∧
          j = { job with stage := stage }))
      (log : w'.log = w.log ++ task.passObs t env job) : QueueStep w (.task t env) w'

section
variable {w w' : World} {a : Act} {t : Nat} {env : Env} {kind : TaskKind} {rows : OutboxRows}
variable {leasedUntil : Time} {exclusion : ChannelExclusion}

/-- A step that leaves the tables of messages and the tasks as they are. -/
theorem QueueStep.of_eq (db : w'.db = w.db) (tasks : w'.tasks = w.tasks) {obs : List Obs}
    (log : w'.log = w.log ++ obs) (quiet : ∀ o ∈ obs, o.ofMessage = false) : QueueStep w a w' :=
  .frame (by rw [db]) (by rw [db]) (by rw [db]) (fun t j => by rw [World.Holds, tasks]; rfl) log
    quiet

/-- A step that only spawns tasks. -/
theorem QueueStep.of_spawn {new : List Task} (hnew : ∀ task ∈ new, task.pc.jobs = ∅)
    (db : w'.db = w.db) (tasks : w'.tasks = w.tasks ++ new) (log : w'.log = w.log) :
    QueueStep w a w' :=
  .frame (by rw [db]) (by rw [db]) (by rw [db]) (fun _ _ => holds_spawn hnew tasks)
    (log.trans (append_nil _).symm) (fun o ho => absurd ho not_mem_nil)

@[simp] theorem jobs_onFailure {kind : TaskKind} {leasedUntil : Time}
    {exclusion : ChannelExclusion} : (kind.onFailure leasedUntil exclusion).jobs = ∅ := by
  cases kind <;> rfl

@[simp] theorem jobs_onEmpty {kind : TaskKind} : kind.onEmpty.jobs = ∅ := by
  cases kind <;> rfl

/-- A claimed row starts at the first gate, or with a bounded write. -/
theorem firstStage_cases {kind : TaskKind} {clock : Time} {row : OutboxRow} :
    kind.firstStage clock row = .expiry ∨
      ∃ write, kind.firstStage clock row = .bounded write 1 := by
  cases kind with
  | drain channel s =>
    simp only [TaskKind.firstStage]
    split
    · exact .inr ⟨_, rfl⟩
    · exact .inl rfl
  | discard s => exact .inr ⟨_, rfl⟩
  | _ => exact .inl rfl

/-- The jobs of a task whose claim succeeded, whether or not it returned a row. -/
theorem mem_jobs_claimed {clock : Time} {j : Job} :
    j ∈ (if rows.rows.isEmpty then kind.onEmpty else .working (kind.batch clock rows)).jobs ↔
      j.row ∈ rows ∧ j.stage = kind.firstStage clock j.row := by
  split
  · next he => simp [Table.mem_def, isEmpty_iff.1 he]
  · exact mem_batch

/-- What a step of a refresh loop does with the queue: nothing. -/
theorem queueStep_of_refreshStep {p : Nat} {host : Host} (h : w.RefreshStep p host a w') :
    QueueStep w a w' := by
  have hnil : w.log = w.log ++ [] := (append_nil _).symm
  cases h with
  | failed | tenant | platform | handled => exact .of_eq rfl rfl hnil (by simp)
  | swapped pc swap =>
    refine .of_eq rfl rfl rfl fun o ho => ?_
    rcases mem_cons.1 ho with rfl | ho
    · rfl
    · obtain ⟨s, -, rfl⟩ := mem_map.1 ho
      rfl
  | engaged pc =>
    refine .of_spawn (fun task htask => ?_) rfl rfl rfl
    rw [(mem_onEngaged htask).2.2]
    rfl
  | released pc =>
    refine .of_spawn (fun task htask => ?_) rfl rfl rfl
    rw [(mem_onReleased htask).2.2]
    rfl

variable [UuidCrate]

/-- The rows that the claim of a task may take. -/
def TaskKind.eligible (kind : TaskKind) (now : Time) (exclusion : ChannelExclusion)
    (r : OutboxRow) : Bool :=
  match kind with
  | .channelLoop channel => claimEligible now channel exclusion r
  | .drain channel s => claimForScopeEligible now (some channel) s exclusion r
  | .discard s => claimForScopeEligible now none s exclusion r
  | .release _ => false

/-- What a task's claim does. -/
theorem query_claimed {cfg : Config} {db db' : TenantDb}
    (h : kind.query cfg db env leasedUntil exclusion = some (rows, db')) :
    Claimed db (kind.eligible env.now exclusion) leasedUntil env.pick.ids rows db' := by
  cases kind with
  | channelLoop channel => exact claim_spec h
  | drain | discard => exact claimForScope_spec h
  | release s => cases h

/-- A claim takes rows that are not leased. -/
theorem query_spec {cfg : Config} {db db' : TenantDb}
    (h : kind.query cfg db env leasedUntil exclusion = some (rows, db')) :
    ∃ eligible, (∀ r, eligible r = true → r.leasedUntil = none) ∧
      Claimed db eligible leasedUntil env.pick.ids rows db' := by
  refine ⟨_, fun r hr => ?_, query_claimed h⟩
  cases kind with
  | channelLoop channel => exact (claimEligible_iff.1 hr).2.2.1
  | drain | discard => exact (claimForScopeEligible_iff.1 hr).2.1
  | release s => cases hr

/-- A step that touches no row leaves a task without jobs where it had none. -/
theorem jobs_loopStep {cache : ActiveSet} {draining : SwitchTable} {pc pc' : Pc}
    (h : kind.loopStep cache draining env pc = some pc') : pc.jobs = ∅ ∧ pc'.jobs = ∅ := by
  cases pc <;> cases kind <;> simp only [TaskKind.loopStep, Option.some.injEq, reduceCtorEq] at h
    <;> subst h <;> first | exact ⟨rfl, rfl⟩ | skip
  split <;> exact ⟨rfl, rfl⟩

/-- What a step of a task does with the queue. -/
theorem queueStep_of_taskStep (h : w.TaskStep t env w') : QueueStep w (.task t env) w' := by
  cases h with
  | looped runs loop =>
    obtain ⟨hj, hj'⟩ := jobs_loopStep loop
    exact .frame rfl rfl rfl (fun _ _ => holds_set_of_empty runs.lookup hj hj' rfl) rfl (by simp)
  | failed runs pc reply =>
    exact .frame rfl rfl rfl
      (fun _ _ => holds_set_of_empty runs.lookup (by rw [pc]; rfl) jobs_onFailure rfl) rfl (by simp)
  | lost runs pc reply query =>
    obtain ⟨eligible, hu, hc⟩ := query_spec query
    exact .lost runs.lookup pc reply hu hc
      (fun _ _ => holds_set_of_empty runs.lookup (by rw [pc]; rfl) jobs_onFailure rfl) rfl
      (by simp [Obs.ofMessage])
  | @claimed task _ _ _ _ rows _ runs pc reply query =>
    obtain ⟨eligible, hu, hc⟩ := query_spec query
    refine .claimed runs.lookup hu hc (fun t' j => ?_) rfl (by simp [Obs.ofMessage])
    rw [holds_set runs.lookup rfl, mem_jobs_claimed]
    -- the task had no jobs before
    have hno : ¬ w.Holds t j := by
      intro ⟨task', ht', hj⟩
      rw [runs.lookup] at ht'
      cases ht'
      rw [pc] at hj
      exact not_mem_empty j hj
    by_cases ht : t' = t
    · subst ht
      simp [hno]
    · simp [ht]
  | @batchDone task _ _ jobs runs pc empty =>
    have hj : jobs = ∅ := by
      obtain ⟨rows, hn⟩ := jobs
      cases empty
      rfl
    exact .frame rfl rfl rfl
      (fun _ _ => holds_set_of_empty runs.lookup (by rw [pc]; exact hj) rfl rfl) rfl (by simp)
  | @passed task _ d jobs job rest runs pc head =>
    have hjob : job ∈ jobs := by rw [Table.mem_def, head]; exact .head _
    have hdb : (w.moved t task (task.passStep t d.cfg w.db env jobs job)).db =
        (tryProcess d.cfg w.db job.row env job.stage).2 := rfl
    exact .passed runs.lookup (by rw [pc, ← head?_cons, ← head]; rfl) hdb
      (holds_passed hjob runs.lookup pc rfl) rfl
  | spawned runs kind pc =>
    refine .frame rfl rfl rfl (fun t' j => ?_) (append_nil _).symm (by simp)
    rw [holds_spawn (w := { w with tasks := _ }) ?_ rfl]
    · exact holds_set_of_empty runs.lookup (by rw [pc]; rfl) rfl rfl
    · intro child hchild
      obtain ⟨channel, -, rfl⟩ := mem_map.1 hchild
      rfl
  | drained runs kind pc =>
    exact .frame rfl rfl rfl
      (fun _ _ => holds_set_of_empty runs.lookup (by rw [pc]; rfl) rfl rfl) rfl
      (by simp [Obs.ofMessage])

/-- The step of a task that is at a job is a step of the pass over its row. -/
theorem passed_of_step {job : Job} (hs : w.step (.task t env) = some w')
    (hjob : w.job? t = some job) :
    ∃ cfg, w'.db = (tryProcess cfg w.db job.row env job.stage).2 ∧
      (∀ t' j, w'.Holds t' j ↔ (w.Holds t' j ∧ ¬ (t' = t ∧ j.id = job.id)) ∨
        (t' = t ∧ ∃ stage, (tryProcess cfg w.db job.row env job.stage).1 = .goto stage ∧
          j = { job with stage := stage })) ∧
      ∀ stage, (tryProcess cfg w.db job.row env job.stage).1 = .goto stage →
        w'.job? t = some { job with stage := stage } := by
  obtain ⟨task, lookup, head⟩ := job?_eq_some.1 hjob
  -- a task without a job is at none
  have idle : ∀ {task' : Task}, w.tasks[t]? = some task' → task'.pc.jobs.rows ≠ [] := by
    intro task' ht' hnil
    cases lookup.symm.trans ht'
    rw [hnil] at head
    cases head
  cases step_cases hs with
  | refresh alive step => cases step
  | task hstep =>
    cases hstep with
    | looped runs loop => exact absurd (by rw [(jobs_loopStep loop).1]; rfl) (idle runs.lookup)
    | failed runs pc | lost runs pc | claimed runs pc | spawned runs kind pc
    | drained runs kind pc => exact absurd (by rw [pc]; rfl) (idle runs.lookup)
    | batchDone runs pc empty => exact absurd (by rw [pc]; exact empty) (idle runs.lookup)
    | @passed task' _ d jobs job' rest runs pc head' =>
      cases lookup.symm.trans runs.lookup
      have hhead : task.pc.jobs.rows = job' :: rest := by rw [pc]; exact head'
      rw [hhead] at head
      cases head
      refine ⟨d.cfg, rfl, holds_passed (by rw [Table.mem_def, head']; exact .head _) lookup pc rfl,
        fun stage hnext => ?_⟩
      rw [World.job?, World.moved]
      dsimp only
      rw [getElem?_set_self (List.getElem?_eq_some_iff.1 lookup).1]
      show ((tryProcess d.cfg w.db job.row env job.stage).1.jobs jobs job).rows.head? = _
      rw [hnext, rows_nextJobs head' (.goto stage)]
      rfl

/-- Every step is one of these. -/
theorem queueStep_of_step (h : w.step a = some w') : QueueStep w a w' := by
  have hnil : w.log = w.log ++ [] := (append_nil _).symm
  cases step_cases h with
  | started | opened | dropped | refused | insertFailed | cancelMissed | notCancelled
  | engagedPlatform | releasedPlatform => exact .of_eq rfl rfl hnil (by simp)
  | @crashed p host alive =>
    refine .crashed rfl (fun t j => ?_) rfl
    simp only [World.Holds, getElem?_map]
    cases w.tasks[t]? with
    | none => simp
    | some task =>
      by_cases ho : task.owner = p <;> simp [ho, Pc.jobs]
  | acquired | admitted => exact .of_eq rfl rfl rfl (by simp [Obs.ofMessage])
  | swept alive dispatcher phase => exact .swept rfl (fun _ _ => .rfl) rfl
  | led alive dispatcher phase =>
    refine .of_spawn (fun task htask => ?_) rfl rfl rfl
    obtain ⟨channel, -, rfl⟩ := mem_map.1 htask
    rfl
  | refresh alive step => exact queueStep_of_refreshStep step
  | task step => exact queueStep_of_taskStep step
  | inserted fresh insert => exact .inserted fresh insert (fun _ _ => .rfl) rfl
  | cancelled found => exact .cancelled found rfl (fun _ _ => .rfl) rfl
  | wasCancelled found => exact .wasCancelled found rfl (fun _ _ => .rfl) rfl
  | engaged | released | gates => exact .frame rfl rfl rfl (fun _ _ => .rfl) hnil (by simp)

end

/-! ## What holds in every run -/

/-- The ledger and the queue agree, and a message that is not settled has its payload. -/
structure TenantDb.InOrder (db : TenantDb) : Prop where
  agrees : db.Agrees
  payload : ∀ r ∈ db.commsRequest, r.finalStatus = none → r.payloadCiphertext ≠ none

/-- The start of a run: a tenant whose tables are in order, and no process. -/
structure World.Initial (w : World) : Prop where
  hosts : w.hosts = []
  tasks : w.tasks = []
  log : w.log = []
  db : w.db.InOrder

/-- The tables are in order, the rows that tasks hold have their requests, and a request that was
read without a payload is settled. -/
structure World.Sound (w : World) : Prop where
  db : w.db.InOrder
  held : ∀ {t j}, w.Holds t j → w.db.Has j.id j.row.createdAt
  read : ∀ {t j destination}, w.Holds t j → j.stage = .decrypt destination none → w.db.Settled j.id

namespace TenantDb.InOrder

variable {db db' : TenantDb}

/-- A change of the queue alone. -/
theorem of_sameQueue (h : db.InOrder) (hq : db.SameQueue db') : db'.InOrder ∧ db.Evolves db' :=
  ⟨⟨h.agrees.of_sameQueue hq, hq.commsRequest ▸ h.payload⟩, .of_eq hq.commsRequest⟩

/-- The end of a message whose request is there. -/
theorem writeTerminal (h : db.InOrder) {id customerId : Uuid} {now createdAt : Time}
    (hr : db.Has id createdAt) {eventType finalStatus : Status}
    {providerRef providerStatus : Option String} :
    (writeTerminal db now createdAt id customerId eventType providerRef providerStatus
      finalStatus).InOrder := by
  refine ⟨h.agrees.writeTerminal hr, fun r hr hf => ?_⟩
  rcases mem_setFinalStatus.1 hr with ⟨hr, -⟩ | ⟨r0, -, -, rfl⟩
  · exact h.payload r (by simpa using hr) hf
  · cases hf

/-- A new message, under an id that no request has. -/
theorem insertTransactional (h : db.InOrder) {now : Time} {c : NewComms}
    {outcome : InsertOutcome} (hi : insertTransactional db now c = .ok (outcome, db'))
    (hfresh : ∀ r ∈ db.commsRequest, r.id ≠ c.commsRequestId) : db'.InOrder ∧ db.Evolves db' := by
  obtain ⟨hdb, hev⟩ := h.agrees.insertTransactional hi hfresh
  refine ⟨⟨hdb, fun r hr hf => ?_⟩, hev⟩
  rcases insertTransactional_ok hi with ⟨heq, -⟩ | ⟨-, hreq, -⟩
  · exact h.payload r (heq ▸ hr) hf
  · rcases (hreq r).1 hr with hr | rfl
    · exact h.payload r hr hf
    · exact some_ne_none _

/-- A step of a pass over a row that has its request. -/
theorem passStep (h : db.InOrder) {row : OutboxRow} {env : Env} {stage : Stage} {next : Next}
    (hrow : db.Has row.commsRequestId row.createdAt) (hs : PassStep db row env stage next db') :
    db'.InOrder ∧ db.Evolves db' := by
  cases hs with
  | goto | gaveUp => exact ⟨h, .of_eq rfl⟩
  | recorded result =>
    exact ⟨⟨h.agrees.insertEvent fun hne => absurd rfl hne, by simpa [recordEvent] using h.payload⟩,
      .of_eq insertEvent_commsRequest⟩
  | wrote | bounded => exact ⟨h.writeTerminal hrow, evolves_writeTerminal⟩
  | rescheduled => exact h.of_sameQueue (sameQueue_rescheduleRetry _ _)

end TenantDb.InOrder

section
variable {w w' : World} {a : Act} {j : Job} {t : Nat} {r' : OutboxRow}

/-- A message that a task holds is in the ledger. -/
theorem World.Sound.request_of_holds (hs : w.Sound) (hj : w.Holds t j) :
    ∃ q ∈ w.db.commsRequest, q.id = j.id := by
  obtain ⟨q, hq, hid, -⟩ := hs.held hj
  exact ⟨q, hq, hid⟩

/-- Every step keeps the tables of messages in order. -/
theorem World.Sound.db_step (h : w.Sound) (hq : QueueStep w a w') :
    w'.db.InOrder ∧ w.db.Evolves w'.db := by
  cases hq with
  | frame outbox commsRequest commsEvent holds log quiet =>
    refine h.db.of_sameQueue ⟨commsRequest, commsEvent, fun o ho => ?_, fun o ho => ?_⟩
    · exact ⟨o, outbox ▸ ho, rfl, rfl, rfl⟩
    · exact ⟨o, outbox ▸ ho, rfl⟩
  | inserted fresh db holds log => exact h.db.insertTransactional db fresh
  | cancelled found db holds log =>
    rw [db]
    exact h.db.of_sameQueue (sameQueue_cancelOutbox _ _ _)
  | wasCancelled found db | crashed db =>
    rw [db]
    exact ⟨h.db, .of_eq rfl⟩
  | swept db holds log =>
    rw [db]
    exact h.db.of_sameQueue sameQueue_clearStaleLeases
  | lost lookup pc reply unleased claimed | claimed lookup unleased claimed =>
    rw [claimed.db]
    exact h.db.of_sameQueue (sameQueue_lease _ _)
  | passed lookup head db holds log =>
    rw [db]
    exact h.db.passStep (h.held ⟨_, lookup, mem_of_mem_head? head⟩) tryProcess_passStep

/-- The rows that tasks hold after a step: those before, those just claimed, and the task's row at
its next stage. -/
theorem QueueStep.holds_cases (hq : QueueStep w a w') (hj : w'.Holds t j) :
    w.Holds t j ∨
    (∃ r0 ∈ w.db.outbox, ∃ leasedUntil clock, ∃ kind : TaskKind, j.row = r0.leased leasedUntil ∧
      j.row ∈ w'.db.outbox ∧ j.stage = kind.firstStage clock j.row ∧ r0.leasedUntil = none ∧
      ∃ env, a = .task t env) ∨
    ∃ cfg env job stage, a = .task t env ∧ w.job? t = some job ∧
      (tryProcess cfg w.db job.row env job.stage).1 = .goto stage ∧
      j = { job with stage := stage } := by
  cases hq with
  | frame outbox commsRequest commsEvent holds | inserted fresh db holds
  | cancelled found db holds | wasCancelled found db holds | swept db holds
  | lost lookup pc reply unleased claimed holds => exact .inl ((holds t j).1 hj)
  | crashed db holds log => exact .inl ((holds t j).1 hj).1
  | claimed lookup unleased claimed holds log quiet =>
    rcases (holds t j).1 hj with hj | ⟨rfl, hrow, hstage⟩
    · exact .inl hj
    · obtain ⟨r0, hr0, he, heq⟩ := claimed.eligible_of_mem hrow
      refine .inr (.inl ⟨r0, hr0, _, _, _, heq, ?_, hstage, unleased r0 he, _, rfl⟩)
      obtain ⟨r1, hr1, hid, heq1⟩ := (claimed.mem_rows _).1 hrow
      rw [claimed.db]
      exact mem_lease.2 (.inr ⟨r1, hr1, hid, heq1⟩)
  | passed lookup head db holds log =>
    rcases (holds t j).1 hj with ⟨hj, -⟩ | ⟨rfl, stage, hgoto, rfl⟩
    · exact .inl hj
    · exact .inr (.inr ⟨_, _, _, _, rfl, job?_eq_some.2 ⟨_, lookup, head⟩, hgoto, rfl⟩)

/-- A queued row before and after a step: its claims are counted and its cancellation is kept. -/
structure OutboxRow.Becomes (r r' : OutboxRow) : Prop where
  id : r.commsRequestId = r'.commsRequestId
  attempts : r.attempts ≤ r'.attempts
  cancelled : r.cancelledAt.isSome = true → r'.cancelledAt.isSome = true

/-- The same, and the row stays one of its channel, producer and campaign. -/
structure OutboxRow.Continues (r r' : OutboxRow) : Prop extends r.Becomes r' where
  channel : r.channel = r'.channel
  producerId : r.producerId = r'.producerId
  campaignId : r.campaignId = r'.campaignId

/-- The act gives the row back: a sweep that finds it leased, or a reschedule that takes effect. -/
def World.requeues (w : World) (a : Act) (r : OutboxRow) : Bool :=
  match a with
  | .sweep _ => r.leasedUntil.isSome
  | .task t env => env.reply ≠ .failed && (w.job? t).any fun job =>
      job.id = r.commsRequestId && (job.stage matches .reschedule _)
  | _ => false

/-- Where a row of the queue after a step comes from. -/
inductive RowStep (w : World) (a : Act) : OutboxRow → Prop
  | kept {r : OutboxRow} (old : r ∈ w.db.outbox) : RowStep w a r
  | inserted {now : Time} {c : NewComms}
      (fresh : ∀ q ∈ w.db.commsRequest, q.id ≠ c.commsRequestId) : RowStep w a (c.outboxRow now)
  | cancelled {r : OutboxRow} {now : Time} (old : r ∈ w.db.outbox) :
      RowStep w a { r with cancelledAt := some now }
  | claimed {r : OutboxRow} {leasedUntil : Time} (old : r ∈ w.db.outbox)
      (free : r.leasedUntil = none) : RowStep w a (r.leased leasedUntil)
  | requeued {r : OutboxRow} {nextAttemptAt : Time} (old : r ∈ w.db.outbox)
      (back : w.requeues a r = true) :
      RowStep w a { r with leasedUntil := none, nextAttemptAt := nextAttemptAt }

/-- A row after a claim. -/
theorem rowStep_of_claimed {db' : TenantDb} {eligible : OutboxRow → Bool} {leasedUntil : Time}
    {ids : List Uuid} {rows : OutboxRows} (unleased : ∀ r, eligible r = true → r.leasedUntil = none)
    (claimed : Claimed w.db eligible leasedUntil ids rows db') (hr' : r' ∈ db'.outbox) :
    RowStep w a r' := by
  rw [claimed.db] at hr'
  rcases mem_lease.1 hr' with ⟨h, -⟩ | ⟨r0, h0, hid, rfl⟩
  · exact .kept h
  · obtain ⟨r1, h1, hk, he⟩ := claimed.eligible _ hid
    exact .claimed h0 (eq_of_key h1 h0 hk ▸ unleased r1 he)

/-- A row after a step of a pass. -/
theorem rowStep_of_passed {env : Env} {cfg : Config} {job : Job} (hjob : w.job? t = some job)
    (hr' : r' ∈ (tryProcess cfg w.db job.row env job.stage).2.outbox) :
    RowStep w (.task t env) r' := by
  by_cases hreply : env.reply = .failed
  · rw [tryProcess_of_failed hreply] at hr'
    exact .kept hr'
  have hpass := @tryProcess_passStep cfg w.db job.row env job.stage
  generalize (tryProcess cfg w.db job.row env job.stage).2 = db' at hpass hr'
  generalize hstage : job.stage = stage at hpass
  generalize (tryProcess cfg w.db job.row env stage).1 = next at hpass
  cases hpass with
  | goto | gaveUp => exact .kept hr'
  | recorded result => exact .kept (by simpa [recordEvent] using hr')
  | wrote | bounded => exact .kept (mem_writeTerminal.1 hr').1
  | rescheduled =>
    rcases mem_rescheduleRetry.1 hr' with ⟨hr', -⟩ | ⟨r0, h0, hid, rfl⟩
    · exact .kept hr'
    · refine .requeued h0 ?_
      simp [World.requeues, hreply, hjob, hstage, Job.id, hid]

/-- Every row of the queue after a step is one of these. -/
theorem QueueStep.rowStep (hq : QueueStep w a w') (hr' : r' ∈ w'.db.outbox) : RowStep w a r' := by
  cases hq with
  | frame outbox commsRequest commsEvent holds log quiet => exact .kept (outbox ▸ hr')
  | inserted fresh db holds log =>
    rcases insertTransactional_ok db with ⟨hdb, -⟩ | ⟨-, -, hout, -⟩
    · exact .kept (hdb ▸ hr')
    · rcases (hout r').1 hr' with hr' | rfl
      · exact .kept hr'
      · exact .inserted fresh
  | cancelled found db holds log =>
    rw [db] at hr'
    rcases mem_cancelOutbox.1 hr' with ⟨hr', -⟩ | ⟨r0, h0, -, rfl⟩
    · exact .kept hr'
    · exact .cancelled h0
  | wasCancelled found db | crashed db => exact .kept (db ▸ hr')
  | swept db holds log =>
    rw [db] at hr'
    obtain ⟨r0, h0, rfl⟩ := mem_clearStaleLeases.1 hr'
    cases hl : r0.leasedUntil with
    | none => exact .kept (by rw [← hl]; exact h0)
    | some leasedUntil => exact .requeued h0 (by simp [World.requeues, hl])
  | lost lookup pc reply unleased claimed | claimed lookup unleased claimed =>
    exact rowStep_of_claimed unleased claimed hr'
  | passed lookup head db holds log =>
    exact rowStep_of_passed (job?_eq_some.2 ⟨_, lookup, head⟩) (db ▸ hr')

/-- The queued rows after a step continue rows before, or are new to the ledger. -/
theorem QueueStep.outbox_continues (hq : QueueStep w a w') (hr' : r' ∈ w'.db.outbox) :
    (∃ r ∈ w.db.outbox, r.Continues r') ∨ ∀ q ∈ w.db.commsRequest, q.id ≠ r'.commsRequestId := by
  cases hq.rowStep hr' with
  | kept old => exact .inl ⟨r', old, ⟨rfl, Nat.le_refl _, id⟩, rfl, rfl, rfl⟩
  | inserted fresh => exact .inr fresh
  | cancelled old => exact .inl ⟨_, old, ⟨rfl, Nat.le_refl _, fun _ => rfl⟩, rfl, rfl, rfl⟩
  | claimed old free => exact .inl ⟨_, old, ⟨rfl, Nat.le_succ _, id⟩, rfl, rfl, rfl⟩
  | requeued old back => exact .inl ⟨_, old, ⟨rfl, Nat.le_refl _, id⟩, rfl, rfl, rfl⟩

/-- The queued rows after a step come from rows before, or are new to the ledger. -/
theorem QueueStep.outbox_cases (hq : QueueStep w a w') (hr' : r' ∈ w'.db.outbox) :
    (∃ r ∈ w.db.outbox, r.Becomes r') ∨ ∀ q ∈ w.db.commsRequest, q.id ≠ r'.commsRequestId := by
  rcases hq.outbox_continues hr' with ⟨r, hr, h⟩ | h
  · exact .inl ⟨r, hr, h.toBecomes⟩
  · exact .inr h

/-- A pass shows one entry at most: the provider call, at its stage, or a status. -/
theorem passObs_cases {task : Task} {env : Env} {job : Job} {o : Obs}
    (h : o ∈ task.passObs t env job) : task.passObs t env job = [o] ∧
      ((o = .providerCall task.owner t job.id job.row.attempts ∧ job.stage = .send) ∨
        ∃ status, o = .terminal task.owner t job.id status) := by
  unfold Task.passObs at h ⊢
  split at h
  · next hstage =>
    cases mem_singleton.1 h
    exact ⟨rfl, .inl ⟨rfl, hstage⟩⟩
  · split at h
    · cases h
    · next hr =>
      cases mem_singleton.1 h
      exact ⟨if_neg hr, .inr ⟨_, rfl⟩⟩
  · split at h
    · cases h
    · next hr =>
      cases mem_singleton.1 h
      exact ⟨if_neg hr, .inr ⟨_, rfl⟩⟩
  · cases h

/-- What a step logs of messages: nothing or one entry; a provider call is of a task whose pass is
at it. -/
theorem QueueStep.log_cases (hq : QueueStep w a w') :
    ∃ obs, w'.log = w.log ++ obs ∧ ((∀ o ∈ obs, o.ofMessage = false) ∨ ∃ o, obs = [o]) ∧
      ∀ p t id n, .providerCall p t id n ∈ obs →
        ∃ job, w.Holds t job ∧ job.id = id ∧ job.row.attempts = n ∧ job.stage = .send := by
  have quiet : ∀ {obs : List Obs}, w'.log = w.log ++ obs → (∀ o ∈ obs, o.ofMessage = false) →
      ∃ obs, w'.log = w.log ++ obs ∧ ((∀ o ∈ obs, o.ofMessage = false) ∨ ∃ o, obs = [o]) ∧
        ∀ p t id n, .providerCall p t id n ∈ obs →
          ∃ job, w.Holds t job ∧ job.id = id ∧ job.row.attempts = n ∧ job.stage = .send :=
    fun hlog hq => ⟨_, hlog, .inl hq, fun p t id n ho => Bool.noConfusion (hq _ ho)⟩
  cases hq with
  | frame outbox commsRequest commsEvent holds log hq
  | lost lookup pc reply unleased claimed holds log hq
  | claimed lookup unleased claimed holds log hq => exact quiet log hq
  | inserted fresh db holds log | swept db holds log | crashed db holds log =>
    exact quiet (log.trans (append_nil _).symm) (by simp)
  | cancelled found db holds log | wasCancelled found db holds log =>
    exact ⟨_, log, .inr ⟨_, rfl⟩, by simp⟩
  | @passed t env cfg task job _ lookup head db holds log =>
    refine ⟨_, log, ?_, fun p t' id n ho => ?_⟩
    · cases hobs : task.passObs t env job with
      | nil => exact .inl (by simp)
      | cons o obs => exact .inr ⟨o, hobs ▸ (passObs_cases (hobs ▸ mem_cons_self)).1⟩
    · obtain ⟨heq, hstage⟩ | ⟨status, heq⟩ := (passObs_cases ho).2 <;> cases heq
      exact ⟨job, ⟨task, lookup, mem_of_mem_head? head⟩, rfl, rfl, hstage⟩

/-- The provider calls after a step: those before, and that of a pass that is at it. -/
theorem QueueStep.providerCall_cases (hq : QueueStep w a w') {p : Nat} {id : Uuid} {attempts : Nat}
    (h : .providerCall p t id attempts ∈ w'.log) :
    .providerCall p t id attempts ∈ w.log ∨
    ∃ job, w.Holds t job ∧ job.id = id ∧ job.row.attempts = attempts ∧ job.stage = .send := by
  obtain ⟨obs, hlog, -, hcall⟩ := hq.log_cases
  rw [hlog] at h
  rcases mem_append.1 h with h | h
  · exact .inl h
  · exact .inr (hcall p t id attempts h)

theorem World.initial_empty : World.empty.Initial :=
  ⟨rfl, rfl, rfl, LedgerState.agrees_empty.db, fun r hr => absurd hr (not_mem_empty r)⟩

/-- Nobody holds anything at the start. -/
theorem World.Initial.not_holds (h : w.Initial) : ¬ w.Holds t j := by
  intro ⟨task, ht, _⟩
  rw [h.tasks] at ht
  cases ht

theorem World.Initial.sound (h : w.Initial) : w.Sound :=
  ⟨h.db, fun hj => absurd hj h.not_holds, fun hj => absurd hj h.not_holds⟩

/-- Every step keeps the world sound. -/
theorem World.Sound.step (h : w.Sound) (hq : QueueStep w a w') : w'.Sound := by
  obtain ⟨hdb, hev⟩ := h.db_step hq
  refine ⟨hdb, fun {t j} hj => ?_, fun {t j destination} hj hstage => ?_⟩
  · rcases hq.holds_cases hj with hj | ⟨r0, hr0, _, _, _, heq, -⟩ | ⟨_, _, job, _, -, hjob, -, rfl⟩
    · exact hev.has (h.held hj)
    · rw [Job.id, heq]
      show w'.db.Has r0.commsRequestId r0.createdAt
      exact hev.has (h.db.agrees.has hr0)
    · show w'.db.Has job.id job.row.createdAt
      exact hev.has (h.held (holds_of_job? hjob))
  · rcases hq.holds_cases hj with hj | ⟨r0, hr0, _, _, kind, heq, -, hfirst, -⟩ |
      ⟨_, _, job, _, -, hjob, hgoto, rfl⟩
    · exact hev.settled (h.read hj hstage)
    · rcases firstStage_cases with he | ⟨write, he⟩ <;> rw [hfirst, he] at hstage <;> cases hstage
    · -- the pass has just read the request without a payload
      cases hstage
      have hload := loadCiphertexts_of_goto hgoto
      obtain ⟨r, hr, hrow⟩ := map_eq_some_iff.1 hload
      obtain ⟨hr, hkey⟩ := Table.find?_some hr
      refine hev.settled ⟨r, hr, congrArg Prod.snd hkey, fun hf => ?_⟩
      exact h.db.payload r hr hf (congrArg Prod.snd hrow)

/-- The world is sound in every run. -/
theorem World.Sound.of_step [UuidCrate] (hs : w.step a = some w') (h : w.Sound) : w'.Sound :=
  h.step (queueStep_of_step hs)

end

end Messgr
