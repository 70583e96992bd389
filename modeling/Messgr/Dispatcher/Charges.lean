import Messgr.Dispatcher.Gates
import Messgr.Dispatcher.Queue
import Messgr.Lib.Indexed

/-!
# What a quota is charged for

A pass is charged at the quota gate, in the middle of the gate chain, and is under way from there to
the provider call (`Stage.charged`). `System` is the world of the dispatchers with the tracker of
one of them and the provider calls of its passes.

`charged_for_sends`: within a window the counter has grown by the provider calls and the passes
under way, if none of these is stopped before its call (`goesOn`). A pass that is deferred by quiet
hours, found cancelled or fails is charged for nothing (`charged_without_call`).
-/

namespace Messgr

open List Option Nat World

/-- Past the quota gate, and before the provider call. -/
def Stage.charged : Stage → Bool
  | .quietHours | .ciphertexts | .decrypt _ _ | .cancellation | .send => true
  | _ => false

def Next.charged : Next → Bool
  | .goto stage => stage.charged
  | .ended _ => false

namespace Charges

open Quota (Key Tracker Counter Counters EffectiveQuota checkAndRecord)

/-! ## The system -/

/-- The world, the tracker of one dispatcher and the provider calls of its passes. -/
structure System where
  world : World
  tracker : Tracker
  calls : Key → Nat

/-- An act of the world, or the limits are read again. -/
inductive SystemAct
  | world (a : Act)
  | refreshConfig (config : Key → Option EffectiveQuota)

/-- The job that a task of the dispatcher is at. -/
def job? (p : Nat) (w : World) (t : Nat) : Option Job :=
  w.tasks[t]?.bind fun task => if task.owner = p then task.pc.jobs.rows.head? else none

/-- The settings of the dispatcher. -/
def config? (p : Nat) (w : World) : Option Config :=
  (w.host? p).bind fun host => host.dispatcher.map (·.cfg)

/-- An act of the world with the tracker's verdict and the tracker and calls after it; those of the
dispatcher `p` are counted. -/
def System.metered (p : Nat) (s : System) : Act → Act × Tracker × (Key → Nat)
  | .task t env =>
    match job? p s.world t with
    | some ⟨row, .quota⟩ =>
      let r := checkAndRecord s.tracker row.quotaKey env.clock
      (.task t { env with quota := r.1 }, r.2, s.calls)
    | some ⟨row, .send⟩ =>
      (.task t env, s.tracker, Function.update s.calls row.quotaKey (s.calls row.quotaKey + 1))
    | _ => (.task t env, s.tracker, s.calls)
  | a => (a, s.tracker, s.calls)

/-- Performs one act, if it can be performed. -/
def System.step [UuidCrate] (p : Nat) (s : System) : SystemAct → Option System
  | .world a =>
    let m := s.metered p a
    (s.world.step m.1).map fun w => ⟨w, m.2.1, m.2.2⟩
  | .refreshConfig config => some { s with tracker := { s.tracker with config := config } }

/-! ## Counting -/

/-- The windows of a quota. Source: `src/producer_quota/model.rs`, `granularity`. -/
inductive Granularity
  | minute
  | day
deriving DecidableEq

namespace Granularity

def windowStart (g : Granularity) (z : Zone) (now : Time) : Time :=
  match g with
  | minute => Quota.minuteWindowStart now
  | day => Quota.dayWindowStart z now

def counter (g : Granularity) (c : Counters) : Counter :=
  match g with
  | minute => c.minute
  | day => c.day

end Granularity

/-- What a counter has for a window. -/
def sentIn (c : Counter) (ws : Time) : Nat := if c.windowStart = some ws then c.sent else 0

/-- The `sent` counter of a key for a window. -/
def System.sent (s : System) (key : Key) (g : Granularity) (ws : Time) : Nat :=
  sentIn (g.counter (s.tracker.counters key)) ws

/-- A pass over a row of the key that is under way. -/
def charged (key : Key) (j : Job) : Bool := j.row.quotaKey = key && j.stage.charged

/-- The passes of a task of the dispatcher `p` that are under way. -/
def underWay (p : Nat) (key : Key) (task : Task) : Nat :=
  if task.owner = p then task.pc.jobs.rows.countP (charged key) else 0

/-- The passes of all its tasks that are under way. -/
def allUnderWay (p : Nat) (key : Key) (w : World) : Nat := Indexed.total (underWay p key) w.tasks

/-- The condition: a pass of the key that is under way is not stopped, by the quiet hours, a
cancellation, a failed read, a ciphertext that is missing or cannot be unsealed, or the end of its
process; and the checks of the key are in the window. -/
def goesOn (p : Nat) (key : Key) (g : Granularity) (ws : Time) (s : System) :
    SystemAct → Bool
  | .world (.task t env) =>
    match job? p s.world t with
    | some ⟨row, stage⟩ => row.quotaKey ≠ key ||
      match stage with
      | .quota => g.windowStart s.tracker.zone env.clock = ws
      | .quietHours =>
        (config? p s.world).any (!·.hasQuietHoursPolicy) || (env.reply = .ok && env.window = none)
      | .ciphertexts =>
        env.reply = .ok && (loadCiphertexts s.world.db row.createdAt row.commsRequestId).isSome
      | .decrypt _ payload => env.unsealed.isOk && payload.isSome
      | .cancellation => env.reply = .ok && isCancelled s.world.db row.commsRequestId = some false
      | _ => true
    | none => true
  | .world (.crash h) => h ≠ p || allUnderWay p key s.world = 0
  | _ => true

/-! ## One step of the world -/

/-- What a step does to the passes under way: nothing, their process ends, or it is a step of one.
-/
inductive ChargeStep (p : Nat) (key : Key) (w : World) : Act → World → Prop
  | same {a : Act} {w' : World} (job : ∀ t env, a = .task t env → job? p w t = none)
      (same : allUnderWay p key w' = allUnderWay p key w) : ChargeStep p key w a w'
  | crashed {w' : World} (none : allUnderWay p key w' = 0) : ChargeStep p key w (.crash p) w'
  | passed {t : Nat} {env : Env} {job : Job} {cfg : Config} {w' : World}
      (at_ : job? p w t = some job) (settings : config? p w = some cfg)
      (count : allUnderWay p key w' + (if charged key job then 1 else 0) = allUnderWay p key w +
        if job.row.quotaKey = key && (tryProcess cfg w.db job.row env job.stage).1.charged then 1
        else 0) :
      ChargeStep p key w (.task t env) w'

section
variable {p : Nat} {key : Key} {w w' : World} {a : Act} {t : Nat} {task : Task} {env : Env}
variable {jobs : Jobs} {job : Job} {rest : List Job}

theorem underWay_eq_zero (h : ∀ j ∈ task.pc.jobs, j.stage.charged = false) :
    underWay p key task = 0 := by
  unfold underWay
  split
  · refine countP_eq_zero.2 fun j hj => ?_
    rw [charged, h j hj, Bool.and_false]
    exact Bool.false_ne_true
  · rfl

theorem underWay_of_empty (h : task.pc.jobs = ∅) : underWay p key task = 0 :=
  underWay_eq_zero fun j hj => absurd (h ▸ hj) (Table.not_mem_empty j)

theorem job?_of_empty (ht : w.tasks[t]? = some task) (h : task.pc.jobs.rows = []) :
    job? p w t = none := by
  rw [job?, ht, bind_some, h]
  split <;> rfl

/-- A step that leaves the tasks as they are. -/
theorem ChargeStep.of_eq (ha : ∀ t env, a ≠ .task t env) (h : w'.tasks = w.tasks) :
    ChargeStep p key w a w' :=
  .same (fun t env heq => absurd heq (ha t env)) (by rw [allUnderWay, h]; rfl)

/-- A step that only spawns tasks. -/
theorem ChargeStep.of_spawn {new : List Task} (ha : ∀ t env, a ≠ .task t env)
    (hnew : ∀ task ∈ new, task.pc.jobs = ∅) (h : w'.tasks = w.tasks ++ new) :
    ChargeStep p key w a w' := by
  refine .same (fun t env heq => absurd heq (ha t env)) ?_
  rw [allUnderWay, h, Indexed.total_append,
    Indexed.total_eq_zero fun task ht => underWay_of_empty (hnew task ht)]
  rfl

/-- A task that has nothing under way before and after. -/
theorem ChargeStep.of_set (ht : w.tasks[t]? = some task) {pc : Pc} (hempty : task.pc.jobs.rows = [])
    (hpc : underWay p key { task with pc := pc } = 0)
    (h : w'.tasks = w.tasks.set t { task with pc := pc }) :
    ChargeStep p key w (.task t env) w' := by
  refine .same (fun t' env' heq => ?_) ?_
  · cases heq
    exact job?_of_empty ht hempty
  · have hcount := Indexed.total_set (f := underWay p key) (b := { task with pc := pc }) ht
    have hnone : underWay p key task = 0 := by
      rw [underWay, hempty]
      split <;> rfl
    rw [hpc, hnone] at hcount
    rw [allUnderWay, h]
    exact hcount

theorem ChargeStep.of_refreshStep {h : Nat} {host : Host} (hs : w.RefreshStep h host a w') :
    ChargeStep p key w a w' := by
  cases hs with
  | engaged pc =>
    refine .of_spawn (fun _ _ => Act.noConfusion) (fun task htask => ?_) rfl
    rw [(mem_onEngaged htask).2.2]
    rfl
  | released pc =>
    refine .of_spawn (fun _ _ => Act.noConfusion) (fun task htask => ?_) rfl
    rw [(mem_onReleased htask).2.2]
    rfl
  | _ => exact .of_eq (fun _ _ => Act.noConfusion) rfl

/-- A claimed row is not under way. -/
theorem underWay_claimed {kind : TaskKind} {rows : OutboxRows} {clock : Time} :
    underWay p key { task with pc := (if rows.rows.isEmpty then kind.onEmpty
      else .working (kind.batch clock rows)) } = 0 := by
  refine underWay_eq_zero fun j hj => ?_
  rw [(mem_jobs_claimed.1 hj).2]
  rcases @firstStage_cases kind clock j.row with h | ⟨write, h⟩ <;> rw [h] <;> rfl

/-- The pass at the head of a task's rows, and those behind it. -/
theorem underWay_working (howner : task.owner = p) (pc : task.pc = .working jobs)
    (head : jobs.rows = job :: rest) :
    underWay p key task = (if charged key job then 1 else 0) + rest.countP (charged key) := by
  rw [underWay, if_pos howner, pc]
  show jobs.rows.countP _ = _
  rw [head, countP_cons, add_comm]

theorem underWay_passStep {cfg : Config} {db : TenantDb} (howner : task.owner = p)
    (head : jobs.rows = job :: rest) :
    underWay p key { task with pc := (task.passStep t cfg db env jobs job).pc } =
      (if job.row.quotaKey = key && (tryProcess cfg db job.row env job.stage).1.charged then 1
        else 0) + rest.countP (charged key) := by
  rw [underWay, if_pos howner]
  show ((tryProcess cfg db job.row env job.stage).1.jobs jobs job).rows.countP _ = _
  rw [rows_nextJobs head]
  cases (tryProcess cfg db job.row env job.stage).1 with
  | goto stage =>
    show List.countP _ (_ :: rest) = _
    rw [countP_cons, add_comm]
    rfl
  | ended r => rw [Next.charged, Bool.and_false, if_neg Bool.false_ne_true, zero_add]

/-- A step of a pass. -/
theorem ChargeStep.of_passStep {host : Host} {d : Dispatcher} (runs : w.Runs t task host d)
    (pc : task.pc = .working jobs) (head : jobs.rows = job :: rest) :
    ChargeStep p key w (.task t env)
      (w.moved t task (task.passStep t d.cfg w.db env jobs job)) := by
  have hcount := Indexed.total_set (f := underWay p key) (b := { task with
    pc := (task.passStep t d.cfg w.db env jobs job).pc }) runs.lookup
  by_cases howner : task.owner = p
  · have hjob : job? p w t = some job := by
      rw [job?, runs.lookup, bind_some, if_pos howner, pc]
      show jobs.rows.head? = _
      rw [head]
      rfl
    have hcfg : config? p w = some d.cfg := by
      rw [config?, ← howner, runs.alive, bind_some, runs.dispatcher]
      rfl
    refine .passed hjob hcfg ?_
    rw [underWay_working howner pc head, underWay_passStep howner head] at hcount
    show Indexed.total (underWay p key) (w.tasks.set t _) + _ =
      Indexed.total (underWay p key) w.tasks + _
    omega
  · -- a task of another dispatcher
    refine .same (fun t' env' heq => ?_) ?_
    · cases heq
      rw [job?, runs.lookup, bind_some, if_neg howner]
    · rw [underWay, underWay, if_neg howner, if_neg howner] at hcount
      exact hcount

variable [UuidCrate]

/-- A step of a task, by what it does to the passes. -/
theorem ChargeStep.of_taskStep (hs : w.TaskStep t env w') :
    ChargeStep p key w (.task t env) w' := by
  cases hs with
  | looped runs loop =>
    obtain ⟨hj, hj'⟩ := jobs_loopStep loop
    exact .of_set runs.lookup (by rw [hj]; rfl) (underWay_of_empty hj') rfl
  | failed runs pc | lost runs pc =>
    exact .of_set runs.lookup (by rw [pc]; rfl) (underWay_of_empty jobs_onFailure) rfl
  | claimed runs pc reply query =>
    exact .of_set runs.lookup (by rw [pc]; rfl) underWay_claimed rfl
  | batchDone runs pc empty =>
    exact .of_set runs.lookup (by rw [pc]; exact empty) (underWay_of_empty rfl) rfl
  | drained runs kind pc =>
    exact .of_set runs.lookup (by rw [pc]; rfl) (underWay_of_empty rfl) rfl
  | @spawned task _ d s runs kind pc =>
    refine .same (fun t' env' heq => ?_) ?_
    · cases heq
      exact job?_of_empty runs.lookup (by rw [pc]; rfl)
    · have hnone : underWay p key task = 0 := underWay_of_empty (by rw [pc]; rfl)
      have hcount := Indexed.total_set (f := underWay p key) (b := { task with
        pc := .awaiting (.range' w.tasks.length d.cfg.channels.length) }) runs.lookup
      rw [hnone, underWay_of_empty rfl] at hcount
      refine Indexed.total_append.trans ?_
      rw [Indexed.total_eq_zero (l := d.cfg.channels.map _) fun child hchild => ?_]
      · exact hcount
      · obtain ⟨channel, -, rfl⟩ := mem_map.1 hchild
        exact underWay_of_empty rfl
  | passed runs pc head => exact .of_passStep runs pc head

/-- Every step of the world is one of these. -/
theorem chargeStep_of_step (h : w.step a = some w') : ChargeStep p key w a w' := by
  cases step_cases h with
  | @crashed dead host alive =>
    by_cases hp : dead = p
    · subst hp
      refine .crashed (Indexed.total_eq_zero fun task htask => ?_)
      obtain ⟨old, -, rfl⟩ := mem_map.1 htask
      by_cases howner : old.owner = dead
      · rw [if_pos howner]
        exact underWay_of_empty rfl
      · rw [if_neg howner, underWay, if_neg howner]
    · refine .same (fun _ _ heq => by cases heq) (Indexed.total_map fun task => ?_)
      by_cases howner : task.owner = dead
      · rw [if_pos howner, underWay, underWay, if_neg (howner ▸ hp), if_neg (howner ▸ hp)]
      · rw [if_neg howner]
  | led alive dispatcher phase =>
    refine .of_spawn (fun _ _ => Act.noConfusion) (fun task htask => ?_) rfl
    obtain ⟨channel, -, rfl⟩ := mem_map.1 htask
    rfl
  | refresh alive step => exact .of_refreshStep step
  | task step => exact .of_taskStep step
  | _ => exact .of_eq (fun _ _ => Act.noConfusion) rfl

end

/-! ## One check -/

/-- The pass goes on, and is charged. -/
def charges : QuotaDecision → Bool
  | .defer _ => false
  | _ => true

section
variable {c : Counter} {ws now : Time} {t : Tracker} {key : Key} {g : Granularity}

theorem sentIn_roll : sentIn (c.roll ws) ws = sentIn c ws := by
  unfold Counter.roll
  by_cases h : c.windowStart = some ws
  · rw [if_neg (not_not.2 h)]
  · rw [if_pos h, sentIn, sentIn, if_pos rfl, if_neg h]

theorem sentIn_send : sentIn (c.roll ws).send ws = sentIn c ws + 1 := by
  have hws : (c.roll ws).windowStart = some ws := Quota.roll_windowStart c ws
  calc sentIn (c.roll ws).send ws = (c.roll ws).sent + 1 := if_pos hws
    _ = sentIn (c.roll ws) ws + 1 := by rw [sentIn, if_pos hws]
    _ = sentIn c ws + 1 := by rw [sentIn_roll]

/-- A check adds one to the counters of its windows, unless it defers. -/
theorem sentIn_checkAndRecord :
    sentIn (g.counter ((checkAndRecord t key now).2.counters key)) (g.windowStart t.zone now) =
      sentIn (g.counter (t.counters key)) (g.windowStart t.zone now) +
        if charges (checkAndRecord t key now).1 then 1 else 0 := by
  have hcheck : Quota.CheckStep t key now _ _ := Quota.checkAndRecord_cases
  have hsend :
      sentIn (g.counter ((t.recordAdmit key now).counters key)) (g.windowStart t.zone now) =
      sentIn (g.counter (t.counters key)) (g.windowStart t.zone now) + 1 := by
    rw [Tracker.recordAdmit, Quota.counters_withCounters_self]
    cases g <;> exact sentIn_send
  generalize (checkAndRecord t key now).1 = d, (checkAndRecord t key now).2 = t' at hcheck
  cases hcheck with
  | exempt | within | soft => exact hsend
  | deferred _ _ _ _ hcounters =>
    rw [Quota.counters_withCounters_self]
    rcases hcounters with rfl | rfl <;> cases g <;> exact sentIn_roll

end

/-! ## One step of a pass -/

section
variable {cfg : Config} {db : TenantDb} {row : OutboxRow} {env : Env} {stage : Stage}

/-- A pass comes to be under way at the quota gate. -/
theorem charged_next (hquota : stage ≠ .quota) (hstage : stage.charged = false) :
    (tryProcess cfg db row env stage).1.charged = false := by
  cases stage with
  | quota => exact absurd rfl hquota
  | quietHours | ciphertexts | decrypt | cancellation | send => cases hstage
  | _ =>
    simp only [tryProcess, Next.read, Next.write, Next.databaseError]
    grind [Next.charged, Stage.charged]

theorem charged_quota {d : QuotaDecision} :
    (tryProcess cfg db row { env with quota := d } .quota).1.charged = charges d := by
  cases d <;> rfl

end

section
variable {p t : Nat} {s : System} {env : Env} {row : OutboxRow}

theorem metered_quota (hjob : job? p s.world t = some ⟨row, .quota⟩) :
    s.metered p (.task t env) =
      (.task t { env with quota := (checkAndRecord s.tracker row.quotaKey env.clock).1 },
        (checkAndRecord s.tracker row.quotaKey env.clock).2, s.calls) := by
  simp only [System.metered, hjob]

theorem metered_send (hjob : job? p s.world t = some ⟨row, .send⟩) :
    s.metered p (.task t env) =
      (.task t env, s.tracker,
        Function.update s.calls row.quotaKey (s.calls row.quotaKey + 1)) := by
  simp only [System.metered, hjob]

theorem metered_other {stage : Stage} (hjob : job? p s.world t = some ⟨row, stage⟩)
    (hquota : stage ≠ .quota) (hsend : stage ≠ .send) :
    s.metered p (.task t env) = (.task t env, s.tracker, s.calls) := by
  simp only [System.metered, hjob]
  cases stage <;> first | rfl | exact absurd rfl hquota | exact absurd rfl hsend

theorem metered_none (hjob : job? p s.world t = none) :
    s.metered p (.task t env) = (.task t env, s.tracker, s.calls) := by
  simp only [System.metered, hjob]

end

section
variable {p : Nat} {key : Key} {g : Granularity} {ws : Time} {s s' : System}
variable {a : SystemAct} {n : Nat} {t : Nat} {env : Env} {w w' : World}
variable {stage : Stage} {row : OutboxRow}

/-- A pass that the condition holds of goes on to the provider call. -/
theorem charged_of_goesOn {cfg : Config} (hkey : row.quotaKey = key)
    (hjob : job? p s.world t = some ⟨row, stage⟩) (hcfg : config? p s.world = some cfg)
    (hcond : goesOn p key g ws s (.world (.task t env)) = true) (hstage : stage.charged = true)
    (hsend : stage ≠ .send) : (tryProcess cfg s.world.db row env stage).1.charged = true := by
  simp only [goesOn, hjob, hkey, hcfg] at hcond
  cases stage with
  | send => exact absurd rfl hsend
  | decrypt destination payload =>
    simp only [tryProcess]
    cases hunsealed : env.unsealed with
    | error e => simp [hunsealed, Except.isOk, Except.toBool] at hcond
    | ok u => cases payload <;> simp [Next.charged, Stage.charged] at hcond ⊢
  | quietHours | ciphertexts | cancellation =>
    simp only [tryProcess, Next.read]
    grind [Next.charged, Stage.charged]
  | _ => cases hstage

/-- A step of a pass changes the passes under way by that pass. -/
theorem ChargeStep.count {job : Job} (h : ChargeStep p key w (.task t env) w')
    (hjob : job? p w t = some job) : ∃ cfg, config? p w = some cfg ∧
      allUnderWay p key w' + (if charged key job then 1 else 0) = allUnderWay p key w +
        if job.row.quotaKey = key && (tryProcess cfg w.db job.row env job.stage).1.charged then 1
        else 0 := by
  cases h with
  | same hnone => exact absurd (hjob.symm.trans (hnone t env rfl)) (some_ne_none job)
  | @passed _ _ job' cfg _ hat hcfg hcount =>
    obtain rfl : job' = job := Option.some.inj (hat.symm.trans hjob)
    exact ⟨cfg, hcfg, hcount⟩

/-- The window's counter is what it was, and the provider calls and the passes under way. -/
def Balanced (p : Nat) (key : Key) (g : Granularity) (ws : Time) (n : Nat) (s : System) :
    Prop :=
  s.sent key g ws = n + s.calls key + allUnderWay p key s.world

/-- A step of a pass over a row of the key. -/
theorem Balanced.own (hkey : row.quotaKey = key) (hjob : job? p s.world t = some ⟨row, stage⟩)
    (hcond : goesOn p key g ws s (.world (.task t env)) = true)
    (hstep : ChargeStep p key s.world (s.metered p (.task t env)).1 w')
    (h : Balanced p key g ws n s) :
    Balanced p key g ws n
      ⟨w', (s.metered p (.task t env)).2.1, (s.metered p (.task t env)).2.2⟩ := by
  subst hkey
  have hbefore : sentIn (g.counter (s.tracker.counters row.quotaKey)) ws =
      n + s.calls row.quotaKey + allUnderWay p row.quotaKey s.world := h
  by_cases hquota : stage = .quota
  · -- the counter and the passes under way grow by one, or neither
    subst hquota
    have hws : g.windowStart s.tracker.zone env.clock = ws := by
      simpa [goesOn, hjob] using hcond
    rw [metered_quota hjob] at hstep ⊢
    obtain ⟨cfg, -, hcount⟩ := hstep.count hjob
    have hsent : sentIn (g.counter
        ((checkAndRecord s.tracker row.quotaKey env.clock).2.counters row.quotaKey))
        (g.windowStart s.tracker.zone env.clock) = _ := sentIn_checkAndRecord
    rw [hws, hbefore] at hsent
    simp only [charged_quota, charged, Stage.charged, decide_true, Bool.true_and,
      Bool.false_eq_true, if_false] at hcount
    refine hsent.trans ?_
    show _ = n + s.calls row.quotaKey + allUnderWay p row.quotaKey w'
    omega
  by_cases hsend : stage = .send
  · -- a pass that was under way has made its call
    subst hsend
    rw [metered_send hjob] at hstep ⊢
    obtain ⟨cfg, -, hcount⟩ := hstep.count hjob
    simp only [tryProcess, Next.charged, charged, Stage.charged, decide_true, Bool.true_and,
      Bool.false_eq_true, if_false, if_true] at hcount
    refine hbefore.trans ?_
    show _ = n + Function.update s.calls row.quotaKey _ row.quotaKey + allUnderWay p row.quotaKey w'
    rw [Function.update_self]
    omega
  · rw [metered_other hjob hquota hsend] at hstep ⊢
    obtain ⟨cfg, hcfg, hcount⟩ := hstep.count hjob
    refine hbefore.trans ?_
    show _ = n + s.calls row.quotaKey + allUnderWay p row.quotaKey w'
    cases hstage : stage.charged with
    | true =>
      have hnext := charged_of_goesOn rfl hjob hcfg hcond hstage hsend
      simp only [hnext, charged, hstage, decide_true, Bool.true_and] at hcount
      omega
    | false =>
      have hnext : (tryProcess cfg s.world.db row env stage).1.charged = false :=
        charged_next hquota hstage
      simp only [hnext, charged, hstage, decide_true, Bool.true_and] at hcount
      omega

/-- A step of a pass over a row of another key. -/
theorem Balanced.other (hkey : row.quotaKey ≠ key) (hjob : job? p s.world t = some ⟨row, stage⟩)
    (hstep : ChargeStep p key s.world (s.metered p (.task t env)).1 w')
    (h : Balanced p key g ws n s) :
    Balanced p key g ws n
      ⟨w', (s.metered p (.task t env)).2.1, (s.metered p (.task t env)).2.2⟩ := by
  have hsame {env' : Env} (hcharge : ChargeStep p key s.world (.task t env') w') :
      allUnderWay p key w' = allUnderWay p key s.world := by
    obtain ⟨cfg, -, hcount⟩ := hcharge.count hjob
    simpa only [charged, decide_eq_false hkey, Bool.false_and, Bool.false_eq_true, if_false,
      add_zero] using hcount
  unfold Balanced at h ⊢
  by_cases hquota : stage = .quota
  · subst hquota
    rw [metered_quota hjob] at hstep ⊢
    have hcheck : Quota.CheckStep s.tracker row.quotaKey env.clock _ _ := Quota.checkAndRecord_cases
    show sentIn (g.counter ((checkAndRecord s.tracker row.quotaKey env.clock).2.counters key)) ws =
      n + s.calls key + allUnderWay p key w'
    rw [hcheck.counters_of_ne (.symm hkey), hsame hstep]
    exact h
  by_cases hsend : stage = .send
  · subst hsend
    rw [metered_send hjob] at hstep ⊢
    show sentIn _ ws = n + Function.update s.calls row.quotaKey _ key + allUnderWay p key w'
    rw [Function.update_of_ne (.symm hkey), hsame hstep]
    exact h
  · rw [metered_other hjob hquota hsend] at hstep ⊢
    show sentIn _ ws = n + s.calls key + allUnderWay p key w'
    rw [hsame hstep]
    exact h

variable [UuidCrate]

/-- Every step that meets the condition keeps the balance. -/
theorem Balanced.step (hcond : goesOn p key g ws s a = true) (hs : s.step p a = some s')
    (h : Balanced p key g ws n s) : Balanced p key g ws n s' := by
  cases a with
  | refreshConfig config =>
    cases hs
    exact h
  | world a =>
    obtain ⟨w', hw, rfl⟩ := map_eq_some_iff.1 hs
    have hstep : ChargeStep p key s.world (s.metered p a).1 w' := chargeStep_of_step hw
    have hframe (hsame : allUnderWay p key w' = allUnderWay p key s.world) :
        Balanced p key g ws n ⟨w', s.tracker, s.calls⟩ := by
      unfold Balanced at h ⊢
      rw [hsame]
      exact h
    cases a with
    | task t env =>
      cases hjob : job? p s.world t with
      | none =>
        rw [metered_none hjob] at hstep ⊢
        cases hstep with
        | same _ hsame => exact hframe hsame
        | passed hat => exact absurd (hjob.symm.trans hat) (some_ne_none _).symm
      | some job =>
        by_cases hkey : job.row.quotaKey = key
        · exact h.own hkey hjob hcond hstep
        · exact h.other hkey hjob hstep
    | crash dead =>
      cases hstep with
      | same _ hsame => exact hframe hsame
      | crashed hnone =>
        have hzero : allUnderWay p key s.world = 0 := by simpa [goesOn] using hcond
        exact hframe (hnone.trans hzero.symm)
    | _ =>
      cases hstep with
      | same _ hsame => exact hframe hsame

end

/-- In every run of the world with the tracker of a dispatcher, from any tracker and with no pass of
the key under way, in which no such pass is stopped before its provider call: the counter of the
window that the checks are in has grown by the provider calls of the key and the passes under way.
-/
theorem charged_for_sends [UuidCrate] {p : Nat} {key : Key} {g : Granularity} {ws : Time}
    {w : World} {tracker : Tracker} (hstart : allUnderWay p key w = 0) {as : List SystemAct}
    {s : System}
    (h : Run.Steps (System.step p) (goesOn p key g ws · ·) ⟨w, tracker, fun _ => 0⟩ as s) :
    s.sent key g ws = System.sent ⟨w, tracker, fun _ => 0⟩ key g ws + s.calls key +
      allUnderWay p key s.world := by
  have hbalanced : Balanced p key g ws (System.sent ⟨w, tracker, fun _ => 0⟩ key g ws)
      ⟨w, tracker, fun _ => 0⟩ := by
    unfold Balanced
    rw [hstart]
    rfl
  have hend : Balanced p key g ws _ s := h.inv (fun _ _ _ hC hs hi => hi.step hC hs) hbalanced
  exact hend

/-! ### Runs on fixed inputs -/

/-- The key of the sample message. -/
def sampleKey : Key := (OutboxRow.quotaKey ((NewComms.sample ⟨7⟩ "k").outboxRow 0))

/-- A dispatcher of a tenant with quiet hours, and no message yet. -/
def sampleStart : System := ⟨.empty, .new Quota.utc, fun _ => 0⟩

/-- A message is claimed and passes the quota gate. -/
def sampleCharged : List Act :=
  [Act.startDispatcher { Config.sample with hasQuietHoursPolicy := true }, .openContext] ++
    Act.elect 0 ++ Act.accept 1 (.sample ⟨7⟩ "k") ++ [Act.task 0 {}] ++ Act.claimRow 0 ⟨7⟩ ++
    List.replicate 6 (Act.task 0 {})

/-- The pass goes on to its provider call. -/
def sampleCalled : List SystemAct :=
  (sampleCharged ++ List.replicate 5 (Act.task 0 {})).map .world

/-- One pass, charged and called for once. -/
theorem charged_for_sends_called :
    ∃ s, Run.Steps (@System.step .sample 0) (goesOn 0 sampleKey .day 0 · ·) sampleStart
        sampleCalled s ∧
      s.calls sampleKey = 1 ∧ s.sent sampleKey .day 0 = 1 := by
  obtain ⟨s, hs, hp⟩ := Run.Steps.exists_of_checked (@System.step .sample 0)
    (goesOn 0 sampleKey .day 0) sampleStart sampleCalled
    (fun s => s.calls sampleKey = 1 ∧ allUnderWay 0 sampleKey s.world = 0) (by decide +kernel)
  obtain ⟨hcalls, hnone⟩ := of_decide_eq_true hp
  refine ⟨s, hs, hcalls, ?_⟩
  have hsent := @charged_for_sends .sample 0 sampleKey .day 0 .empty (.new Quota.utc) rfl _ s hs
  rw [hcalls, hnone] at hsent
  exact hsent

/-- The pass ends with one more in the counter, and without a provider call. -/
def ChargedForNothing (stop : List Act) : Prop :=
  ∃ s, Run.Steps (@System.step .sample 0) Run.Any sampleStart
      ((sampleCharged ++ stop).map .world) s ∧
    sampleStart.sent sampleKey .day 0 = 0 ∧ s.sent sampleKey .day 0 = 1 ∧
    s.calls sampleKey = 0 ∧ allUnderWay 0 sampleKey s.world = 0

theorem chargedForNothing_of_exec {stop : List Act}
    (h : (Run.exec (@System.step .sample 0) sampleStart ((sampleCharged ++ stop).map .world)).any
      (fun s => s.sent sampleKey .day 0 = 1 ∧ s.calls sampleKey = 0 ∧
        allUnderWay 0 sampleKey s.world = 0) = true) : ChargedForNothing stop := by
  obtain ⟨s, hs, hp⟩ := Run.Steps.exists_of_exec _ _ _ _ h
  exact ⟨s, hs, rfl, of_decide_eq_true hp⟩

/-- A pass behind the gate that the quiet hours from midnight to half past two defer, that is found
cancelled, or that has no DEK, is charged. -/
theorem charged_without_call :
    ChargedForNothing [.task 0 { window := (QuietHours.resolveReschedule
      (fun _ => some Quota.utc) 0 "" "" (.ofMinutes 0 150) 0) }, .task 0 {}] ∧
    ChargedForNothing (List.replicate 3 (.task 0 {}) ++ [.cancel 0 ⟨7⟩ ⟨2⟩] ++
      List.replicate 2 (.task 0 {})) ∧
    ChargedForNothing (List.replicate 2 (.task 0 {}) ++ [.task 0 { unsealed := .error .dek }]) :=
  ⟨chargedForNothing_of_exec (by decide +kernel), chargedForNothing_of_exec (by decide +kernel),
    chargedForNothing_of_exec (by decide +kernel)⟩

end Charges

end Messgr
