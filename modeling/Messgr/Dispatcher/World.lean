import Messgr.Dispatcher.Worker
import Messgr.Lib.Run

/-!
# All the processes of one tenant

`World` is one tenant's database and the platform's switches, with every process that works on them:
dispatchers, each with its kill-switch cache, its refresh loop, its place in the election and the
tasks it spawned, and the tenant contexts of ingest. An `Act` is one thing that one of them does
between two points where another may run. `World.step` performs it, so a list of acts is an
interleaving. What was observable on the way is in `World.log`.
-/

namespace Messgr

open Option

/-! ## Tasks -/

/-- A claimed row, and what its task does with it next. -/
structure Job where
  row : OutboxRow
  stage : Stage
deriving DecidableEq

/-- The row a job is about. -/
abbrev Job.id (j : Job) : Uuid := j.row.commsRequestId

/-- The rest of a claimed batch. -/
abbrev Jobs := Table Job Job.id

/-- The batch after a step of the pass over one of its rows. -/
def Next.jobs (next : Next) (jobs : Jobs) (job : Job) : Jobs :=
  match next with
  | .goto stage => jobs.update (·.id = job.id) (fun j => { j with stage := stage }) fun _ => rfl
  | .ended _ => jobs.delete (·.id = job.id)

/-- The functions that a dispatcher spawns. Source: `src/dispatcher/worker.rs`,
`run_channel_loop`; `src/dispatcher/drain.rs`, `drain_released_scope`, `discard_engaged_scope`,
`run_release_drain`. -/
inductive TaskKind
  | channelLoop (channel : String)
  | drain (channel : String) (killSwitch : KillSwitch)
  | discard (killSwitch : KillSwitch)
  | release (killSwitch : KillSwitch)
deriving DecidableEq

/-- Where a task stands: at its first line, at the head of its loop, between the two reads of
`claim_exclusion`, before its claim, before it repeats a failed claim, in a claimed batch, waiting
for the tasks it spawned, or at its end. -/
inductive Pc
  | start
  | ready
  | snapshot (leasedUntil : Time) (switches : List KillSwitch)
  | claiming (leasedUntil : Time) (exclusion : ChannelExclusion)
  | delaying (leasedUntil : Time) (exclusion : ChannelExclusion)
  | working (jobs : Jobs)
  | awaiting (handles : List Nat)
  | ended

/-- The rows a task has claimed and not finished. -/
def Pc.jobs : Pc → Jobs
  | .working jobs => jobs
  | _ => ∅

/-- A spawned task of the dispatcher `owner`. -/
structure Task where
  owner : Nat
  kind : TaskKind
  pc : Pc

/-! ## Hosts -/

/-- Where a refresh loop is: asleep, between the two reads, before the swap, or in `on_delta` with
switches left. -/
inductive RefreshPc
  | idle
  | tenantRead (fresh : List KillSwitch)
  | bothRead (fresh : List KillSwitch) (platformRows : Option (List PlatformKillSwitch))
  | delta (newlyEngaged released : List KillSwitch)

/-- How far `main` of a dispatcher has come: waiting for the lock, elected, past the sweep, with
its channel loops spawned. Source: `src/bin/dispatcher.rs`, `main`. -/
inductive Phase
  | electing
  | elected
  | swept
  | leading
deriving DecidableEq

/-- What a dispatcher has besides its cache. -/
structure Dispatcher where
  cfg : Config
  phase : Phase
  draining : SwitchTable

/-- `draining` takes in a `hold` switch that was released. -/
def Dispatcher.drain (d : Dispatcher) (s : KillSwitch) : Dispatcher :=
  if s.onQueued = .hold then { d with draining := d.draining.upsert s } else d

/-- A dispatcher process, or a tenant context of an ingest process: the owner of a cache and its
refresh loop. -/
structure Host where
  alive : Bool
  cache : ActiveSet
  refresh : RefreshPc
  dispatcher : Option Dispatcher

/-- A dispatcher at its start. -/
def Host.newDispatcher (cfg : Config) : Host := ⟨true, .new, .idle, some ⟨cfg, .electing, ∅⟩⟩

/-- A tenant context just opened. Source: `src/tenant/registry.rs`, `get_or_open`. -/
def Host.newContext : Host := ⟨true, .new, .idle, none⟩

/-! ## The world -/

/-- What a run shows of itself. -/
inductive Obs
  | acquired (p : Nat)
  | refreshed (h : Nat) (platformRead : Bool)
  | seenEngaged (h : Nat) (killSwitch : KillSwitch)
  | drained (p : Nat) (id : Uuid)
  | leased (p t : Nat) (ids : List Uuid)
  | providerCall (p t : Nat) (id : Uuid) (attempts : Nat)
  | terminal (p t : Nat) (id : Uuid) (status : Status)
  | admitted (h : Nat) (c : NewComms)
  | cancelReturned (id : Uuid)
deriving DecidableEq

/-- One tenant with all its processes. `lock` is the holder of `LEADER_LOCK_KEY`, `admitted` the
requests that passed the kill-switch check, `cancelling` the calls of `cancel` between their
statements. Hosts and tasks are named by their place. -/
structure World where
  db : TenantDb
  platform : PlatformSwitchTable
  tenantId : Uuid
  lock : Option Nat
  hosts : List Host
  tasks : List Task
  admitted : List NewComms
  cancelling : List (Uuid × Uuid)
  log : List Obs

/-- One step of one process, with everything that the code does not decide. -/
inductive Act
  | startDispatcher (cfg : Config)
  | openContext
  | crash (h : Nat)
  | tryLock (p : Nat)
  | dropSession
  | sweep (p : Nat)
  | lead (p : Nat)
  | readTenant (h : Nat) (ok : Bool)
  | readPlatform (h : Nat) (ok : Bool)
  | swap (h : Nat)
  | react (h : Nat)
  | task (t : Nat) (env : Env)
  | createComms (h : Nat) (c : NewComms)
  | insert (now : Time) (c : NewComms)
  | cancel (now : Time) (id producerId : Uuid)
  | cancelFallback (id producerId : Uuid)
  | engage (s : KillSwitch)
  | release (id : Uuid) (releasedBy : String) (now : Time)
  | engagePlatform (s : PlatformKillSwitch)
  | releasePlatform (id : Uuid) (releasedBy : String) (now : Time)
  | setGates (gates : GateTables)

/-! ## Steps of the hosts -/

namespace World

/-- A host that runs. -/
def host? (w : World) (h : Nat) : Option Host := w.hosts[h]?.filter (·.alive)

/-- The world with one host changed. -/
def setHost (w : World) (h : Nat) (host : Host) : World := { w with hosts := w.hosts.set h host }

/-- `tokio::spawn`. -/
def spawn (w : World) (tasks : List Task) : World := { w with tasks := w.tasks ++ tasks }

theorem host?_eq_some {w : World} {h : Nat} {host : Host} :
    w.host? h = some host ↔ w.hosts[h]? = some host ∧ host.alive = true := by
  rw [host?, filter_eq_some_iff]

/-- A process ends, with all its tasks and its database sessions. -/
def crash (w : World) (h : Nat) : Option World := do
  let host ← w.host? h
  return { w with
    lock := if w.lock = some h then none else w.lock
    hosts := w.hosts.set h { host with alive := false }
    tasks := w.tasks.map fun task =>
      if task.owner = h then { task with pc := .ended } else task }

/-- `main` of a dispatcher goes from one phase to the next. -/
def advance (w : World) (p : Nat) (src dst : Phase) : Option (Dispatcher × World) := do
  let host ← w.host? p
  let d ← host.dispatcher
  if d.phase = src then
    return (d, w.setHost p { host with dispatcher := some { d with phase := dst } })
  else none

theorem advance_eq_some {w w' : World} {p : Nat} {src dst : Phase} {d : Dispatcher}
    (h : w.advance p src dst = some (d, w')) :
    ∃ host, w.host? p = some host ∧ host.dispatcher = some d ∧ d.phase = src ∧
      w' = w.setHost p { host with dispatcher := some { d with phase := dst } } := by
  simp only [advance, bind_eq_bind, bind_eq_some_iff] at h
  obtain ⟨host, hh, d', hd, h⟩ := h
  split at h
  · next hp =>
    cases h
    exact ⟨host, hh, hd, hp, rfl⟩
  · cases h

/-- `pg_try_advisory_lock` is granted, and `acquire` returns. Source: `src/dispatcher/leader.rs`,
`acquire`. -/
def tryLock (w : World) (p : Nat) : Option World :=
  if w.lock = none then do
    let (_, w') ← w.advance p .electing .elected
    return { w' with lock := some p, log := w'.log ++ [.acquired p] }
  else none

/-- The sweep of a new leader. Source: `dispatcher.rs`, `main`. -/
def sweep (w : World) (p : Nat) : Option World := do
  let (_, w') ← w.advance p .elected .swept
  return { w' with db := clearStaleLeases w'.db }

/-- A leader spawns the loop of every channel. Source: `dispatcher.rs`, `main`. -/
def lead (w : World) (p : Nat) : Option World := do
  let (d, w') ← w.advance p .swept .leading
  return w'.spawn (d.cfg.channels.map fun channel => ⟨p, .channelLoop channel, .start⟩)

/-- The first read of a refresh; a failed one fails the refresh. Source:
`src/kill_switch/cache.rs`, `refresh_with_platform`, `run_refresh_loop`. -/
def readTenant (w : World) (h : Nat) (ok : Bool) : Option World := do
  let host ← w.host? h
  match host.refresh with
  | .idle =>
    if ok then
      return w.setHost h { host with refresh := .tenantRead (listActive w.db.killSwitch) }
    else return w
  | _ => none

/-- The second read of a refresh; a failed one is passed on. -/
def readPlatform (w : World) (h : Nat) (ok : Bool) : Option World := do
  let host ← w.host? h
  match host.refresh with
  | .tenantRead fresh =>
    let platformRows := if ok then some (listActiveForTenant w.platform w.tenantId) else none
    return w.setHost h { host with refresh := .bothRead fresh platformRows }
  | _ => none

/-- The part of a refresh under the write lock. -/
def swap (w : World) (h : Nat) : Option World := do
  let host ← w.host? h
  match host.refresh with
  | .bothRead fresh platformRows =>
    let (delta, cache) := host.cache.swap fresh platformRows
    return { w with
      hosts := w.hosts.set h
        { host with cache := cache, refresh := .delta delta.newlyEngaged delta.released }
      log := w.log ++ .refreshed h platformRows.isSome :: delta.newlyEngaged.map (.seenEngaged h) }
  | _ => none

/-- What a dispatcher spawns for a switch that was engaged. Source: `dispatcher.rs`,
`main`. -/
def onEngaged (h : Nat) (host : Host) (s : KillSwitch) : List Task :=
  if host.dispatcher.isSome && s.onQueued = .discard then [⟨h, .discard s, .ready⟩] else []

/-- What a dispatcher spawns for a switch that was released. Source: `dispatcher.rs`,
`main`. -/
def onReleased (h : Nat) (host : Host) (s : KillSwitch) : List Task :=
  if host.dispatcher.isSome && s.onQueued = .hold then [⟨h, .release s, .start⟩] else []

/-- `on_delta` handles one switch: a dispatcher discards the backlog of a `discard` switch that was
engaged, and drains that of a `hold` switch that was released; a tenant context does nothing.
Source: `dispatcher.rs`, `main`; `registry.rs`, `get_or_open`. -/
def react (w : World) (h : Nat) : Option World := do
  let host ← w.host? h
  match host.refresh with
  | .delta (s :: newlyEngaged) released =>
    return (w.setHost h { host with refresh := .delta newlyEngaged released }).spawn
      (onEngaged h host s)
  | .delta [] (s :: released) =>
    return (w.setHost h { host with
      refresh := .delta [] released
      dispatcher := host.dispatcher.map (·.drain s) }).spawn (onReleased h host s)
  | .delta [] [] => return w.setHost h { host with refresh := .idle }
  | _ => none

end World

/-! ## Steps of the tasks -/

/-- What a step of a task did: where it stands now, the database after and what was seen. -/
structure Moved where
  pc : Pc
  db : TenantDb
  obs : List Obs

namespace TaskKind

/-- What a task does first with a row it claimed: a drain looks at the expiry itself, a discard only
writes. Source: `run_channel_loop`, `drain_released_scope`, `discard_engaged_scope`. -/
def firstStage (kind : TaskKind) (clock : Time) (row : OutboxRow) : Stage :=
  match kind with
  | .drain _ _ => if row.expiresAt.any (· ≤ clock) then .bounded .expired 1 else .expiry
  | .discard _ => .bounded .discarded 1
  | _ => .expiry

/-- The batch that a claim returned. -/
def batch (kind : TaskKind) (clock : Time) (rows : OutboxRows) : Jobs :=
  rows.map (fun row => ⟨row, kind.firstStage clock row⟩) fun _ => rfl

/-- After an empty claim: a channel loop goes on, a drain or a discard is done. -/
def onEmpty : TaskKind → Pc
  | .channelLoop _ => .ready
  | _ => .ended

/-- After a failed claim: a channel loop repeats it after a delay, a drain or a discard starts over.
-/
def onFailure (kind : TaskKind) (leasedUntil : Time) (exclusion : ChannelExclusion) : Pc :=
  match kind with
  | .channelLoop _ => .delaying leasedUntil exclusion
  | _ => .ready

section
variable [UuidCrate]

/-- The claim of a task. Source: `run_channel_loop`, `drain_released_scope`,
`discard_engaged_scope`. -/
def query (kind : TaskKind) (cfg : Config) (db : TenantDb) (env : Env) (leasedUntil : Time)
    (exclusion : ChannelExclusion) : Option (OutboxRows × TenantDb) :=
  match kind with
  | .channelLoop channel =>
    claim db env.now channel claimBatchSize leasedUntil exclusion env.pick
  | .drain channel s =>
    claimForScope db env.now (some channel) s cfg.releaseRate leasedUntil exclusion env.pick
  | .discard s => claimForScope db env.now none s cfg.releaseRate leasedUntil exclusion env.pick
  | .release _ => none

/-- The steps of a task that touch no row: the `LISTEN` of a channel loop, and the reads from which
a claim's exclusion is built. Source: `run_channel_loop`, `DispatcherContext::claim_exclusion`,
`drain_released_scope`, `discard_engaged_scope`. -/
def loopStep (kind : TaskKind) (cache : ActiveSet) (draining : SwitchTable) (env : Env) :
    Pc → Option Pc
  | .start =>
    match kind with
    | .channelLoop _ => some (if env.reply = .ok then .ready else .ended)
    | _ => none
  | .ready =>
    let leasedUntil := env.clock + leaseDuration
    match kind with
    | .channelLoop _ => some (.snapshot leasedUntil cache.activeSnapshot)
    | .drain channel _ =>
      some (.claiming leasedUntil (exclusionForChannel cache.activeSnapshot channel))
    | .discard _ => some (.claiming leasedUntil .default)
    | .release _ => none
  | .snapshot leasedUntil switches =>
    match kind with
    | .channelLoop channel =>
      some (.claiming leasedUntil (exclusionForChannel (switches ++ draining.rows) channel))
    | _ => none
  | .delaying leasedUntil exclusion => some (.claiming leasedUntil exclusion)
  | _ => none

end

end TaskKind

namespace Task

variable [UuidCrate]

/-- The claim of a task and what follows. A failed one leased nothing, or rows that the task does
not learn of. -/
def claimStep (task : Task) (t : Nat) (cfg : Config) (db : TenantDb) (env : Env)
    (leasedUntil : Time) (exclusion : ChannelExclusion) : Option Moved :=
  let failure := task.kind.onFailure leasedUntil exclusion
  let leased : Obs := .leased task.owner t env.pick.ids
  match env.reply with
  | .failed => some ⟨failure, db, []⟩
  | .lost => do
    let (_, db') ← task.kind.query cfg db env leasedUntil exclusion
    return ⟨failure, db', [leased]⟩
  | .ok => do
    let (rows, db') ← task.kind.query cfg db env leasedUntil exclusion
    let pc := if rows.rows.isEmpty then task.kind.onEmpty
      else .working (task.kind.batch env.clock rows)
    return ⟨pc, db', [leased]⟩

/-- What a step of a pass shows: the call of the provider, or the status written. -/
def passObs (task : Task) (t : Nat) (env : Env) (job : Job) : List Obs :=
  match job.stage with
  | .send => [.providerCall task.owner t job.id job.row.attempts]
  | .terminal status _ _ =>
    if env.reply = .failed then [] else [.terminal task.owner t job.id status]
  | .bounded write _ =>
    if env.reply = .failed then [] else [.terminal task.owner t job.id write.status]
  | _ => []

/-- One step of the pass over the first row of a batch. -/
def passStep (task : Task) (t : Nat) (cfg : Config) (db : TenantDb) (env : Env) (jobs : Jobs)
    (job : Job) : Moved :=
  let (next, db') := tryProcess cfg db job.row env job.stage
  ⟨.working (next.jobs jobs job), db', task.passObs t env job⟩

/-- One step of a channel loop, a drain or a discard. -/
def move (task : Task) (t : Nat) (cache : ActiveSet) (d : Dispatcher) (db : TenantDb) (env : Env) :
    Option Moved :=
  match task.pc with
  | .claiming leasedUntil exclusion => task.claimStep t d.cfg db env leasedUntil exclusion
  | .working jobs =>
    match jobs.rows with
    | [] => some ⟨.ready, db, []⟩
    | job :: _ => some (task.passStep t d.cfg db env jobs job)
  | pc => (task.kind.loopStep cache d.draining env pc).map (⟨·, db, []⟩)

end Task

namespace World

/-- One step of `run_release_drain`: it spawns a drain for every channel, and when all have ended
takes the switch out of `draining`. Source: `drain.rs`, `run_release_drain`. -/
def releaseStep (w : World) (t : Nat) (task : Task) (host : Host) (d : Dispatcher)
    (s : KillSwitch) : Option World :=
  match task.pc with
  | .start =>
    let handles := List.range' w.tasks.length d.cfg.channels.length
    some ({ w with tasks := w.tasks.set t { task with pc := .awaiting handles } }.spawn
      (d.cfg.channels.map fun channel => ⟨task.owner, .drain channel s, .ready⟩))
  | .awaiting handles =>
    if handles.all fun i => w.tasks[i]?.any fun child => child.pc matches .ended then
      let d' := { d with draining := d.draining.delete (·.id = s.id) }
      some { w with
        hosts := w.hosts.set task.owner { host with dispatcher := some d' }
        tasks := w.tasks.set t { task with pc := .ended }
        log := w.log ++ [.drained task.owner s.id] }
    else none
  | _ => none

/-- The world after a task moved. -/
def moved (w : World) (t : Nat) (task : Task) (m : Moved) : World :=
  { w with
    db := m.db
    tasks := w.tasks.set t { task with pc := m.pc }
    log := w.log ++ m.obs }

variable [UuidCrate]

/-- One step of a task of a dispatcher that runs. -/
def taskStep (w : World) (t : Nat) (env : Env) : Option World := do
  let task ← w.tasks[t]?
  let host ← w.host? task.owner
  let d ← host.dispatcher
  match task.kind with
  | .release s => w.releaseStep t task host d s
  | _ => do
    let m ← task.move t host.cache d w.db env
    return w.moved t task m

/-! ## Steps of ingest and of operators -/

/-- A request up to the kill-switch check: a retry of an accepted one is answered with it, one that
a switch blocks is refused. Source: `src/ingest/handler.rs`. -/
def createComms (w : World) (h : Nat) (c : NewComms) : Option World := do
  let host ← w.host? h
  if (findIdempotentReply w.db c.producerId c.idempotencyKey).isSome then return w
  else if (host.cache.blockingScope c.channel c.producerId c.campaignId).isSome then return w
  else return { w with admitted := c :: w.admitted, log := w.log ++ [.admitted h c] }

/-- The transaction of an admitted request, under an id that was minted for it. -/
def insert (w : World) (now : Time) (c : NewComms) : Option World :=
  if c ∈ w.admitted ∧ w.db.commsRequest.rows.all fun r => r.id ≠ c.commsRequestId then
    match insertTransactional w.db now c with
    | .ok (_, db) => some { w with db := db }
    | .error _ => some w
  else none

/-- The first statement of `cancel`. -/
def cancel (w : World) (now : Time) (id producerId : Uuid) : World :=
  let (found, db) := cancelOutbox w.db now id producerId
  if found then { w with db := db, log := w.log ++ [.cancelReturned id] }
  else { w with db := db, cancelling := (id, producerId) :: w.cancelling }

/-- The second statement of `cancel`. -/
def cancelFallback (w : World) (id producerId : Uuid) : Option World :=
  if (id, producerId) ∈ w.cancelling then
    match Messgr.cancelFallback w.db id producerId with
    | .cancelled => some { w with log := w.log ++ [.cancelReturned id] }
    | _ => some w
  else none

/-- Whether no switch of either tier has the id. -/
def freshSwitchId (w : World) (id : Uuid) : Bool :=
  (w.db.killSwitch.rows.all fun s => s.id ≠ id) && w.platform.rows.all fun s => s.id ≠ id

/-- Performs one act, if it can be performed. -/
def step (w : World) : Act → Option World
  | .startDispatcher cfg => some { w with hosts := w.hosts ++ [.newDispatcher cfg] }
  | .openContext => some { w with hosts := w.hosts ++ [.newContext] }
  | .crash h => w.crash h
  | .tryLock p => w.tryLock p
  | .dropSession => some { w with lock := none }
  | .sweep p => w.sweep p
  | .lead p => w.lead p
  | .readTenant h ok => w.readTenant h ok
  | .readPlatform h ok => w.readPlatform h ok
  | .swap h => w.swap h
  | .react h => w.react h
  | .task t env => w.taskStep t env
  | .createComms h c => w.createComms h c
  | .insert now c => w.insert now c
  | .cancel now id producerId => some (w.cancel now id producerId)
  | .cancelFallback id producerId => w.cancelFallback id producerId
  | .engage s =>
    if w.freshSwitchId s.id then
      (engage w.db.killSwitch s).map fun table => { w with db.killSwitch := table }
    else none
  | .release id releasedBy now =>
    some { w with db.killSwitch := release w.db.killSwitch id releasedBy now }
  | .engagePlatform s =>
    if w.freshSwitchId s.id then
      (engagePlatform w.platform s).map fun table => { w with platform := table }
    else none
  | .releasePlatform id releasedBy now =>
    some { w with platform := releasePlatform w.platform id releasedBy now }
  | .setGates gates => some { w with db.gates := gates }

end World

/-! ## Samples -/

/-- A tenant just provisioned, before any process, for runs on fixed inputs. -/
def World.empty : World := ⟨.empty, ∅, ⟨0⟩, none, [], [], [], [], []⟩

/-- The settings of a tenant with one channel. -/
def Config.sample : Config := ⟨["sms"], 500, false, false⟩

/-- The dispatcher `p` is elected, sweeps and spawns its loops. -/
def Act.elect (p : Nat) : List Act := [.tryLock p, .sweep p, .lead p]

/-- A message is accepted through the tenant context `h`. -/
def Act.accept (h : Nat) (c : NewComms) : List Act := [.createComms h c, .insert 0 c]

/-- The host `h` refreshes its cache and reacts to one switch. -/
def Act.refresh (h : Nat) : List Act :=
  [.readTenant h true, .readPlatform h true, .swap h, .react h, .react h]

/-- The task `t` claims one message. -/
def Act.claim (t : Nat) (id : Uuid) : Act := .task t { pick := .one id }

/-- The channel loop `t` builds its exclusion and claims one message. -/
def Act.claimRow (t : Nat) (id : Uuid) : List Act := [.task t {}, .task t {}, .claim t id]

end Messgr
