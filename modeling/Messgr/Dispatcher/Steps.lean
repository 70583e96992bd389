import Messgr.Dispatcher.World

/-!
# What the acts do

`World.Step` lists what `World.step` does when it is possible, with the facts that made it so: one
constructor for each outcome of each act, those of the refresh loops in `World.RefreshStep` and
those of the tasks in `World.TaskStep`. `World.step_cases` says that every step is one of these, and
every invariant of the world is proved by cases on them.
-/

namespace Messgr

open List Option

namespace World

/-! ## Refresh loops -/

/-- The steps of a refresh loop: they change its host; the last ones spawn tasks. -/
inductive RefreshStep (w : World) (h : Nat) (host : Host) : Act → World → Prop
  | failed : RefreshStep w h host (.readTenant h false) w
  | tenant (pc : host.refresh = .idle) :
      RefreshStep w h host (.readTenant h true)
        (w.setHost h { host with refresh := .tenantRead (listActive w.db.killSwitch) })
  | platform {ok : Bool} {fresh : List KillSwitch}
      {platformRows : Option (List PlatformKillSwitch)} (pc : host.refresh = .tenantRead fresh)
      (rows : ∀ rows, platformRows = some rows → rows = listActiveForTenant w.platform w.tenantId) :
      RefreshStep w h host (.readPlatform h ok)
        (w.setHost h { host with refresh := .bothRead fresh platformRows })
  | swapped {fresh : List KillSwitch} {platformRows : Option (List PlatformKillSwitch)}
      {delta : RefreshDelta} {cache : ActiveSet} (pc : host.refresh = .bothRead fresh platformRows)
      (swap : host.cache.swap fresh platformRows = (delta, cache)) :
      RefreshStep w h host (.swap h) { w with
        hosts := w.hosts.set h
          { host with cache := cache, refresh := .delta delta.newlyEngaged delta.released }
        log := w.log ++ .refreshed h platformRows.isSome ::
          delta.newlyEngaged.map (.seenEngaged h) }
  | engaged {s : KillSwitch} {newlyEngaged released : List KillSwitch}
      (pc : host.refresh = .delta (s :: newlyEngaged) released) :
      RefreshStep w h host (.react h)
        ((w.setHost h { host with refresh := .delta newlyEngaged released }).spawn
          (onEngaged h host s))
  | released {s : KillSwitch} {released : List KillSwitch}
      (pc : host.refresh = .delta [] (s :: released)) :
      RefreshStep w h host (.react h)
        ((w.setHost h { host with
          refresh := .delta [] released
          dispatcher := host.dispatcher.map (·.drain s) }).spawn (onReleased h host s))
  | handled (pc : host.refresh = .delta [] []) :
      RefreshStep w h host (.react h) (w.setHost h { host with refresh := .idle })

/-- The task that a switch that was engaged makes a dispatcher spawn. -/
theorem mem_onEngaged {h : Nat} {host : Host} {s : KillSwitch} {task : Task}
    (ht : task ∈ onEngaged h host s) :
    host.dispatcher.isSome = true ∧ s.onQueued = .discard ∧ task = ⟨h, .discard s, .ready⟩ := by
  simpa [onEngaged, and_assoc] using ht

/-- The task that a switch that was released makes a dispatcher spawn. -/
theorem mem_onReleased {h : Nat} {host : Host} {s : KillSwitch} {task : Task}
    (ht : task ∈ onReleased h host s) :
    host.dispatcher.isSome = true ∧ s.onQueued = .hold ∧ task = ⟨h, .release s, .start⟩ := by
  simpa [onReleased, and_assoc] using ht

section
variable {w w' : World} {h : Nat}

theorem readTenant_cases {ok : Bool} (hs : w.readTenant h ok = some w') :
    ∃ host, w.host? h = some host ∧ RefreshStep w h host (.readTenant h ok) w' := by
  obtain ⟨host, hh, hs⟩ := bind_eq_some_iff.1 hs
  refine ⟨host, hh, ?_⟩
  split at hs
  · next pc =>
    cases ok with
    | true => cases hs; exact .tenant pc
    | false => cases hs; exact .failed
  · cases hs

theorem readPlatform_cases {ok : Bool} (hs : w.readPlatform h ok = some w') :
    ∃ host, w.host? h = some host ∧ RefreshStep w h host (.readPlatform h ok) w' := by
  obtain ⟨host, hh, hs⟩ := bind_eq_some_iff.1 hs
  refine ⟨host, hh, ?_⟩
  split at hs
  · next pc =>
    cases hs
    refine .platform pc fun rows hrows => ?_
    split at hrows <;> cases hrows
    rfl
  · cases hs

theorem swap_cases (hs : w.swap h = some w') :
    ∃ host, w.host? h = some host ∧ RefreshStep w h host (.swap h) w' := by
  obtain ⟨host, hh, hs⟩ := bind_eq_some_iff.1 hs
  refine ⟨host, hh, ?_⟩
  split at hs
  · next pc =>
    cases hs
    exact .swapped pc rfl
  · cases hs

theorem react_cases (hs : w.react h = some w') :
    ∃ host, w.host? h = some host ∧ RefreshStep w h host (.react h) w' := by
  obtain ⟨host, hh, hs⟩ := bind_eq_some_iff.1 hs
  refine ⟨host, hh, ?_⟩
  split at hs
  · next pc => cases hs; exact .engaged pc
  · next pc => cases hs; exact .released pc
  · next pc => cases hs; exact .handled pc
  · cases hs

end

/-! ## Tasks -/

variable [UuidCrate]

/-- A task of a dispatcher that runs. -/
structure Runs (w : World) (t : Nat) (task : Task) (host : Host) (d : Dispatcher) : Prop where
  lookup : w.tasks[t]? = some task
  alive : w.host? task.owner = some host
  dispatcher : host.dispatcher = some d

/-- The steps of tasks, one constructor for each kind of step. -/
inductive TaskStep (w : World) (t : Nat) (env : Env) : World → Prop
  | looped {task : Task} {host : Host} {d : Dispatcher} {pc : Pc} (runs : w.Runs t task host d)
      (loop : task.kind.loopStep host.cache d.draining env task.pc = some pc) :
      TaskStep w t env (w.moved t task ⟨pc, w.db, []⟩)
  | failed {task : Task} {host : Host} {d : Dispatcher} {leasedUntil : Time}
      {exclusion : ChannelExclusion} (runs : w.Runs t task host d)
      (pc : task.pc = .claiming leasedUntil exclusion) (reply : env.reply = .failed) :
      TaskStep w t env (w.moved t task ⟨task.kind.onFailure leasedUntil exclusion, w.db, []⟩)
  | lost {task : Task} {host : Host} {d : Dispatcher} {leasedUntil : Time}
      {exclusion : ChannelExclusion} {rows : OutboxRows} {db' : TenantDb}
      (runs : w.Runs t task host d) (pc : task.pc = .claiming leasedUntil exclusion)
      (reply : env.reply = .lost)
      (query : task.kind.query d.cfg w.db env leasedUntil exclusion = some (rows, db')) :
      TaskStep w t env (w.moved t task ⟨task.kind.onFailure leasedUntil exclusion, db',
        [.leased task.owner t env.pick.ids]⟩)
  | claimed {task : Task} {host : Host} {d : Dispatcher} {leasedUntil : Time}
      {exclusion : ChannelExclusion} {rows : OutboxRows} {db' : TenantDb}
      (runs : w.Runs t task host d) (pc : task.pc = .claiming leasedUntil exclusion)
      (reply : env.reply = .ok)
      (query : task.kind.query d.cfg w.db env leasedUntil exclusion = some (rows, db')) :
      TaskStep w t env (w.moved t task ⟨if rows.rows.isEmpty then task.kind.onEmpty
        else .working (task.kind.batch env.clock rows), db',
        [.leased task.owner t env.pick.ids]⟩)
  | batchDone {task : Task} {host : Host} {d : Dispatcher} {jobs : Jobs}
      (runs : w.Runs t task host d) (pc : task.pc = .working jobs) (empty : jobs.rows = []) :
      TaskStep w t env (w.moved t task ⟨.ready, w.db, []⟩)
  | passed {task : Task} {host : Host} {d : Dispatcher} {jobs : Jobs} {job : Job}
      {rest : List Job} (runs : w.Runs t task host d) (pc : task.pc = .working jobs)
      (head : jobs.rows = job :: rest) :
      TaskStep w t env (w.moved t task (task.passStep t d.cfg w.db env jobs job))
  | spawned {task : Task} {host : Host} {d : Dispatcher} {s : KillSwitch}
      (runs : w.Runs t task host d) (kind : task.kind = .release s) (pc : task.pc = .start) :
      TaskStep w t env ({ w with
        tasks := w.tasks.set t { task with
          pc := .awaiting (List.range' w.tasks.length d.cfg.channels.length) } }.spawn
        (d.cfg.channels.map fun channel => ⟨task.owner, .drain channel s, .ready⟩))
  | drained {task : Task} {host : Host} {d : Dispatcher} {s : KillSwitch} {handles : List Nat}
      (runs : w.Runs t task host d) (kind : task.kind = .release s)
      (pc : task.pc = .awaiting handles) :
      TaskStep w t env { w with
        hosts := w.hosts.set task.owner { host with
          dispatcher := some { d with draining := d.draining.delete (·.id = s.id) } }
        tasks := w.tasks.set t { task with pc := .ended }
        log := w.log ++ [.drained task.owner s.id] }

/-- Every step of a task is one of these. -/
theorem taskStep_cases {w w' : World} {t : Nat} {env : Env} (h : w.taskStep t env = some w') :
    w.TaskStep t env w' := by
  simp only [taskStep, bind_eq_bind, bind_eq_some_iff] at h
  obtain ⟨task, ht, host, hh, d, hd, h⟩ := h
  have hr : w.Runs t task host d := ⟨ht, hh, hd⟩
  have key : ∀ {w'}, (task.move t host.cache d w.db env).map (w.moved t task) = some w' →
      w.TaskStep t env w' := by
    intro w' h
    obtain ⟨m, hm, rfl⟩ := map_eq_some_iff.1 h
    cases hpc : task.pc with
    | claiming leasedUntil exclusion =>
      simp only [Task.move, hpc, Task.claimStep] at hm
      cases hreply : env.reply with
      | failed =>
        rw [hreply] at hm
        cases hm
        exact .failed hr hpc hreply
      | lost =>
        simp only [hreply, bind_eq_bind, bind_eq_some_iff] at hm
        obtain ⟨⟨rows, db'⟩, hq, hm⟩ := hm
        cases hm
        exact .lost hr hpc hreply hq
      | ok =>
        simp only [hreply, bind_eq_bind, bind_eq_some_iff] at hm
        obtain ⟨⟨rows, db'⟩, hq, hm⟩ := hm
        cases hm
        exact .claimed hr hpc hreply hq
    | working jobs =>
      simp only [Task.move, hpc] at hm
      split at hm
      · next hrows => cases hm; exact .batchDone hr hpc hrows
      · next job rest hrows => cases hm; exact .passed hr hpc hrows
    | _ =>
      simp only [Task.move, hpc] at hm
      obtain ⟨pc, hpc', rfl⟩ := map_eq_some_iff.1 hm
      exact .looped hr (hpc ▸ hpc')
  cases hk : task.kind with
  | release s =>
    rw [hk] at h
    simp only [releaseStep] at h
    split at h
    · next hpc =>
      cases h
      exact .spawned hr hk hpc
    · next handles hpc =>
      split at h
      · cases h
        exact .drained hr hk hpc
      · cases h
    · cases h
  | channelLoop channel | drain channel s | discard s =>
    rw [hk] at h
    obtain ⟨m, hm, h⟩ := bind_eq_some_iff.1 h
    exact key (by rw [hm]; exact h)

/-! ## All acts -/

/-- What the acts do, one constructor for each outcome. -/
inductive Step (w : World) : Act → World → Prop
  | started {cfg : Config} :
      Step w (.startDispatcher cfg) { w with hosts := w.hosts ++ [.newDispatcher cfg] }
  | opened : Step w .openContext { w with hosts := w.hosts ++ [.newContext] }
  | crashed {h : Nat} {host : Host} (alive : w.host? h = some host) :
      Step w (.crash h) { w with
        lock := if w.lock = some h then none else w.lock
        hosts := w.hosts.set h { host with alive := false }
        tasks := w.tasks.map fun task =>
          if task.owner = h then { task with pc := .ended } else task }
  | acquired {p : Nat} {host : Host} {d : Dispatcher} (alive : w.host? p = some host)
      (dispatcher : host.dispatcher = some d) (phase : d.phase = .electing) :
      Step w (.tryLock p) { w with
        lock := some p
        hosts := w.hosts.set p { host with dispatcher := some { d with phase := .elected } }
        log := w.log ++ [.acquired p] }
  | dropped : Step w .dropSession { w with lock := none }
  | swept {p : Nat} {host : Host} {d : Dispatcher} (alive : w.host? p = some host)
      (dispatcher : host.dispatcher = some d) (phase : d.phase = .elected) :
      Step w (.sweep p) { w with
        db := clearStaleLeases w.db
        hosts := w.hosts.set p { host with dispatcher := some { d with phase := .swept } } }
  | led {p : Nat} {host : Host} {d : Dispatcher} (alive : w.host? p = some host)
      (dispatcher : host.dispatcher = some d) (phase : d.phase = .swept) :
      Step w (.lead p) { w with
        hosts := w.hosts.set p { host with dispatcher := some { d with phase := .leading } }
        tasks := w.tasks ++ d.cfg.channels.map fun ch => ⟨p, .channelLoop ch, .start⟩ }
  | refresh {h : Nat} {host : Host} {a : Act} {w' : World} (alive : w.host? h = some host)
      (step : w.RefreshStep h host a w') : Step w a w'
  | task {t : Nat} {env : Env} {w' : World} (step : w.TaskStep t env w') : Step w (.task t env) w'
  | refused {h : Nat} {c : NewComms} : Step w (.createComms h c) w
  | admitted {h : Nat} {c : NewComms} {host : Host} (alive : w.host? h = some host)
      (free : host.cache.blockingScope c.channel c.producerId c.campaignId = none) :
      Step w (.createComms h c)
        { w with admitted := c :: w.admitted, log := w.log ++ [.admitted h c] }
  | inserted {now : Time} {c : NewComms} {outcome : InsertOutcome} {db : TenantDb}
      (fresh : ∀ r ∈ w.db.commsRequest, r.id ≠ c.commsRequestId)
      (insert : insertTransactional w.db now c = .ok (outcome, db)) :
      Step w (.insert now c) { w with db := db }
  | insertFailed {now : Time} {c : NewComms} : Step w (.insert now c) w
  | cancelled {now : Time} {id producerId : Uuid}
      (found : (cancelOutbox w.db now id producerId).1 = true) :
      Step w (.cancel now id producerId) { w with
        db := (cancelOutbox w.db now id producerId).2
        log := w.log ++ [.cancelReturned id] }
  | cancelMissed {now : Time} {id producerId : Uuid} :
      Step w (.cancel now id producerId) { w with
        cancelling := (id, producerId) :: w.cancelling }
  | wasCancelled {id producerId : Uuid}
      (found : Messgr.cancelFallback w.db id producerId = .cancelled) :
      Step w (.cancelFallback id producerId) { w with log := w.log ++ [.cancelReturned id] }
  | notCancelled {id producerId : Uuid} : Step w (.cancelFallback id producerId) w
  | engaged {s : KillSwitch} {table : SwitchTable} (fresh : w.freshSwitchId s.id = true)
      (engage : engage w.db.killSwitch s = some table) :
      Step w (.engage s) { w with db.killSwitch := table }
  | released {id : Uuid} {releasedBy : String} {now : Time} :
      Step w (.release id releasedBy now)
        { w with db.killSwitch := release w.db.killSwitch id releasedBy now }
  | engagedPlatform {s : PlatformKillSwitch} {table : PlatformSwitchTable}
      (fresh : w.freshSwitchId s.id = true)
      (engage : engagePlatform w.platform s = some table) :
      Step w (.engagePlatform s) { w with platform := table }
  | releasedPlatform {id : Uuid} {releasedBy : String} {now : Time} :
      Step w (.releasePlatform id releasedBy now)
        { w with platform := releasePlatform w.platform id releasedBy now }
  | gates {gates : GateTables} : Step w (.setGates gates) { w with db.gates := gates }

/-- Every step is one of these. -/
theorem step_cases {w w' : World} {a : Act} (hs : w.step a = some w') : w.Step a w' := by
  cases a with
  | startDispatcher cfg => cases hs; exact .started
  | openContext => cases hs; exact .opened
  | crash h =>
    obtain ⟨host, hh, hs⟩ := bind_eq_some_iff.1 hs
    cases hs
    exact .crashed hh
  | tryLock p =>
    simp only [step, tryLock] at hs
    split at hs
    · obtain ⟨⟨d, w1⟩, h1, hs⟩ := bind_eq_some_iff.1 hs
      obtain ⟨host, hh, hd, hp, rfl⟩ := advance_eq_some h1
      cases hs
      exact .acquired hh hd hp
    · cases hs
  | dropSession => cases hs; exact .dropped
  | sweep p =>
    obtain ⟨⟨d, w1⟩, h1, hs⟩ := bind_eq_some_iff.1 hs
    obtain ⟨host, hh, hd, hp, rfl⟩ := advance_eq_some h1
    cases hs
    exact .swept hh hd hp
  | lead p =>
    obtain ⟨⟨d, w1⟩, h1, hs⟩ := bind_eq_some_iff.1 hs
    obtain ⟨host, hh, hd, hp, rfl⟩ := advance_eq_some h1
    cases hs
    exact .led hh hd hp
  | readTenant h ok => exact let ⟨_, hh, hs⟩ := readTenant_cases hs; .refresh hh hs
  | readPlatform h ok => exact let ⟨_, hh, hs⟩ := readPlatform_cases hs; .refresh hh hs
  | swap h => exact let ⟨_, hh, hs⟩ := swap_cases hs; .refresh hh hs
  | react h => exact let ⟨_, hh, hs⟩ := react_cases hs; .refresh hh hs
  | task t env => exact .task (taskStep_cases hs)
  | createComms h c =>
    obtain ⟨host, hh, hs⟩ := bind_eq_some_iff.1 hs
    split_ifs at hs with hr hb <;> cases hs
    · exact .refused
    · exact .refused
    · exact .admitted hh (not_isSome_iff_eq_none.1 hb)
  | insert now c =>
    simp only [step, insert] at hs
    split at hs
    · next hc =>
      split at hs <;> cases hs
      · next hi => exact .inserted (by simpa [Table.mem_def] using hc.2) hi
      · exact .insertFailed
    · cases hs
  | cancel now id producerId =>
    cases hs
    simp only [cancel]
    split
    · next hf => exact .cancelled hf
    · next hf =>
      rw [cancelOutbox_not_found (by simpa using hf)]
      exact .cancelMissed
  | cancelFallback id producerId =>
    simp only [step, cancelFallback] at hs
    split at hs
    · split at hs <;> cases hs
      · next hf => exact .wasCancelled hf
      · exact .notCancelled
    · cases hs
  | engage s =>
    simp only [step] at hs
    split at hs
    · next hf =>
      obtain ⟨table, ht, rfl⟩ := map_eq_some_iff.1 hs
      exact .engaged hf ht
    · cases hs
  | release id releasedBy now => cases hs; exact .released
  | engagePlatform s =>
    simp only [step] at hs
    split at hs
    · next hf =>
      obtain ⟨table, ht, rfl⟩ := map_eq_some_iff.1 hs
      exact .engagedPlatform hf ht
    · cases hs
  | releasePlatform id releasedBy now => cases hs; exact .releasedPlatform
  | setGates gates => cases hs; exact .gates

end World

end Messgr
