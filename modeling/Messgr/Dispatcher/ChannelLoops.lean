import Messgr.Dispatcher.Queue

/-!
# The exclusions of channel loops

A channel loop reads the engaged switches, then the draining ones, builds its exclusion and claims
with it until a claim succeeds. `LoopStep` is what a step does with a loop,
`ChannelExclusion.Covers` that an exclusion leaves out whatever a switch matches. A repeated claim
uses the exclusion of the first attempt: `claims_use_current_switches` holds for runs in which that
still covers the switches when a claim fails.
-/

namespace Messgr

open List Table Bool World

/-! ## Exclusions and the switches behind them -/

/-- The two places from which a channel loop takes the switches of its exclusion. -/
inductive SwitchSource
  | active
  | draining
deriving DecidableEq

/-- The switches of a host: the active set of its cache, or those it drains. -/
def World.switches (w : World) (p : Nat) (source : SwitchSource) : List KillSwitch :=
  match w.hosts[p]?, source with
  | some host, .active => host.cache.activeSnapshot
  | some host, .draining => host.dispatcher.elim [] (·.draining.rows)
  | none, _ => []

/-- The sources of a loop's owner, as its steps read them. -/
theorem mem_of_switches {w : World} {p : Nat} {source : SwitchSource} {s : KillSwitch} {host : Host}
    {d : Dispatcher} (alive : w.host? p = some host)
    (dispatcher : host.dispatcher = some d) (hs : s ∈ w.switches p source) :
    (source = .active → s ∈ host.cache.activeSnapshot) ∧
      (source = .draining → s ∈ d.draining.rows) := by
  have hget := (host?_eq_some.1 alive).1
  refine ⟨?_, ?_⟩
  · rintro rfl
    simpa [World.switches, hget] using hs
  · rintro rfl
    simpa [World.switches, hget, dispatcher] using hs

/-- Whether an exclusion leaves out all that another does. -/
def ChannelExclusion.subsumes (e e' : ChannelExclusion) : Bool :=
  e.blockedEntirely || (!e'.blockedEntirely &&
    e'.blockedProducerIds.all (· ∈ e.blockedProducerIds) &&
    e'.blockedCampaignIds.all (· ∈ e.blockedCampaignIds))

theorem ChannelExclusion.excludes_of_subsumes {e e' : ChannelExclusion} (h : e.subsumes e' = true)
    {producerId : Uuid} {campaignId : Option String} (hx : e'.Excludes producerId campaignId) :
    e.Excludes producerId campaignId := by
  simp only [subsumes, or_eq_true, and_eq_true, not_eq_true', all_eq_true, decide_eq_true_eq] at h
  rcases h with h | ⟨⟨hb, hp⟩, hc⟩
  · exact .inl h
  · rcases hx with hx | hx | ⟨c, hx, rfl⟩
    · rw [hb] at hx
      cases hx
    · exact .inr (.inl (hp _ hx))
    · exact .inr (.inr ⟨c, hc c hx, rfl⟩)

section
variable [UuidCrate]

/-- An exclusion of a channel leaves out what a switch matches. -/
def ChannelExclusion.Covers (e : ChannelExclusion) (channel : String) (s : KillSwitch) : Prop :=
  ∀ r : OutboxRow, r.channel = channel → s.matchesRow r = true → e.ExcludesRow r

/-- An exclusion covers the switches it was built from. -/
theorem covers_exclusionForChannel {switches : List KillSwitch} {channel : String}
    {s : KillSwitch} (hs : s ∈ switches) :
    (exclusionForChannel switches channel).Covers channel s := by
  intro r hr hm
  subst hr
  exact excludes_exclusionForChannel.2 ⟨s, hs, hm⟩

/-- What a step does with a channel loop, given the cache and draining switches of its host. -/
inductive LoopStep (channel : String) (cache : ActiveSet) (draining : SwitchTable) :
    Pc → Pc → Prop
  | listening : LoopStep channel cache draining .start .ready
  | listenFailed : LoopStep channel cache draining .start .ended
  | read {leasedUntil : Time} :
      LoopStep channel cache draining .ready (.snapshot leasedUntil cache.activeSnapshot)
  | built {leasedUntil : Time} {switches : List KillSwitch} :
      LoopStep channel cache draining (.snapshot leasedUntil switches)
        (.claiming leasedUntil (exclusionForChannel (switches ++ draining.rows) channel))
  | failed {leasedUntil : Time} {e : ChannelExclusion} :
      LoopStep channel cache draining (.claiming leasedUntil e) (.delaying leasedUntil e)
  | repeated {leasedUntil : Time} {e : ChannelExclusion} :
      LoopStep channel cache draining (.delaying leasedUntil e) (.claiming leasedUntil e)
  | empty {leasedUntil : Time} {e : ChannelExclusion} :
      LoopStep channel cache draining (.claiming leasedUntil e) .ready
  | claimed {leasedUntil : Time} {e : ChannelExclusion} {jobs : Jobs}
      (rows : ∀ j ∈ jobs, j.row.channel = channel ∧ ¬ e.ExcludesRow j.row) :
      LoopStep channel cache draining (.claiming leasedUntil e) (.working jobs)
  | passed {jobs jobs' : Jobs} (rows : ∀ j ∈ jobs', ∃ j0 ∈ jobs, j.row = j0.row) :
      LoopStep channel cache draining (.working jobs) (.working jobs')
  | batchDone {jobs : Jobs} : LoopStep channel cache draining (.working jobs) .ready

section
variable {w w' : World} {a : Act} {t : Nat} {env : Env} {task : Task} {channel : String}

/-- The rows that a channel loop claims are on its channel and not excluded. -/
theorem not_excludes_of_claimed {db db' : TenantDb} {cfg : Config} {leasedUntil : Time}
    {e : ChannelExclusion} {rows : OutboxRows}
    (h : (TaskKind.channelLoop channel).query cfg db env leasedUntil e = some (rows, db'))
    {r : OutboxRow} (hr : r ∈ rows) : r.channel = channel ∧ ¬ e.ExcludesRow r := by
  obtain ⟨r0, -, he, rfl⟩ := (claim_spec h).eligible_of_mem hr
  obtain ⟨hch, -, -, hne⟩ := claimEligible_iff.1 he
  exact ⟨hch, hne⟩

/-- The step of a task that is a channel loop. -/
theorem loopStep_of_taskStep (hs : w.TaskStep t env w') (ht : w.tasks[t]? = some task)
    (hk : task.kind = .channelLoop channel) :
    ∃ host d pc, w.host? task.owner = some host ∧ host.dispatcher = some d ∧
      w'.hosts = w.hosts ∧ w'.tasks[t]? = some { task with pc := pc } ∧
      LoopStep channel host.cache d.draining task.pc pc := by
  have hset : ∀ pc, (w.tasks.set t { task with pc := pc })[t]? = some { task with pc := pc } := by
    intro pc
    rw [getElem?_set_self (List.getElem?_eq_some_iff.1 ht).1]
  cases hs with
  | looped runs loop =>
    cases ht.symm.trans runs.lookup
    refine ⟨_, _, _, runs.alive, runs.dispatcher, rfl, hset _, ?_⟩
    rw [hk] at loop
    cases hpc : task.pc <;> rw [hpc] at loop <;>
      simp only [TaskKind.loopStep, Option.some.injEq, reduceCtorEq] at loop <;> subst loop
    · split
      · exact .listening
      · exact .listenFailed
    · exact .read
    · exact .built
    · exact .repeated
  | failed runs pc | lost runs pc =>
    cases ht.symm.trans runs.lookup
    refine ⟨_, _, _, runs.alive, runs.dispatcher, rfl, hset _, ?_⟩
    rw [pc, hk]
    exact .failed
  | claimed runs pc reply query =>
    cases ht.symm.trans runs.lookup
    refine ⟨_, _, _, runs.alive, runs.dispatcher, rfl, hset _, ?_⟩
    rw [hk] at query
    rw [pc, hk]
    split
    · exact .empty
    · refine .claimed fun j hj => not_excludes_of_claimed query (mem_batch.1 hj).1
  | batchDone runs pc empty =>
    cases ht.symm.trans runs.lookup
    refine ⟨_, _, _, runs.alive, runs.dispatcher, rfl, hset _, ?_⟩
    rw [pc]
    exact .batchDone
  | @passed _ _ d jobs job rest runs pc head =>
    cases ht.symm.trans runs.lookup
    refine ⟨_, _, _, runs.alive, runs.dispatcher, rfl, hset _, ?_⟩
    rw [pc]
    have hjob : job ∈ jobs := by rw [mem_def, head]; exact .head _
    refine .passed fun j hj => ?_
    rcases (mem_nextJobs hjob).1 hj with ⟨hj, -⟩ | ⟨stage, -, rfl⟩
    · exact ⟨j, hj, rfl⟩
    · exact ⟨job, hjob, rfl⟩
  | spawned runs kind pc | drained runs kind pc =>
    cases ht.symm.trans runs.lookup
    rw [hk] at kind
    cases kind

/-- A step of another task leaves a task where it is. -/
theorem task_of_taskStep {t0 : Nat} (hs : w.TaskStep t0 env w') (ht : w.tasks[t]? = some task)
    (hne : t0 ≠ t) : w'.tasks[t]? = some task := by
  have hset : ∀ task', (w.tasks.set t0 task')[t]? = some task := by
    intro task'
    rw [getElem?_set_ne hne, ht]
  cases hs with
  | looped | failed | lost | claimed | batchDone | passed | drained => exact hset _
  | spawned =>
    refine (getElem?_append_left ?_).trans (hset _)
    rw [length_set]
    exact (List.getElem?_eq_some_iff.1 ht).1

/-- A step leaves a task, ends it with its process, or is a step of it. -/
theorem task_of_step (hs : w.Step a w') (ht : w.tasks[t]? = some task) :
    w'.tasks[t]? = some task ∨
      (a = .crash task.owner ∧ w'.tasks[t]? = some { task with pc := .ended }) ∨
      ∃ env, a = .task t env ∧ w.TaskStep t env w' := by
  have hspawn : ∀ tasks, (w.tasks ++ tasks)[t]? = some task := by
    intro tasks
    rw [getElem?_append_left (List.getElem?_eq_some_iff.1 ht).1, ht]
  cases hs with
  | @crashed h =>
    by_cases ho : task.owner = h
    · exact .inr (.inl ⟨by rw [ho], by simp [ht, ho]⟩)
    · exact .inl (by simp [ht, ho])
  | led => exact .inl (hspawn _)
  | refresh alive step =>
    cases step with
    | engaged pc | released pc => exact .inl (hspawn _)
    | _ => exact .inl ht
  | @task t0 env _ step =>
    by_cases hne : t0 = t
    · subst hne
      exact .inr (.inr ⟨env, rfl, step⟩)
    · exact .inl (task_of_taskStep step ht hne)
  | _ => exact .inl ht

/-- A step of a task moves it on. -/
theorem exists_pc_of_taskStep (hs : w.TaskStep t env w') (ht : w.tasks[t]? = some task) :
    ∃ pc, w'.tasks[t]? = some { task with pc := pc } := by
  have hlt : t < w.tasks.length := (List.getElem?_eq_some_iff.1 ht).1
  cases hs with
  | looped runs | failed runs | lost runs | claimed runs | batchDone runs | passed runs
  | drained runs =>
    cases ht.symm.trans runs.lookup
    exact ⟨_, getElem?_set_self hlt⟩
  | spawned runs kind pc =>
    cases ht.symm.trans runs.lookup
    refine ⟨_, (getElem?_append_left ?_).trans (getElem?_set_self hlt)⟩
    rwa [length_set]

/-- Tasks stay what they are. -/
theorem exists_pc_of_step (hs : w.Step a w') (ht : w.tasks[t]? = some task) :
    ∃ pc, w'.tasks[t]? = some { task with pc := pc } := by
  rcases task_of_step hs ht with ht' | ⟨-, ht'⟩ | ⟨env, rfl, hstep⟩
  · exact ⟨task.pc, ht'⟩
  · exact ⟨.ended, ht'⟩
  · exact exists_pc_of_taskStep hstep ht

/-- The tasks that a step may spawn: the loops of a new leader, the reaction to a switch engaged or
released, and the drains of a release. -/
inductive Spawned (w : World) : Task → Prop
  | loop {p : Nat} {host : Host} {channel : String} (alive : w.host? p = some host) :
      Spawned w ⟨p, .channelLoop channel, .start⟩
  | discard {p : Nat} {host : Host} {s : KillSwitch} {newlyEngaged released : List KillSwitch}
      (alive : w.host? p = some host) (pc : host.refresh = .delta (s :: newlyEngaged) released) :
      Spawned w ⟨p, .discard s, .ready⟩
  | release {p : Nat} {host : Host} {s : KillSwitch} {released : List KillSwitch}
      (alive : w.host? p = some host) (pc : host.refresh = .delta [] (s :: released)) :
      Spawned w ⟨p, .release s, .start⟩
  | drain {t : Nat} {host : Host} {d : Dispatcher} {task : Task} {s : KillSwitch}
      {channel : String} (runs : w.Runs t task host d) (kind : task.kind = .release s) :
      Spawned w ⟨task.owner, .drain channel s, .ready⟩

/-- A task that was not there before is one of these. -/
theorem spawned_cases (hs : w.Step a w') (hlt : w.tasks.length ≤ t)
    (ht : w'.tasks[t]? = some task) : Spawned w task := by
  have hold : ∀ {tasks : List Task}, tasks.length = w.tasks.length → tasks[t]? ≠ some task := by
    intro tasks hlen hsome
    have := (List.getElem?_eq_some_iff.1 hsome).1
    omega
  have hadd : ∀ {tasks new : List Task}, tasks.length = w.tasks.length →
      (tasks ++ new)[t]? = some task → task ∈ new := by
    intro tasks new hlen hsome
    rw [getElem?_append_right (hlen ▸ hlt)] at hsome
    exact mem_of_getElem? hsome
  cases hs with
  | crashed => exact absurd ht (hold (length_map _))
  | led alive dispatcher phase =>
    obtain ⟨channel, -, rfl⟩ := mem_map.1 (hadd rfl ht)
    exact .loop alive
  | refresh alive step =>
    cases step with
    | engaged pc =>
      obtain ⟨-, -, rfl⟩ := mem_onEngaged (hadd rfl ht)
      exact .discard alive pc
    | released pc =>
      obtain ⟨-, -, rfl⟩ := mem_onReleased (hadd rfl ht)
      exact .release alive pc
    | _ => exact absurd ht (hold rfl)
  | task step =>
    cases step with
    | spawned runs kind pc =>
      obtain ⟨channel, -, rfl⟩ := mem_map.1 (hadd length_set ht)
      exact .drain runs kind
    | _ => exact absurd ht (hold length_set)
  | _ => exact absurd ht (hold rfl)

/-- A new task belongs to a process that runs, and is at its start. -/
theorem spawned_of_step (hs : w.Step a w') (hlt : w.tasks.length ≤ t)
    (ht : w'.tasks[t]? = some task) :
    (∃ host, w.hosts[task.owner]? = some host) ∧ (task.pc = .start ∨ task.pc = .ready) := by
  cases spawned_cases hs hlt ht with
  | loop alive | release alive => exact ⟨⟨_, (host?_eq_some.1 alive).1⟩, .inl rfl⟩
  | discard alive => exact ⟨⟨_, (host?_eq_some.1 alive).1⟩, .inr rfl⟩
  | drain runs => exact ⟨⟨_, (host?_eq_some.1 runs.alive).1⟩, .inr rfl⟩

end

/-! ## Switches in force -/

/-- The exclusion that `claim_exclusion` computes when nothing happens between its reads. Source:
`src/dispatcher/worker.rs`. -/
def World.claimExclusion (w : World) (p : Nat) (channel : String) : ChannelExclusion :=
  exclusionForChannel (w.switches p .active ++ w.switches p .draining) channel

/-- A condition: when a claim of a channel loop fails, the exclusion it will be repeated
with leaves out all that a new one would. -/
def retriesCurrent (w : World) : Act → Bool
  | .task t env => w.tasks[t]?.all fun task =>
    match task.kind, task.pc with
    | .channelLoop channel, .claiming _ e =>
      env.reply = .ok || e.subsumes (w.claimExclusion task.owner channel)
    | _, _ => true
  | _ => true

/-- The channel loop `t` of the dispatcher `p` is about to build an exclusion, or to sleep before it
repeats a failed claim. -/
inductive WaitingPoint (C : World → Act → Prop) (t p : Nat) : World → Prop
  | head {w : World} {task : Task} {channel : String} (lookup : w.tasks[t]? = some task)
      (owner : task.owner = p) (kind : task.kind = .channelLoop channel) (pc : task.pc = .ready) :
      WaitingPoint C t p w
  | delay {w w' : World} {task : Task} {channel : String} {leasedUntil : Time}
      {e : ChannelExclusion} {env : Env} (lookup : w.tasks[t]? = some task)
      (owner : task.owner = p) (kind : task.kind = .channelLoop channel)
      (pc : task.pc = .claiming leasedUntil e) (reply : env.reply ≠ .ok)
      (cond : C w (.task t env)) (step : w.step (.task t env) = some w') :
      WaitingPoint C t p w'

/-- What a channel loop has done about a switch from one of the two sources. -/
def Pc.Heeds (channel : String) (source : SwitchSource) (s : KillSwitch) : Pc → Prop
  | .snapshot _ switches => source = .active → s ∈ switches
  | .claiming _ e | .delaying _ e => e.Covers channel s
  | _ => True

/-- The channel loop `t` takes a switch of its owner `p` into account. -/
def Heeding (t p : Nat) (source : SwitchSource) (s : KillSwitch) (w : World) : Prop :=
  ∃ task channel, w.tasks[t]? = some task ∧ task.owner = p ∧ task.kind = .channelLoop channel ∧
    task.pc.Heeds channel source s

section
variable {w w' : World} {a : Act} {t p : Nat} {env : Env} {task : Task} {channel : String}
  {source : SwitchSource} {s : KillSwitch} {host : Host}
variable {draining : SwitchTable}

/-- A step of the loop keeps a switch in view if its source has it when it is read. -/
theorem LoopStep.heeds {cache : ActiveSet} {pc pc' : Pc}
    (hactive : source = .active → pc = .ready → s ∈ cache.activeSnapshot)
    (hdraining : source = .draining → s ∈ draining.rows)
    (h : LoopStep channel cache draining pc pc') (hpc : pc.Heeds channel source s) :
    pc'.Heeds channel source s := by
  cases h with
  | listening | listenFailed | empty | claimed | passed | batchDone => trivial
  | read => exact fun hs => hactive hs rfl
  | built =>
    refine covers_exclusionForChannel (mem_append.2 ?_)
    cases source with
    | active => exact .inl (hpc rfl)
    | draining => exact .inr (hdraining rfl)
  | failed | repeated => exact hpc

/-- A loop that heeds a switch and holds no row of it claims none. -/
theorem LoopStep.not_matches {cache : ActiveSet} {pc pc' : Pc}
    (h : LoopStep channel cache draining pc pc') (hpc : pc.Heeds channel source s)
    (hjobs : ∀ j ∈ pc.jobs, s.matchesRow j.row = false) :
    ∀ j ∈ pc'.jobs, s.matchesRow j.row = false := by
  intro j hj
  cases h with
  | claimed rows =>
    obtain ⟨hch, hne⟩ := rows j hj
    by_contra hm
    exact hne (hpc j.row hch (by simpa using hm))
  | passed rows =>
    obtain ⟨j0, hj0, hrow⟩ := rows j hj
    rw [hrow]
    exact hjobs j0 hj0
  | _ => exact absurd hj (not_mem_empty j)

/-- Every step keeps a switch in view while its source has it. -/
theorem Heeding.step (h : Heeding t p source s w) (hs : s ∈ w.switches p source)
    (hstep : w.step a = some w') : Heeding t p source s w' := by
  obtain ⟨task, channel, ht, rfl, hk, hpc⟩ := h
  rcases task_of_step (step_cases hstep) ht with ht' | ⟨-, ht'⟩ | ⟨env, rfl, hts⟩
  · exact ⟨task, channel, ht', rfl, hk, hpc⟩
  · exact ⟨_, channel, ht', rfl, hk, trivial⟩
  · obtain ⟨host, d, pc, alive, dispatcher, -, ht', hl⟩ := loopStep_of_taskStep hts ht hk
    obtain ⟨hactive, hdraining⟩ := mem_of_switches alive dispatcher hs
    exact ⟨_, channel, ht', rfl, hk, hl.heeds (fun h _ => hactive h) hdraining hpc⟩

theorem WaitingPoint.any {C : World → Act → Prop} (h : WaitingPoint C t p w) :
    WaitingPoint Run.Any t p w := by
  cases h with
  | head lookup owner kind pc => exact .head lookup owner kind pc
  | delay lookup owner kind pc reply _ step =>
    exact .delay lookup owner kind pc reply trivial step

/-- A loop that waits takes into account what its sources have. -/
theorem WaitingPoint.heeding (h : WaitingPoint (retriesCurrent · ·) t p w)
    (hs : s ∈ w.switches p source) : Heeding t p source s w := by
  cases h with
  | @head _ task channel lookup owner kind pc =>
    exact ⟨task, channel, lookup, owner, kind, by rw [pc]; trivial⟩
  | @delay w0 _ task channel leasedUntil e env lookup owner kind pc reply cond step =>
    obtain ⟨host, d, pc', alive, dispatcher, hhosts, ht', hl⟩ :=
      loopStep_of_taskStep (taskStep_cases step) lookup kind
    have hs0 : s ∈ w0.switches p source := by
      unfold World.switches at hs ⊢
      rwa [hhosts] at hs
    have hcov : e.Covers channel s := by
      intro r hr hm
      simp only [retriesCurrent, lookup, Option.all_some, kind, pc, reply, decide_false,
        Bool.false_or] at cond
      refine ChannelExclusion.excludes_of_subsumes cond ?_
      refine covers_exclusionForChannel (mem_append.2 ?_) r hr hm
      rw [owner]
      cases source with
      | active => exact .inl hs0
      | draining => exact .inr hs0
    obtain ⟨hactive, hdraining⟩ := mem_of_switches (owner ▸ alive) dispatcher hs0
    refine ⟨_, channel, ht', owner, kind, hl.heeds (fun h _ => hactive h) hdraining ?_⟩
    rw [pc]
    exact hcov

/-- A claim returns no row of a switch that is taken into account. -/
theorem Heeding.not_matches (h : Heeding t p source s w) {leasedUntil : Time}
    {e : ChannelExclusion} (ht : w.tasks[t]? = some task) (hpc : task.pc = .claiming leasedUntil e)
    (hs : w.step (.task t env) = some w') {j : Job} (hj : w'.Holds t j) :
    s.matchesRow j.row = false := by
  obtain ⟨task, channel, ht', -, hk, hheeds⟩ := h
  cases ht.symm.trans ht'
  obtain ⟨host, d, pc', -, -, -, ht'', hl⟩ :=
    loopStep_of_taskStep (taskStep_cases hs) ht hk
  obtain ⟨task', ht', hj⟩ := hj
  cases ht''.symm.trans ht'
  refine hl.not_matches hheeds (fun j hj => ?_) j hj
  rw [hpc] at hj
  exact absurd hj (not_mem_empty j)

/-- As long as a failed claim is repeated with an exclusion that leaves out what a new one would, a
row that a claim of a channel loop returns matches no switch that was in the active set of its
dispatcher, or among the switches it drains, from the last time the loop waited until the claim. -/
theorem claims_use_current_switches {w1 w2 w3 : World} {as : List Act} {leasedUntil : Time}
    {e : ChannelExclusion} (h1 : WaitingPoint (retriesCurrent · ·) t p w1)
    (h : Run.Steps World.step (fun w a => retriesCurrent w a ∧ s ∈ w.switches p source) w1 as w2)
    (hs : s ∈ w2.switches p source) (ht : w2.tasks[t]? = some task)
    (hpc : task.pc = .claiming leasedUntil e) (hclaim : w2.step (.task t env) = some w3) :
    ∀ j, w3.Holds t j → s.matchesRow j.row = false := by
  have hs1 : s ∈ w1.switches p source := by
    cases h with
    | nil => exact hs
    | cons hc _ _ => exact hc.2
  have hheeding : Heeding t p source s w2 :=
    h.inv (fun _ _ _ hc hstep hi => hi.step hc.2 hstep) (h1.heeding hs1)
  exact fun j hj => hheeding.not_matches ht hpc hclaim hj

end

end

/-! ## Samples -/

/-- Whether the channel loop `t` of the dispatcher `p` is about to claim. -/
def World.claims (w : World) (t p : Nat) (channel : String) : Bool :=
  w.tasks[t]?.any fun task =>
    task.owner = p && task.kind = .channelLoop channel && task.pc matches .claiming _ _

theorem World.exists_of_claims {w : World} {t p : Nat} {channel : String}
    (h : w.claims t p channel = true) : ∃ task leasedUntil e, w.tasks[t]? = some task ∧
      task.owner = p ∧ task.kind = .channelLoop channel ∧ task.pc = .claiming leasedUntil e := by
  obtain ⟨task, ht, h⟩ := (Option.any_eq_true _ _).1 h
  simp only [and_eq_true, decide_eq_true_eq] at h
  cases hpc : task.pc with
  | claiming leasedUntil e => exact ⟨task, leasedUntil, e, ht, h.1.1, h.1.2, hpc⟩
  | _ =>
    rw [hpc] at h
    cases h.2

/-- A switch over one campaign, for runs on fixed inputs. -/
def KillSwitch.sampleCampaign (id : Uuid) : KillSwitch :=
  { KillSwitch.sample id with scope := .campaign, scopeKey := some "spring" }

/-- A run in which a claim fails and is repeated while a switch stays active, and what there is to
check. -/
def retryCheck (c : World → Act → Bool) (s : KillSwitch) (as : List Act) : Bool :=
  (Run.exec (@World.step .sample) .empty as).any fun w0 =>
    w0.claims 0 0 "sms" && c w0 (.task 0 { reply := .failed }) &&
    (@World.step .sample w0 (.task 0 { reply := .failed })).any fun w1 =>
      (Run.exec (fun w a => if c w a && s ∈ w.switches 0 .active then @World.step .sample w a
        else none) w1 [.task 0 {}]).any fun w2 =>
        s ∈ w2.switches 0 .active && w2.claims 0 0 "sms" &&
        (@World.step .sample w2 (.claim 0 ⟨7⟩)).any fun w3 =>
          s ∈ w3.switches 0 .active && w3.tasks[0]?.any fun task => !task.pc.jobs.rows.isEmpty

/-- Such a run, from the failed claim on. -/
structure Retried (c : World → Act → Bool) (s : KillSwitch) (w1 w2 w3 : World) (task : Task)
    (leasedUntil : Time) (e : ChannelExclusion) : Prop where
  waiting : @WaitingPoint .sample (c · ·) 0 0 w1
  run : Run.Steps (@World.step .sample) (fun w a => c w a ∧ s ∈ w.switches 0 .active) w1
    [.task 0 {}] w2
  active : s ∈ w2.switches 0 .active
  lookup : w2.tasks[0]? = some task
  pc : task.pc = .claiming leasedUntil e
  claim : @World.step .sample w2 (.claim 0 ⟨7⟩) = some w3
  still : s ∈ w3.switches 0 .active
  holds : ∃ j, w3.Holds 0 j

/-- What `retryCheck` checks is such a run. -/
theorem exists_retried {c : World → Act → Bool} {s : KillSwitch} {as : List Act}
    (h : retryCheck c s as = true) : ∃ bs w1 w2 w3 task leasedUntil e,
      Run.Steps (@World.step .sample) Run.Any .empty bs w1 ∧
      Retried c s w1 w2 w3 task leasedUntil e := by
  obtain ⟨w0, h0, hp⟩ := Run.Steps.exists_of_exec _ _ _ _ h
  obtain ⟨hp0, hp⟩ := and_eq_true_iff.1 hp
  obtain ⟨hclaims, hc⟩ := and_eq_true_iff.1 hp0
  obtain ⟨w1, h1, hp⟩ := (Option.any_eq_true _ _).1 hp
  obtain ⟨w2, h2, hp⟩ := Run.Steps.exists_of_checked (@World.step .sample)
    (fun w a => c w a && s ∈ w.switches 0 .active) w1 _ _ hp
  obtain ⟨hp2, hp⟩ := and_eq_true_iff.1 hp
  obtain ⟨hs, hclaims2⟩ := and_eq_true_iff.1 hp2
  obtain ⟨w3, h3, hp⟩ := (Option.any_eq_true _ _).1 hp
  obtain ⟨hs3, hp⟩ := and_eq_true_iff.1 hp
  obtain ⟨task3, ht3, hj⟩ := (Option.any_eq_true _ _).1 hp
  obtain ⟨j, hj⟩ := exists_mem_of_ne_nil task3.pc.jobs.rows (by simpa using hj)
  obtain ⟨task, leasedUntil, e, ht, ho, hk, hpc⟩ := exists_of_claims hclaims
  obtain ⟨task2, leasedUntil2, e2, ht2, -, -, hpc2⟩ := exists_of_claims hclaims2
  have hwait : @WaitingPoint .sample (c · ·) 0 0 w1 :=
    @WaitingPoint.delay .sample _ _ _ w0 w1 task "sms" leasedUntil e { reply := .failed } ht ho hk
      hpc (by decide) hc h1
  exact ⟨_, w1, w2, w3, task2, leasedUntil2, e2, h0.snoc trivial h1, hwait,
    h2.mono fun w a h => by simpa using h, of_decide_eq_true hs, ht2, hpc2, h3,
    of_decide_eq_true hs3, j, task3, ht3, hj⟩

/-- A dispatcher has seen a campaign's switch when its channel loop builds the exclusion. -/
def sampleExclusion : List Act :=
  [Act.startDispatcher .sample, .openContext] ++ Act.elect 0 ++ Act.accept 1 (.sample ⟨7⟩ "k") ++
    [Act.engage (.sampleCampaign ⟨9⟩)] ++ Act.refresh 0 ++ [Act.task 0 {}, .task 0 {}, .task 0 {}]

theorem claims_use_current_switches_sampleExclusion :
    ∃ w1 w2 w3 task leasedUntil e,
      Retried (@retriesCurrent .sample) (.sampleCampaign ⟨9⟩) w1 w2 w3 task leasedUntil e ∧
      ∀ j, w3.Holds 0 j → @KillSwitch.matchesRow .sample (.sampleCampaign ⟨9⟩) j.row = false := by
  have hcheck : retryCheck (@retriesCurrent .sample) (.sampleCampaign ⟨9⟩) sampleExclusion := by
    decide
  obtain ⟨_, w1, w2, w3, task, leasedUntil, e, -, hr⟩ := exists_retried hcheck
  exact ⟨w1, w2, w3, task, leasedUntil, e, hr, @claims_use_current_switches .sample _ _ _ _ _ _ _ _
    _ _ _ _ hr.waiting hr.run hr.active hr.lookup hr.pc hr.claim⟩

/-- A dispatcher sees a switch over everything after its loop has built the exclusion. -/
def staleExclusion : List Act :=
  [Act.startDispatcher .sample, .openContext] ++ Act.elect 0 ++ Act.accept 1 (.sample ⟨7⟩ "k") ++
    [Act.task 0 {}, .task 0 {}, .task 0 {}] ++ [Act.engage (.sample ⟨9⟩)] ++ Act.refresh 0

/-- Without the condition a repeated claim returns a row of a switch that was active all along. -/
theorem claims_held_row_staleExclusion :
    ¬ ∀ (w0 w1 w2 w3 : World) (as bs : List Act) (t p : Nat) (env : Env) (task : Task)
      (leasedUntil : Time) (e : ChannelExclusion) (source : SwitchSource) (s : KillSwitch),
      w0.Initial → Run.Steps (@World.step .sample) Run.Any w0 as w1 →
      @WaitingPoint .sample Run.Any t p w1 →
      Run.Steps (@World.step .sample) (fun w _ => s ∈ w.switches p source) w1 bs w2 →
      s ∈ w2.switches p source → w2.tasks[t]? = some task → task.pc = .claiming leasedUntil e →
      @World.step .sample w2 (.task t env) = some w3 → s ∈ w3.switches p source →
      ∀ j, w3.Holds t j → @KillSwitch.matchesRow .sample s j.row = false := by
  intro h
  have hcheck : retryCheck (fun _ _ => true) (.sample ⟨9⟩) staleExclusion = true := by decide
  obtain ⟨_, w1, w2, w3, task, leasedUntil, e, h1, hr⟩ := exists_retried hcheck
  obtain ⟨j, hj⟩ := hr.holds
  -- the switch matches every row
  exact Bool.noConfusion (h _ w1 w2 w3 _ _ 0 0 _ task leasedUntil e .active (.sample ⟨9⟩)
    World.initial_empty h1 (@WaitingPoint.any .sample _ _ _ _ hr.waiting)
    (hr.run.mono fun _ _ h => h.2) hr.active hr.lookup hr.pc hr.claim
    hr.still j hj)

end Messgr
