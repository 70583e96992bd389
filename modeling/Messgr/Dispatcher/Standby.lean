import Messgr.Dispatcher.Queue
import Messgr.Lib.Indexed

/-!
# Standby dispatchers

A dispatcher that waits for the lock is meant to do nothing but keep its caches fresh. Its refresh
loop runs from the start, though, and reacts to switches with tasks of its own: a discard for a
`discard` switch that was engaged, a release drain for a `hold` switch that was released.
`standby_idle` is the guarantee for runs in which a standby gets neither to handle.
-/

namespace Messgr

open List Option World
open Indexed (All)

/-- The entries of the log that are dispatch work of the process `p`. -/
def Obs.dispatches (p : Nat) : Obs → Bool
  | .leased q _ ids => q = p && !ids.isEmpty
  | .providerCall q _ _ _ | .terminal q _ _ _ => q = p
  | _ => false

/-- Whether a dispatcher spawns a task for the switch it handles next. -/
def RefreshPc.spawns : RefreshPc → Bool
  | .delta (s :: _) _ => s.onQueued = .discard
  | .delta [] (s :: _) => s.onQueued = .hold
  | _ => false

/-- A condition: a dispatcher that is not elected handles no `discard` switch engaged and
no `hold` switch released. -/
def standbySeesNothing (w : World) : Act → Bool
  | .react h => w.hosts[h]?.all fun host =>
    !host.refresh.spawns || host.dispatcher.all (·.phase ≠ .electing)
  | _ => true

/-- A dispatcher past the election is on record as elected. -/
def Elected (log : List Obs) (p : Nat) (host : Host) : Prop :=
  ∀ d, host.dispatcher = some d → d.phase ≠ .electing → .acquired p ∈ log

/-- All tasks and dispatch work belong to dispatchers that were elected. -/
structure StandbyInv (w : World) : Prop where
  hosts : All (Elected w.log) w.hosts
  tasks : All (fun _ task => .acquired task.owner ∈ w.log) w.tasks
  log : ∀ o ∈ w.log, ∀ p, o.dispatches p = true → .acquired p ∈ w.log

section
variable {w w' : World} {a : Act} {log log' : List Obs} {p : Nat} {host host' : Host}

/-- A dispatcher whose phase is that of another. -/
theorem Elected.congr (h : Elected log p host) (hd : ∀ d', host'.dispatcher = some d' →
    ∃ d, host.dispatcher = some d ∧ d.phase = d'.phase) : Elected log p host' := by
  intro d' hd' hp
  obtain ⟨d, hd, heq⟩ := hd d' hd'
  exact h d hd (heq ▸ hp)

theorem StandbyInv.elected (h : StandbyInv w) (alive : w.host? p = some host) :
    Elected w.log p host :=
  h.hosts p host (host?_eq_some.1 alive).1

theorem StandbyInv.hosts_append (h : StandbyInv w) {obs : List Obs} :
    All (Elected (w.log ++ obs)) w.hosts :=
  h.hosts.mono fun _ _ hh d hd hp => mem_append_left _ (hh d hd hp)

/-- A step that logs no dispatch work but that of elected dispatchers. -/
theorem StandbyInv.extend (h : StandbyInv w) {obs : List Obs} (hlog : w'.log = w.log ++ obs)
    (hhosts : All (Elected w'.log) w'.hosts)
    (htasks : All (fun _ task => .acquired task.owner ∈ w.log) w'.tasks)
    (hobs : ∀ o ∈ obs, ∀ p, o.dispatches p = true → .acquired p ∈ w.log) : StandbyInv w' := by
  have hsub : ∀ o ∈ w.log, o ∈ w'.log := fun o ho => hlog ▸ mem_append_left _ ho
  refine ⟨hhosts, htasks.mono fun _ _ ht => hsub _ ht, fun o ho p hp => hsub _ ?_⟩
  rw [hlog] at ho
  rcases mem_append.1 ho with ho | ho
  · exact h.log o ho p hp
  · exact hobs o ho p hp

/-- A step that changes hosts and tasks and shows nothing. -/
theorem StandbyInv.silent (h : StandbyInv w) (hlog : w'.log = w.log)
    (hhosts : All (Elected w.log) w'.hosts)
    (htasks : All (fun _ task => .acquired task.owner ∈ w.log) w'.tasks) : StandbyInv w' :=
  h.extend (hlog.trans (append_nil _).symm) (hlog.symm ▸ hhosts) htasks (by simp)

/-- What a task shows is work of its owner. -/
theorem dispatches_passObs {task : Task} {t : Nat} {env : Env} {job : Job} {o : Obs}
    (ho : o ∈ task.passObs t env job) (hp : o.dispatches p = true) : task.owner = p := by
  obtain ⟨rfl, -⟩ | ⟨status, rfl⟩ := (passObs_cases ho).2
  · simpa [Obs.dispatches] using hp
  · simpa [Obs.dispatches] using hp

/-- A dispatcher that handles a switch which spawns a task was elected. -/
theorem StandbyInv.acquired_of_spawns (h : StandbyInv w) (alive : w.host? p = some host)
    (hc : standbySeesNothing w (.react p) = true) (hs : host.refresh.spawns = true)
    (hd : host.dispatcher.isSome = true) : .acquired p ∈ w.log := by
  obtain ⟨d, hd⟩ := isSome_iff_exists.1 hd
  refine h.elected alive d hd ?_
  simpa [standbySeesNothing, (host?_eq_some.1 alive).1, hs, hd] using hc

/-- The steps of refresh loops. -/
theorem StandbyInv.refreshStep (h : StandbyInv w) (alive : w.host? p = some host)
    (hc : standbySeesNothing w a = true) (hs : w.RefreshStep p host a w') : StandbyInv w' := by
  have hhost := h.elected alive
  have hget := (host?_eq_some.1 alive).1
  cases hs with
  | failed => exact h
  | tenant | platform | handled => exact h.silent rfl (h.hosts.set hhost) h.tasks
  | swapped pc swap =>
    refine h.extend rfl (h.hosts_append.set (h.hosts_append p host hget)) h.tasks ?_
    intro o ho q hq
    rcases mem_cons.1 ho with rfl | ho
    · cases hq
    · obtain ⟨s, -, rfl⟩ := mem_map.1 ho
      cases hq
  | @engaged s newlyEngaged released pc =>
    refine h.silent rfl (h.hosts.set hhost) (h.tasks.append fun _ _ task htask => ?_)
    -- a standby has no `discard` switch to react to
    obtain ⟨hd, hs, rfl⟩ := mem_onEngaged htask
    exact h.acquired_of_spawns alive hc (by simp [pc, RefreshPc.spawns, hs]) hd
  | @released s released pc =>
    refine h.silent rfl (h.hosts.set (hhost.congr fun d' hd' => ?_))
      (h.tasks.append fun _ _ task htask => ?_)
    · obtain ⟨d, hd, rfl⟩ := map_eq_some_iff.1 hd'
      exact ⟨d, hd, by rw [Dispatcher.drain]; split <;> rfl⟩
    · -- nor a `hold` switch to drain
      obtain ⟨hd, hs, rfl⟩ := mem_onReleased htask
      exact h.acquired_of_spawns alive hc (by simp [pc, RefreshPc.spawns, hs]) hd

variable [UuidCrate]

/-- The steps of tasks. -/
theorem StandbyInv.taskStep (h : StandbyInv w) {t : Nat} {env : Env} (hs : w.TaskStep t env w') :
    StandbyInv w' := by
  have moved : ∀ {task host d m}, w.Runs t task host d →
      (∀ o ∈ m.obs, ∀ p, o.dispatches p = true → task.owner = p) →
      StandbyInv (w.moved t task m) := by
    intro task host d m runs hm
    have howner := h.tasks t task runs.lookup
    refine h.extend rfl ?_ (h.tasks.set howner) fun o ho p hp => hm o ho p hp ▸ howner
    exact h.hosts_append
  have leased : ∀ {task : Task}, ∀ o ∈ [Obs.leased task.owner t env.pick.ids], ∀ p,
      o.dispatches p = true → task.owner = p := by
    intro task o ho p hp
    cases mem_singleton.1 ho
    simp only [Obs.dispatches, Bool.and_eq_true, decide_eq_true_eq] at hp
    exact hp.1
  cases hs with
  | looped runs | failed runs | batchDone runs => exact moved runs (by simp)
  | lost runs | claimed runs => exact moved runs leased
  | passed runs pc head => exact moved runs fun o ho p hp => dispatches_passObs ho hp
  | @spawned task host d s runs kind pc =>
    have howner := h.tasks t task runs.lookup
    refine h.silent rfl h.hosts ((h.tasks.set (b := { task with pc := .awaiting _ }) howner).append
      fun _ _ child hchild => ?_)
    obtain ⟨channel, -, rfl⟩ := mem_map.1 hchild
    exact howner
  | @drained task host d s handles runs kind pc =>
    have hget := (host?_eq_some.1 runs.alive).1
    refine h.extend rfl (h.hosts_append.set ((h.hosts_append _ host hget).congr fun d' hd' => ?_))
      (h.tasks.set (h.tasks t task runs.lookup)) (by simp [Obs.dispatches])
    cases hd'
    exact ⟨d, runs.dispatcher, rfl⟩

/-- Every step keeps standby dispatchers idle, while they handle nothing that spawns a task. -/
theorem StandbyInv.step (h : StandbyInv w) (hc : standbySeesNothing w a = true)
    (hs : w.step a = some w') : StandbyInv w' := by
  cases step_cases hs with
  | started =>
    refine h.silent rfl (h.hosts.append fun i _ host hhost => ?_) h.tasks
    cases mem_singleton.1 hhost
    exact fun d hd hp => absurd (by cases hd; rfl) hp
  | opened =>
    refine h.silent rfl (h.hosts.append fun i _ host hhost => ?_) h.tasks
    cases mem_singleton.1 hhost
    exact fun d hd => (by cases hd)
  | @crashed p host alive =>
    have hhost := h.elected alive
    refine h.silent rfl (h.hosts.set hhost) (.map (h.tasks.mono fun _ task ht => ?_))
    split <;> exact ht
  | @acquired p host d alive dispatcher phase =>
    refine h.extend rfl (h.hosts_append.set ?_) h.tasks (by simp [Obs.dispatches])
    exact fun _ _ _ => mem_append_right _ mem_cons_self
  | dropped | inserted | cancelMissed | engaged | released | engagedPlatform | releasedPlatform
  | gates => exact h.silent rfl h.hosts h.tasks
  | @swept p host d alive dispatcher phase =>
    have hacq := h.elected alive d dispatcher (by rw [phase]; exact Phase.noConfusion)
    exact h.silent rfl (h.hosts.set fun _ _ _ => hacq) h.tasks
  | @led p host d alive dispatcher phase =>
    have hacq := h.elected alive d dispatcher (by rw [phase]; exact Phase.noConfusion)
    refine h.silent rfl (h.hosts.set fun _ _ _ => hacq) (h.tasks.append fun _ _ task htask => ?_)
    obtain ⟨channel, -, rfl⟩ := mem_map.1 htask
    exact hacq
  | refresh alive step => exact h.refreshStep alive hc step
  | task step => exact h.taskStep step
  | refused | insertFailed | notCancelled => exact h
  | admitted | cancelled | wasCancelled =>
    exact h.extend rfl h.hosts_append h.tasks (by simp [Obs.dispatches])

/-- A dispatcher leases no row, calls no provider and writes no status before it is elected, as long
as its refresh loop handles no `discard` switch that was engaged and no `hold` switch that was
released. -/
theorem standby_idle {w0 : World} {as : List Act} (h0 : w0.Initial)
    (h : Run.Steps World.step (standbySeesNothing · ·) w0 as w) (p : Nat)
    (hp : .acquired p ∉ w.log) : ∀ o ∈ w.log, o.dispatches p = false := by
  have hinv : StandbyInv w := by
    refine h.inv (fun _ _ _ hc hs hi => hi.step hc hs) ⟨?_, ?_, ?_⟩
    · rw [h0.hosts]
      exact .nil
    · rw [h0.tasks]
      exact .nil
    · simp [h0.log]
  intro o ho
  by_contra hd
  exact hp (hinv.log o ho p (by simpa using hd))

end

/-- A dispatcher leads and claims a message; another waits and sees a switch engaged. -/
def sampleStandby : List Act :=
  [Act.startDispatcher .sample, .startDispatcher .sample, .openContext] ++ Act.elect 0 ++
    Act.accept 2 (.sample ⟨7⟩ "k") ++ [Act.task 0 {}] ++ Act.claimRow 0 ⟨7⟩ ++
    [Act.engage (.sample ⟨9⟩)] ++ Act.refresh 1

theorem standby_idle_sampleStandby :
    ∃ w, Run.Steps (@World.step .sample) (standbySeesNothing · ·) .empty sampleStandby w ∧
      .acquired 1 ∉ w.log ∧ .seenEngaged 1 (.sample ⟨9⟩) ∈ w.log ∧
      ∀ o ∈ w.log, o.dispatches 1 = false := by
  obtain ⟨w, hw, hp⟩ := Run.Steps.exists_of_checked (@World.step .sample) standbySeesNothing
    .empty sampleStandby (fun w => .acquired 1 ∉ w.log ∧ .seenEngaged 1 (.sample ⟨9⟩) ∈ w.log)
    (by decide)
  obtain ⟨hacq, hseen⟩ := of_decide_eq_true hp
  exact ⟨w, hw, hacq, hseen, @standby_idle w .sample _ _ World.initial_empty hw 1 hacq⟩

/-- A dispatcher never elected sees a switch engaged and released, and its drain claims a message.
-/
def standbyDrain : List Act :=
  [Act.startDispatcher .sample, .openContext] ++ Act.accept 1 (.sample ⟨7⟩ "k") ++
    [Act.engage (.sample ⟨9⟩)] ++ Act.refresh 0 ++ [Act.release ⟨9⟩ "operator" 0] ++
    Act.refresh 0 ++ [Act.task 0 {}, .task 1 {}, .claim 1 ⟨7⟩]

/-- Without the condition a standby dispatcher leases rows. -/
theorem standby_leases_standbyDrain :
    ¬ ∀ (w0 w : World) (as : List Act), w0.Initial →
      Run.Steps (@World.step .sample) Run.Any w0 as w →
      ∀ p, .acquired p ∉ w.log → ∀ o ∈ w.log, o.dispatches p = false := by
  intro h
  obtain ⟨w, hw, hp⟩ := Run.Steps.exists_of_exec (@World.step .sample) .empty standbyDrain
    (fun w => .acquired 0 ∉ w.log ∧ .leased 0 1 [⟨7⟩] ∈ w.log) (by decide)
  obtain ⟨hacq, hleased⟩ := of_decide_eq_true hp
  exact Bool.noConfusion (h _ w _ World.initial_empty hw 0 hacq _ hleased)

end Messgr
